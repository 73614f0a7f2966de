/-
# `Redis.Touch` — what each request does to a job's card

One equation per request, or one inversion where a script loops.  Requests
that only read leave every card alone by definition; the debounce index and
the unique pointers are on no card.
-/
import FlexiQ.Redis.Card

namespace FlexiQ.Redis

open List FlexiQ.Lib FlexiQ.Step FlexiQ.Sql Card

def settleDeadline (marker : Option MarkerKey) (deadlineMs : Int) : Int :=
  luaToString ((marker.map fun m => asF64 m.deadline).elim (asF64 deadlineMs)
    (max · (asF64 deadlineMs)))

section Touch

variable {s s' : Store} {j : String}

/-! ## Scripts of one pipeline -/

theorem ifMember_fst (s : Store) (status : JobStatus) (id : String) (ops : List Cmd) :
    (ifMember s status id ops).1 = s.sets.sismember (.status status) id := by
  unfold ifMember
  split
  · next hmem => exact hmem.symm
  · next hmem => exact (Bool.eq_false_iff.mpr hmem).symm

theorem ifMember_card (status : JobStatus) (id : String) (ops : List Cmd) :
    cardOf (ifMember s status id ops).2 j =
      if s.sets.sismember (.status status) id then (cardOf s j).run s.clock j ops
      else cardOf s j := by
  unfold ifMember
  split
  · exact exec_card j ops s
  · rfl

theorem archive_card (read : Job) (ending : Ending) (now : Int) (listed : Option Listing) :
    cardOf (perform (.archive read ending now listed) s).2 j =
      if read.id = j then (cardOf s j).shelved (ending.of read now) read.status
      else cardOf s j := by
  have hid : (ending.of read now).id = read.id := by
    cases ending with
    | cancel error => cases error <;> rfl
    | _ => rfl
  show cardOf (archiveJobImmediately s (ending.of read now) read.status now) j = _
  rw [archiveJobImmediately, exec_card, pushArchiveOps_card, hid]

theorem requeue_card (read : Job) (nextAt : Int) (bump : Bool) :
    cardOf (perform (.requeue read nextAt bump) s).2 j =
      if read.id = j then (cardOf s j).requeued (requeued read nextAt bump) read.status bump
      else cardOf s j := by
  have hid : (requeued read nextAt bump).id = read.id := by
    cases bump <;> rfl
  show cardOf (s.exec _) j = _
  rw [exec_card, requeueOps_card, hid]

theorem requeueStuck_card (read : Job) (now : Int) :
    cardOf (perform (.requeueStuck read now) s).2 j =
      if read.id = j ∧ (cardOf s j).status .running = true then
        (cardOf s j).returned { read.pendingAt now with cancelRequested := false } .running
      else cardOf s j := by
  refine (ifMember_card .running read.id _).trans ?_
  rw [requeueStuckOps_card]
  by_cases hj : read.id = j
  · subst hj
    simp only [true_and, if_true]
    rfl
  · simp [hj]

theorem claimPending_card (queue : String) (read : Job) (now : Int) :
    cardOf (perform (.claimPending queue read now) s).2 j =
      if read.id = j ∧ (cardOf s j).status .pending = true then
        (cardOf s j).started (read.startedBy now) queue
      else cardOf s j := by
  refine (ifMember_card .pending read.id _).trans ?_
  rw [claimOps_card]
  by_cases hj : read.id = j
  · subst hj
    simp only [true_and]
    rw [if_pos (show (read.startedBy now).id = read.id from rfl)]
    rfl
  · have hid : (read.startedBy now).id ≠ j := hj
    simp [hj, hid]

theorem requestCancel_card (read : Job) : cardOf (perform (.requestCancel read) s).2 j =
      if read.id = j ∧ (cardOf s j).status .running = true then
        { cardOf s j with doc := some { read with cancelRequested := true } }
      else cardOf s j := by
  refine (ifMember_card .running read.id _).trans ?_
  by_cases hj : read.id = j
  · subst hj
    simp only [run_cons, run_nil, apply, true_and, if_true]
    rfl
  · simp [apply, hj]

theorem setIfLive_card (read : Job) (progress : Int) :
    cardOf (perform (.setIfLive read progress) s).2 j =
      if read.id = j ∧ (cardOf s j).doc.isSome = true then
        { cardOf s j with doc := some { read with progress := some progress } }
      else cardOf s j := by
  show cardOf (setIfLive s { read with progress := some progress }).2 j = _
  unfold setIfLive
  split
  · next old hold =>
    refine (exec_card j _ s).trans ?_
    by_cases hj : read.id = j
    · subst hj
      have hdoc : (cardOf s read.id).doc = some old := hold
      simp [apply, hdoc]
    · simp [apply, hj]
  · next hnone =>
    by_cases hj : read.id = j
    · subst hj
      have hdoc : (cardOf s read.id).doc = none := hnone
      simp [hdoc]
    · simp [hj]

theorem deadLetterOps_card (job : Job) (entry : DeadJobEntry) (error : String) (old : JobStatus)
    (now : Int) : cardOf (s.exec (deadLetterOps job entry error old now)) j =
      if job.id = j then (cardOf s j).shelved (job.finish .dead now (some error)) old
      else cardOf s j := by
  rw [exec_card, deadLetterOps, run_append, pushArchiveOps_card]
  rfl

theorem deadLetter_card (read : Job) (entry : DeadJobEntry) (error : String) (now : Int) :
    cardOf (perform (.deadLetter read entry error now) s).2 j =
      if read.id = j ∧ (cardOf s j).doc.isSome = true then
        (cardOf s j).shelved (read.finish .dead now (some error)) read.status
      else cardOf s j := by
  show cardOf (deadLetterTx s read entry error now).2 j = _
  unfold deadLetterTx
  split
  · next old hold =>
    refine (deadLetterOps_card read entry error read.status now).trans ?_
    by_cases hj : read.id = j
    · subst hj
      have hdoc : (cardOf s read.id).doc = some old := hold
      simp [hdoc]
    · simp [hj]
  · next hnone =>
    by_cases hj : read.id = j
    · subst hj
      have hdoc : (cardOf s read.id).doc = none := hnone
      simp [hdoc]
    · simp [hj]

/-! ## Scripts that only touch what no card shows -/

theorem uniqueCheck_card (ns : Scope) (key : String) :
    cardOf (uniqueCheck s ns key).2 j = cardOf s j := by
  unfold uniqueCheck
  split
  · rfl
  · exact exec_card j _ s

theorem releaseUnique_card (job : Job) :
    cardOf (perform (.releaseUnique job) s).2 j = cardOf s j := by
  show cardOf (releaseUniqueKey s job) j = _
  unfold releaseUniqueKey
  repeat' split
  all_goals rfl

theorem debounceScan_card (ns : Scope) (key : String) : ∀ (ids : List String) (s : Store),
    cardOf (debounceScan (.debounce ns key) s ids).2 j = cardOf s j
  | [], _ => rfl
  | id :: ids, s => by
    have hdrop : cardOf (s.exec [.zrem (.debounce ns key) id]) j = cardOf s j := exec_card j _ s
    rw [debounceScan]
    split
    · exact (debounceScan_card ns key ids _).trans hdrop
    · split
      · exact (debounceScan_card ns key ids _).trans hdrop
      · split
        · exact debounceScan_card ns key ids s
        · rfl

theorem resolveDebounceTarget_card (ns : Scope) (key : String) :
    cardOf (resolveDebounceTarget s (.debounce ns key)).2 j = cardOf s j :=
  debounceScan_card ns key _ s

/-! ## The claim script -/

/-- What the claim script made of a job. -/
inductive Scanned (queue : String) (now : Int) (card : Card) : Card → Prop
  | same : Scanned queue now card card
  | pruned (hdoc : card.doc = none) :
      Scanned queue now card { card with queued := fun q => q ≠ queue && card.queued q }
  | started {job : Job} (hdoc : card.doc = some job) (hjob : job.status = .pending)
      (hpending : card.status .pending = true) (hqueued : card.queued queue = true) :
      Scanned queue now card (card.started (job.startedBy now) queue)

variable {queue : String} {now : Int} {ns : Scope} {max : Nat}

theorem selectOne_other (out : Selected) {id : String} (hj : id ≠ j) :
    cardOf (selectOne queue now ns s out id).2 j = cardOf s j := by
  unfold selectOne
  cases hjob : loadJob s id with
  | none =>
    refine (exec_card j _ s).trans ?_
    simp [apply, zrem, hj]
  | some job =>
    have hid : (job.startedBy now).id ≠ j := by
      have hkey : job.id = id := Table.key_of_find hjob
      show job.id ≠ j
      rw [hkey]
      exact hj
    dsimp only
    repeat' split
    all_goals first
      | rfl
      | exact (exec_card j _ s).trans (by rw [claimOps_card, if_neg hid])

theorem selectOne_scanned (out : Selected) (hqueued : (cardOf s j).queued queue = true) :
    Scanned queue now (cardOf s j) (cardOf (selectOne queue now ns s out j).2 j) := by
  unfold selectOne
  cases hjob : loadJob s j with
  | none =>
    have hcard : cardOf (s.exec [.zrem (.pending queue) j]) j =
        { cardOf s j with queued := fun q => q ≠ queue && (cardOf s j).queued q } := by
      refine (exec_card j _ s).trans ?_
      simp [apply, zrem]
    rw [hcard]
    exact .pruned hjob
  | some job =>
    dsimp only
    split
    · exact .same
    next hworth =>
    split
    · exact .same
    split
    · next hfree =>
      split
      · have hkey : job.id = j := Table.key_of_find hjob
        have hstatus : job.status = .pending := by
          simp only [Bool.not_eq_true, Bool.not_eq_false', worthDecoding, claimable,
            Bool.and_eq_true, decide_eq_true_eq] at hworth
          exact hworth.1.1.1
        have hcard : cardOf (s.exec (claimOps queue (job.startedBy now))) j =
            (cardOf s j).started (job.startedBy now) queue := by
          rw [exec_card, claimOps_card, if_pos (show (job.startedBy now).id = j from hkey)]
        rw [hcard]
        exact .started hjob hstatus (Bool.and_eq_true_iff.mp hfree).2 hqueued
      · exact .same
    · exact .same

theorem selectAndClaim_other : ∀ {ids : List String} {s : Store} {out : Selected}, j ∉ ids →
    cardOf (selectAndClaim queue now ns max s out ids).2 j = cardOf s j
  | [], _, _, _ => rfl
  | id :: ids, s, out, hj => by
    rw [mem_cons, not_or] at hj
    rw [selectAndClaim]
    split
    · rfl
    · exact (selectAndClaim_other hj.2).trans (selectOne_other out (Ne.symm hj.1))

theorem selectAndClaim_scanned : ∀ {ids : List String} {s : Store} {out : Selected}, ids.Nodup →
    (∀ id ∈ ids, (cardOf s id).queued queue = true) →
    Scanned queue now (cardOf s j) (cardOf (selectAndClaim queue now ns max s out ids).2 j)
  | [], _, _, _, _ => .same
  | id :: ids, s, out, hnodup, hqueued => by
    obtain ⟨hid, hnodup⟩ := nodup_cons.mp hnodup
    rw [selectAndClaim]
    split
    · exact .same
    by_cases hj : id = j
    · subst hj
      rw [selectAndClaim_other hid]
      exact selectOne_scanned out (hqueued id mem_cons_self)
    · have hsame : cardOf (selectOne queue now ns s out id).2 j = cardOf s j :=
        selectOne_other out hj
      rw [← hsame]
      refine selectAndClaim_scanned hnodup fun id' hid' => ?_
      have hne : id ≠ id' := by
        rintro rfl
        exact hid hid'
      rw [selectOne_other out hne]
      exact hqueued id' (mem_cons_of_mem _ hid')

theorem window_spec (s : Store) (queue : String) (max : Nat) :
    (window s queue max).Nodup ∧ ∀ id ∈ window s queue max, (cardOf s id).queued queue = true := by
  refine ⟨(SortedSets.nodup_zrange s.zsets (.pending queue)).sublist (take_sublist _ _), ?_⟩
  intro id hid
  obtain ⟨r, hr, rfl⟩ := mem_map.mp (mem_of_mem_take hid)
  show (s.zsets.zscore (.pending queue) r.member).isSome = true
  rw [(SortedSets.mem_zrange_iff.mp hr).2]
  rfl

theorem selectAndClaim_card (queue : String) (now : Int) (ns : Scope) (max : Nat) :
    Scanned queue now (cardOf s j) (cardOf (perform (.selectAndClaim queue now ns max) s).2 j) :=
  selectAndClaim_scanned (window_spec s queue max).1 (window_spec s queue max).2

/-! ## The fence -/

def Card.asserted (card : Card) (clock : Int) (j owner : String) (now : Int)
    (epoch : Option Int) : Card :=
  match card.claim with
  | some _ => card
  | none =>
    { card with claim := some ⟨j, claimValue owner now epoch, clock + claimTtlMs⟩ }

/-- What the fence lets through: the job runs at the writer's attempt, and
the claim on record, if there is one, is the writer's and does not contradict
its epoch. -/
structure Passes (card : Card) (owner : String) (attempt : Int) (epoch : Option Int) : Prop where
  running : ∃ job, card.doc = some job ∧ job.status = .running ∧ job.retryCount = attempt
  owner : ∀ claim ∈ card.claim, claimOwner claim.value = owner.toList
  epoch : ∀ claim ∈ card.claim, ∀ e ∈ claimEpoch claim.value,
    epochArg epoch = [] ∨ e = epochArg epoch

theorem fence_card {jobId owner : String} {attempt now : Int} {epoch : Option Int}
    {scope : Scope} {jobNs : String}
    (h : fence s jobId owner attempt epoch scope true now = some (jobNs, s')) :
    Passes (cardOf s jobId) owner attempt epoch ∧ s'.clock = s.clock ∧
      ∀ j, cardOf s' j =
        if jobId = j then (cardOf s j).asserted s.clock j owner now epoch else cardOf s j := by
  unfold fence at h
  cases hjob : s.jobs.find jobId with
  | none =>
    rw [hjob] at h
    cases h
  | some job =>
    rw [hjob] at h
    dsimp only at h
    split at h
    · cases h
    next hguard =>
    simp only [ne_eq, Bool.or_eq_true, decide_eq_true_eq, not_or, not_not] at hguard
    have hrunning : ∃ row, (cardOf s jobId).doc = some row ∧ row.status = .running ∧
        row.retryCount = attempt := ⟨job, hjob, hguard.1.1, hguard.1.2⟩
    cases hclaim : s.claims.find jobId with
    | some claim =>
      have hcard : (cardOf s jobId).claim = some claim := hclaim
      rw [hclaim] at h
      dsimp only at h
      split at h
      · cases h
      next howner =>
      split at h
      · cases h
      next hepoch =>
      cases h
      refine ⟨⟨hrunning, ?_, ?_⟩, rfl, ?_⟩
      · intro c hc
        rw [hcard] at hc
        cases hc
        exact not_not.mp howner
      · intro c hc e he
        rw [hcard] at hc
        cases hc
        rw [he] at hepoch
        simp only [ne_eq, Option.any_some, Bool.and_eq_true, decide_eq_true_eq, not_and,
          not_not] at hepoch
        by_cases harg : epochArg epoch = []
        · exact Or.inl harg
        · exact Or.inr (by simpa using hepoch (by simpa using harg))
      · intro j
        split
        · next hj =>
          subst hj
          rw [asserted, hcard]
        · rfl
    | none =>
      have hcard : (cardOf s jobId).claim = none := hclaim
      rw [hclaim] at h
      simp only [if_true] at h
      cases h
      refine ⟨⟨hrunning, ?_, ?_⟩, exec_clock _ s, ?_⟩
      · intro c hc
        rw [hcard] at hc
        cases hc
      · intro c hc
        rw [hcard] at hc
        cases hc
      · intro j
        rw [exec_card]
        split
        · next hj =>
          subst hj
          simp [apply, zadd, asserted, hcard]
        · next hj => simp [apply, zadd, hj]

theorem stepHash_jobId (s : Store) (jobId : String) : (stepHash s jobId).jobId = jobId := by
  unfold stepHash
  cases h : s.steps.find jobId with
  | none => rfl
  | some hash => exact Table.key_of_find h

def Card.withSteps (card : Card) (clock : Int) (hash : StepHash) : Card :=
  { card with steps := if hash.expiresAt ≤ clock then none else some hash }

theorem setSteps_card (hash : StepHash) : cardOf (s.exec [.setSteps hash]) j =
      if hash.jobId = j then (cardOf s j).withSteps s.clock hash else cardOf s j :=
  exec_card j _ s

/-- The sleep script either stops before it writes anything but the claim, or
writes the hash with the sleep's row in it and sends the job back. -/
theorem sleepScript_spec (step : NewJobStep) (owner : String) (attempt : Int) (epoch : Option Int)
    (limits : StepLimits) (scope : Scope) (read : Job) (stored : Bool)
    (deadline now : Int) :
    sleepScript s step owner attempt epoch limits scope read stored deadline now = (.claimLost, s) ∨
      ∃ jobNs s₁, fence s step.jobId owner attempt epoch scope true now = some (jobNs, s₁) ∧
        ((∃ reply, sleepRow (stepHash s₁ step.jobId) step jobNs limits stored deadline now =
              .error reply ∧
            sleepScript s step owner attempt epoch limits scope read stored deadline now =
              (reply, s₁)) ∨
          ∃ hash, sleepRow (stepHash s₁ step.jobId) step jobNs limits stored deadline now =
              .ok hash ∧
            sleepScript s step owner attempt epoch limits scope read stored deadline now =
              (.ok, s₁.exec (.setSteps (hash.refreshed now) :: suspendOps read deadline))) := by
  unfold sleepScript
  cases hfence : fence s step.jobId owner attempt epoch scope true now with
  | none => exact Or.inl rfl
  | some r =>
    obtain ⟨jobNs, s₁⟩ := r
    refine Or.inr ⟨jobNs, s₁, rfl, ?_⟩
    dsimp only
    cases hrow : sleepRow (stepHash s₁ step.jobId) step jobNs limits stored deadline now with
    | error reply => exact Or.inl ⟨reply, rfl, rfl⟩
    | ok hash => exact Or.inr ⟨hash, rfl, rfl⟩

theorem sleepRow_jobId {hash hash' : StepHash} {step : NewJobStep} {jobNs : String}
    {limits : StepLimits} {stored : Bool} {deadline now : Int}
    (h : sleepRow hash step jobNs limits stored deadline now = .ok hash') :
    hash'.jobId = hash.jobId := by
  unfold sleepRow at h
  repeat' split at h
  all_goals cases h <;> rfl

theorem sleep_card {step : NewJobStep} {hash : StepHash} (hhash : hash.jobId = step.jobId)
    (read : Job) (deadline : Int) (hread : read.id = step.jobId) :
    cardOf (s.exec (.setSteps hash :: suspendOps read deadline)) j =
      if step.jobId = j then
        ((cardOf s j).withSteps s.clock hash).returned (read.pendingAt deadline) read.status
      else cardOf s j := by
  rw [exec_card, run_cons, suspendOps_card, hread]
  by_cases hj : step.jobId = j
  · rw [if_pos hj, if_pos hj, apply, hhash, if_pos hj]
    rfl
  · rw [if_neg hj, if_neg hj, apply, hhash, if_neg hj]

/-! ## Steps, claims and markers -/

/-- The commit script either changes nothing but the claim, or writes the
hash with the new row. -/
theorem recordStepScript_spec (step : NewJobStep) (owner : String) (attempt : Int)
    (epoch : Option Int) (limits : StepLimits) (scope : Scope) (now : Int) :
    recordStepScript s step owner attempt epoch limits scope now = (.claimLost, s) ∨
      ∃ jobNs s₁, fence s step.jobId owner attempt epoch scope true now = some (jobNs, s₁) ∧
        recordStepScript s step owner attempt epoch limits scope now =
          recordStep s₁ step jobNs limits now := by
  unfold recordStepScript
  cases hfence : fence s step.jobId owner attempt epoch scope true now with
  | none => exact Or.inl rfl
  | some r =>
    obtain ⟨jobNs, s₁⟩ := r
    exact Or.inr ⟨jobNs, s₁, rfl, rfl⟩

/-- `record_step_script` behind the fence: it refuses, or adds one row at a
free position. -/
theorem recordStep_spec (step : NewJobStep) (jobNs : String) (limits : StepLimits) (now : Int) :
    ((recordStep s step jobNs limits now).2 = s ∧ (recordStep s step jobNs limits now).1 ≠ .ok) ∨
      ∃ hash : StepHash, (stepHash s step.jobId).row step.seq = none ∧
        hash = { ((stepHash s step.jobId).add ⟨step.seq, now, encodeDoc step none⟩ jobNs) with
          total := some ((stepHash s step.jobId).total.getD 0 + (step.result.getD []).length) } ∧
        recordStep s step jobNs limits now =
          (.ok, s.exec [.setSteps (hash.refreshed now)]) := by
  unfold recordStep
  dsimp only
  split
  · repeat' split
    all_goals exact Or.inl ⟨rfl, by simp⟩
  · next hfree =>
    cases hcheck : checkNewRow (stepHash s step.jobId) step limits.maxSteps with
    | some reply =>
      refine Or.inl ⟨rfl, ?_⟩
      rintro rfl
      unfold checkNewRow at hcheck
      repeat' split at hcheck
      all_goals cases hcheck
    | none =>
      dsimp only
      split
      · exact Or.inl ⟨rfl, by simp⟩
      · exact Or.inr ⟨_, hfree, rfl, rfl⟩

theorem setClaimNx_card (jobId : String) (value : List Char) :
    cardOf (setClaimNx s jobId value).2 j =
      if jobId = j ∧ (cardOf s j).claim = none then
        { cardOf s j with claim := some ⟨j, value, s.clock + claimTtlMs⟩ }
      else cardOf s j := by
  unfold setClaimNx
  cases hclaim : s.claims.find jobId with
  | some claim =>
    rw [if_neg]
    rintro ⟨rfl, hnone⟩
    rw [show (cardOf s jobId).claim = some claim from hclaim] at hnone
    cases hnone
  | none =>
    refine (exec_card j _ s).trans ?_
    by_cases hj : jobId = j
    · subst hj
      rw [if_pos ⟨rfl, hclaim⟩]
      simp [apply]
    · rw [if_neg fun h => hj h.1]
      simp [apply, hj]

theorem reclaimExecution_card (jobId expected owner : String) (now epoch : Int) :
    cardOf (reclaimExecution s jobId expected owner now epoch).2 j = cardOf s j ∨
      (jobId = j ∧ (cardOf s j).claim.isSome = true ∧
        cardOf (reclaimExecution s jobId expected owner now epoch).2 j =
          { cardOf s j with
            claim := some ⟨j, claimValue owner now (some epoch), s.clock + claimTtlMs⟩ }) := by
  unfold reclaimExecution
  cases hclaim : s.claims.find jobId with
  | none => exact Or.inl rfl
  | some claim =>
    dsimp only
    split
    · exact Or.inl rfl
    · by_cases hj : jobId = j
      · subst hj
        refine Or.inr ⟨rfl, ?_, ?_⟩
        · rw [show (cardOf s jobId).claim = some claim from hclaim]
          rfl
        · refine (exec_card jobId _ s).trans ?_
          simp [apply, zadd]
      · refine Or.inl ((exec_card j _ s).trans ?_)
        simp [apply, zadd, hj]

theorem awaitSettle_card (jobId owner : String) (attempt : Int) (epoch : Option Int)
    (deadlineMs : Int) (scope : Scope) (now : Int) :
    (fence s jobId owner attempt epoch scope true now = none ∧
      awaitSettle s jobId owner attempt epoch deadlineMs scope now = (none, s)) ∨
      ((fence s jobId owner attempt epoch scope true now).isSome = true ∧
        Passes (cardOf s jobId) owner attempt epoch ∧
        (awaitSettle s jobId owner attempt epoch deadlineMs scope now).1 =
          parseI64 (settleDeadline (cardOf s jobId).marker deadlineMs) ∧
        ∀ j, cardOf (awaitSettle s jobId owner attempt epoch deadlineMs scope now).2 j =
          if jobId = j then
            { (cardOf s j).asserted s.clock j owner now epoch with
              marker := some ⟨j, settleDeadline (cardOf s j).marker deadlineMs,
                s.clock + claimTtlMs⟩ }
          else cardOf s j) := by
  unfold awaitSettle
  cases hfence : fence s jobId owner attempt epoch scope true now with
  | none => exact Or.inl ⟨rfl, rfl⟩
  | some r =>
    obtain ⟨jobNs, s₁⟩ := r
    obtain ⟨hpasses, hclock, hcard⟩ := fence_card hfence
    have hmarker : s₁.markers.find jobId = (cardOf s jobId).marker := by
      have hown := hcard jobId
      rw [if_pos rfl] at hown
      have hsame := congrArg marker hown
      rw [show (cardOf s₁ jobId).marker = s₁.markers.find jobId from rfl] at hsame
      rw [hsame]
      unfold asserted
      split <;> rfl
    refine Or.inr ⟨rfl, hpasses, ?_, fun j => ?_⟩
    · dsimp only
      rw [hmarker]
      rfl
    · refine (exec_card j _ s₁).trans ?_
      rw [hcard j, hclock, hmarker]
      by_cases hj : jobId = j
      · subst hj
        simp only [run_cons, run_nil, apply, if_true]
        rfl
      · simp [apply, hj]

/-- `claim_settle` is refused and changes nothing, or is granted to somebody
entitled to the marker, and takes it off. -/
theorem claimSettle_card (jobId : String) (claimant : SettleClaimant) (scope : Scope) :
    claimSettle s jobId claimant scope = (false, s) ∨
      ∃ marker, (cardOf s jobId).marker = some marker ∧
        settleEntitled s jobId marker claimant = true ∧
        (claimSettle s jobId claimant scope).1 = true ∧
        ∀ j, cardOf (claimSettle s jobId claimant scope).2 j =
          if jobId = j then { cardOf s j with marker := none } else cardOf s j := by
  unfold claimSettle
  cases hmarker : s.markers.find jobId with
  | none => exact Or.inl rfl
  | some marker =>
    dsimp only
    split
    · exact Or.inl rfl
    split
    · next hentitled =>
      refine Or.inr ⟨marker, hmarker, hentitled, rfl, fun j => ?_⟩
      refine (exec_card j _ s).trans ?_
      by_cases hj : jobId = j <;> simp [apply, hj]
    · exact Or.inl rfl

/-! ## Inserts, slides and sheds -/

theorem uniqueStore_card (job : Job) (dependsOn : List String) (key : String) :
    cardOf (uniqueStore s job dependsOn key).2 j = cardOf s j ∨
      (job.id = j ∧ (uniqueStore s job dependsOn key).1 = none ∧
        cardOf (uniqueStore s job dependsOn key).2 j = (cardOf s j).inserted job dependsOn) := by
  have hcheck := uniqueCheck_card (s := s) (j := j) job.namespace key
  unfold uniqueStore
  cases hrun : uniqueCheck s job.namespace key with
  | mk found s₁ =>
    rw [hrun] at hcheck
    cases found with
    | some existing => exact Or.inl hcheck
    | none =>
      have hcard : cardOf (s₁.exec (insertOps job dependsOn ++
          [.setUnique ⟨job.namespace, key, job.id⟩])) j =
          if job.id = j then (cardOf s j).inserted job dependsOn else cardOf s j := by
        rw [exec_card, run_append, insertOps_card, hcheck]
        rfl
      split at hcard
      · next hj => exact Or.inr ⟨hj, rfl, hcard⟩
      · exact Or.inl hcard

theorem debounceInsert_card (key : String) (job : Job) (dependsOn : List String)
    (maxPending : Option Int) :
    cardOf (debounceInsert s key job dependsOn maxPending).2 j = cardOf s j ∨
      (job.id = j ∧ (debounceInsert s key job dependsOn maxPending).1 = .opened ∧
        cardOf (debounceInsert s key job dependsOn maxPending).2 j =
          (cardOf s j).inserted job dependsOn) := by
  have hscan := resolveDebounceTarget_card (s := s) (j := j) job.namespace key
  unfold debounceInsert
  cases hrun : resolveDebounceTarget s (.debounce job.namespace key) with
  | mk found s₁ =>
    rw [hrun] at hscan
    cases found with
    | some target => exact Or.inl hscan
    | none =>
      dsimp only
      split
      · exact Or.inl hscan
      · have hcard : cardOf (s₁.exec (insertOps job dependsOn)) j =
            if job.id = j then (cardOf s j).inserted job dependsOn else cardOf s j := by
          rw [exec_card, insertOps_card, hscan]
        split at hcard
        · next hj => exact Or.inr ⟨hj, rfl, hcard⟩
        · exact Or.inl hcard

theorem debounceSlide_card (target slid : Job) (hid : slid.id = target.id) :
    cardOf (debounceSlide s target slid).2 j = cardOf s j ∨
      (target.id = j ∧ (cardOf s j).doc = some target ∧ (cardOf s j).claim = none ∧
        cardOf (debounceSlide s target slid).2 j =
          { cardOf s j with
            doc := some slid
            queued := fun q => q = slid.queue || (cardOf s j).queued q }) := by
  unfold debounceSlide
  split
  · next hsame =>
    by_cases hj : target.id = j
    · subst hj
      refine Or.inr ⟨rfl, hsame.1, hsame.2, (exec_card _ _ s).trans ?_⟩
      simp [apply, zadd, hid]
    · refine Or.inl ((exec_card j _ s).trans ?_)
      simp [apply, zadd, hid, hj]
  · exact Or.inl rfl

/-- What a shed makes of a card: nothing, or a job that was never live is in
the archive. -/
theorem shed_card (now : Int) : ∀ (jobs : List (Job × DeadJobEntry × String)) (s : Store),
    cardOf (s.exec (jobs.flatMap fun (job, entry, error) =>
        deadLetterOps job entry error .pending now)) j = cardOf s j ∨
      (j ∈ jobs.map (fun e => e.1.id) ∧ ∃ (card : Card) (job : Job),
        card.marker = (cardOf s j).marker ∧
        card.waitsFor = (cardOf s j).waitsFor ∧ job.status = .dead ∧ job.id = j ∧
        cardOf (s.exec (jobs.flatMap fun (job, entry, error) =>
          deadLetterOps job entry error .pending now)) j = card.shelved job .pending)
  | [], s => Or.inl rfl
  | (job, entry, error) :: jobs, s => by
    rw [flatMap_cons, show ∀ a b, s.exec (a ++ b) = (s.exec a).exec b from
      fun a b => foldl_append]
    have hone := deadLetterOps_card (s := s) (j := j) job entry error .pending now
    rcases shed_card now jobs (s.exec (deadLetterOps job entry error .pending now)) with
      hsame | ⟨hmem, card, dead, hmarker, hwaits, hdead, hid, heq⟩
    · rw [hsame, hone]
      split
      · next hj =>
        exact Or.inr ⟨by simp [hj], cardOf s j, job.finish .dead now (some error), rfl, rfl, rfl,
          hj, rfl⟩
      · exact Or.inl rfl
    · refine Or.inr ⟨mem_cons_of_mem _ hmem, card, dead, ?_, ?_, hdead, hid, heq⟩
      · rw [hmarker, hone]
        split <;> rfl
      · rw [hwaits, hone]
        split <;> rfl

end Touch

end FlexiQ.Redis
