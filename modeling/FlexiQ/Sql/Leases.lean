/-
# `Sql.Leases` — who holds a job, along a history

Every act of a history is held against the leases of the jobs: the row of
`execution_claims` is the claim, its `settle_deadline_ms` the marker, and the
status and the attempt of the row in `jobs` the stage.

Most acts write no claim at all.  `Releases` is all they can do to one: leave
it alone, or delete it — and an act that ends a job's attempt does delete it.
Five acts write a claim, and each is described on its own.
-/
import FlexiQ.Lib.Lease
import FlexiQ.Sql.Histories

namespace FlexiQ.Sql

open FlexiQ.Lib FlexiQ.Step Table

variable {id : String} {job : Job} {scope : Scope} {serde : Serde} {now : Int}

def stageOf (row : Job) : Bool × Int := (decide (row.status = .running), row.retryCount)

def leaseOf (s : Store) (j : String) : Lease where
  stage := (s.jobs.find j).map stageOf
  claim := (s.claims.find j).map ClaimRow.epoch
  marker := (s.claims.find j).bind ClaimRow.settleDeadlineMs

/-- A claimant of the settle of a lease: there is a marker, and the claimant
names the epoch on the claim, or comes at or after the deadline, or gives
up. -/
def SettleClaimant.Rightful (claimant : SettleClaimant) (a : Lease) : Prop :=
  ∃ deadline, a.marker = some deadline ∧
    match claimant with
    | .lease epoch => a.claim = some (some epoch)
    | .expired now => deadline ≤ now
    | .abandoned => True

/-! ## Acts that write no claim -/

def Releases (s s' : Store) : Prop :=
  ∀ j, s'.claims.find j = none ∨
    (s'.claims.find j = s.claims.find j ∧ ¬ (leaseOf s j).Ends (leaseOf s' j))

theorem not_ends_of_jobs {s s' : Store} {j : String} (h : s'.jobs.find j = s.jobs.find j) :
    ¬ (leaseOf s j).Ends (leaseOf s' j) := by
  rintro ⟨-, hne, -⟩
  exact hne (congrArg (Option.map stageOf) h)

namespace Releases

variable {s s₁ s' : Store}

theorem refl (s : Store) : Releases s s := fun _ => Or.inr ⟨rfl, not_ends_of_jobs rfl⟩

theorem trans (h₁ : Releases s s₁) (h₂ : Releases s₁ s') : Releases s s' := by
  intro j
  rcases h₂ j with hnone | ⟨hsame₂, hends₂⟩
  · exact Or.inl hnone
  rcases h₁ j with hnone | ⟨hsame₁, hends₁⟩
  · exact Or.inl (hsame₂.trans hnone)
  refine Or.inr ⟨hsame₂.trans hsame₁, ?_⟩
  -- The attempt did not end in two steps either.
  rintro ⟨hsome, hne, hidle⟩
  by_cases hmid : (leaseOf s₁ j).stage = (leaseOf s j).stage
  · exact hends₂ ⟨hmid ▸ hsome, hmid ▸ hne, hidle⟩
  by_cases hbusy : (leaseOf s₁ j).stage.all (fun st => !st.1) = true
  · exact hends₁ ⟨hsome, hmid, hbusy⟩
  · refine hends₂ ⟨?_, ?_, hidle⟩
    · cases hst : (leaseOf s₁ j).stage with
      | none => simp [hst] at hbusy
      | some => rfl
    · intro heq
      rw [heq] at hidle
      exact hbusy hidle

theorem of_same (hjobs : s'.jobs = s.jobs) (hclaims : s'.claims = s.claims) : Releases s s' := by
  intro j
  exact Or.inr ⟨by rw [hclaims], not_ends_of_jobs (by rw [hjobs])⟩

theorem of_claims_delete (s : Store) (p : ClaimRow → Bool) :
    Releases s { s with claims := s.claims.delete p } := by
  intro j
  have hfind := find_delete s.claims p j
  cases hclaim : s.claims.find j with
  | none =>
    rw [hclaim] at hfind
    exact Or.inl hfind
  | some claim =>
    rw [hclaim] at hfind
    by_cases hp : p claim = true
    · left
      simpa [Option.filter, hp] using hfind
    · right
      refine ⟨?_, not_ends_of_jobs rfl⟩
      simpa [Option.filter, hp] using hfind

theorem of_archives {rows : List Job} (h : Archives s s' rows) : Releases s s' := by
  intro j
  by_cases hj : j ∈ rows.map Job.id
  · exact Or.inl (by rw [h.claims, if_pos hj])
  · exact Or.inr ⟨by rw [h.claims, if_neg hj], not_ends_of_jobs (by rw [h.jobs, if_neg hj])⟩

theorem of_revokes {row' : Job} (h : Rewrites s s' id row') (hr : Revokes s s' id) :
    Releases s s' := by
  intro j
  by_cases hj : j = id
  · exact Or.inl (by rw [hr, if_pos hj])
  · exact Or.inr ⟨by rw [hr, if_neg hj], not_ends_of_jobs (by rw [h.jobs, if_neg hj])⟩

theorem of_rewrites {row row' : Job} (h : Rewrites s s' id row') (hclaims : s'.claims = s.claims)
    (hrow : s.jobs.find id = some row)
    (hstage : stageOf row' = stageOf row ∨ row'.status = .running) : Releases s s' := by
  intro j
  refine Or.inr ⟨by rw [hclaims], ?_⟩
  by_cases hj : j = id
  · subst hj
    have hrow' : s'.jobs.find j = some row' := by rw [h.jobs, if_pos rfl]
    rintro ⟨-, hne, hidle⟩
    simp only [leaseOf, hrow, hrow', Option.map_some] at hne hidle
    rcases hstage with hst | hrun
    · exact hne (congrArg some hst)
    · simp [stageOf, hrun] at hidle
  · exact not_ends_of_jobs (by rw [h.jobs, if_neg hj])

theorem of_insert (hnone : s.jobs.find job.id = none)
    (hjobs : ∀ k, s'.jobs.find k = if k = job.id then some job else s.jobs.find k)
    (hclaims : s'.claims = s.claims) : Releases s s' := by
  intro j
  refine Or.inr ⟨by rw [hclaims], ?_⟩
  by_cases hj : j = job.id
  · rintro ⟨hsome, -, -⟩
    rw [hj] at hsome
    simp [leaseOf, hnone] at hsome
  · exact not_ends_of_jobs (by rw [hjobs, if_neg hj])

end Releases

section Kinds

variable {s s' : Store}

theorem insertJobWithDeps_releases {dependsOn : List String}
    (h : insertJobWithDeps s job dependsOn = .ok s') : Releases s s' := by
  obtain ⟨hnone, hjobs, -, hclaims, -, -⟩ := insertJobWithDeps_ok h
  exact .of_insert hnone hjobs hclaims

theorem insertJob_releases (h : insertJob s job = .ok s') : Releases s s' := by
  obtain ⟨hnone, hjobs, -, hclaims, -, -⟩ := insertJob_ok h
  exact .of_insert hnone hjobs hclaims

theorem insertBatch_releases : ∀ {members : List (Job × List String)} {s s' : Store},
    insertBatch s members = .ok s' → Releases s s'
  | [], s, s', h => by
    cases h
    exact .refl s
  | (job, dependsOn) :: rest, s, s', h => by
    obtain ⟨s₁, h₁, h₂⟩ := bind_eq_ok.mp h
    exact (insertJobWithDeps_releases h₁).trans (insertBatch_releases h₂)

theorem enqueue_releases {new : NewJob} (h : enqueue s new id now = .ok (job, s')) :
    Releases s s' :=
  insertJobWithDeps_releases (enqueue_ok h).2.2

theorem enqueueUnique_releases {new : NewJob} {out : Job × Bool}
    (h : enqueueUnique s new id now = .ok (out, s')) : Releases s s' := by
  rcases enqueueUnique_ok h with rfl | ⟨job, henq⟩
  · exact .refl s'
  · exact enqueue_releases henq

theorem enqueueUniqueBatch_releases : ∀ {new : List Draft} {s s' : Store} {now : Int}
    {out : List (Job × Bool)}, enqueueUniqueBatch s now new = .ok (out, s') → Releases s s'
  | [], s, s', now, out, h => by
    cases h
    exact .refl s
  | (new, id) :: rest, s, s', now, out, h => by
    obtain ⟨⟨first, s₁⟩, h₁, h⟩ := bind_eq_ok.mp h
    obtain ⟨⟨others, s₂⟩, h₂, h⟩ := bind_eq_ok.mp h
    cases h
    exact (enqueueUnique_releases h₁).trans (enqueueUniqueBatch_releases h₂)

theorem enqueueDebounced_releases {new : NewJob} {options : DebounceOptions}
    (h : enqueueDebounced s new options id now = .ok (job, s')) : Releases s s' := by
  rcases enqueueDebounced_ok h with ⟨target, hlive, -, hclaims, hw⟩ | ⟨-, hins⟩
  -- The slid row stays pending.
  · exact .of_rewrites hw hclaims hlive (Or.inl rfl)
  · exact insertJobWithDeps_releases hins

theorem dequeue_releases {d : Dequeue} {out : Dequeued} (h : d.run s now = .ok (out, s')) :
    Releases s s' := by
  rcases Dequeue.run_ok h with ⟨-, rfl⟩ | ⟨max, hloop⟩
  · exact .refl s'
  · refine claimLoop_invariant (P := fun s₁ _ => Releases s s₁) ?_ ?_ (List.Subset.refl _) hloop
      (.refl s)
    · intro s₁ out row job s₂ hP _ _ _ harch
      obtain ⟨-, -, -, ha⟩ := archiveExpiredCandidate_ok harch
      exact hP.trans (.of_archives ha)
    · intro s₁ out row job s₂ hP _ _ _ hclaim
      rcases claimPending_spec s₁ row.id now with hsame | ⟨row₀, s₃, hsome, hrow₀, -, hw, hcl⟩
      · rw [hsame] at hclaim
        cases hclaim
      · rw [hsome] at hclaim
        cases hclaim
        exact hP.trans (.of_rewrites hw hcl hrow₀ (Or.inr rfl))

theorem complete_releases {result : Option Bytes} (h : complete s id result scope now = .ok s') :
    Releases s s' := by
  obtain ⟨row, -, -, ha⟩ := complete_ok h
  exact .of_archives ha

theorem completeBatch_releases : ∀ {completions : List (String × Option Bytes)} {s s' : Store}
    {scope : Scope} {now : Int}, completeBatch s scope now completions = .ok s' →
    Releases s s'
  | [], s, s', scope, now, h => by
    cases h
    exact .refl s
  | (id, result) :: rest, s, s', scope, now, h => by
    obtain ⟨s₁, h₁, h₂⟩ := bind_eq_ok.mp h
    exact (complete_releases h₁).trans (completeBatch_releases h₂)

theorem deadLetterIn_releases {error : String} {metadata : Option String} {shed : Bool}
    (h : deadLetterIn serde s job error metadata shed id now = .ok s') : Releases s s' := by
  obtain ⟨dead, -, ⟨row, -, ha⟩ | ⟨-, rfl⟩⟩ := deadLetterIn_ok h
  · have hdead : Releases s { s with dead := dead } := .of_same rfl rfl
    exact hdead.trans (.of_archives ha)
  · exact .of_same rfl rfl

theorem shedNewJobs_releases {metadata : Option String} :
    ∀ {jobs : List (Job × String × String)} {s s' : Store},
    shedNewJobs serde s metadata now jobs = .ok s' → Releases s s'
  | [], s, s', h => by
    cases h
    exact .refl s
  | (job, error, deadId) :: rest, s, s', h => by
    obtain ⟨s₁, h₁, h⟩ := bind_eq_ok.mp h
    obtain ⟨s₂, h₂, h⟩ := bind_eq_ok.mp h
    exact ((insertJob_releases h₁).trans (deadLetterIn_releases h₂)).trans
      (shedNewJobs_releases h)

theorem retryDead_releases {deadId newId : String}
    (h : retryDead serde s deadId scope newId now = .ok (job, s')) : Releases s s' := by
  obtain ⟨dead, s₁, -, -, -, hins, rfl⟩ := retryDead_ok h
  have hdead : Releases s₁ _ := .of_same rfl rfl
  exact (insertJob_releases hins).trans hdead

theorem sweep_releases {w : Sweep} {rows : List Job} (h : w.run s now = .ok (rows, s')) :
    Releases s s' := by
  cases w with
  | expire | byQueue _ | byTask _ => exact .of_archives (archivePending_ok h).1

end Kinds

def Act.writesClaim : Act → Bool
  | .recordStepResult .. | .claimExecution .. | .reclaimExecution .. | .awaitSettle ..
  | .claimSettle .. => true
  | _ => false

/-- `reschedule` leaves the claim where it is; its caller has none. -/
def Act.Orderly (s : Store) : Act → Prop
  | .reschedule id _ _ => s.claims.find id = none
  | _ => True

instance (s : Store) (a : Act) : Decidable (a.Orderly s) := by
  apply @Act.casesOn _ a <;> intros <;> unfold Act.Orderly <;> infer_instance

/-- **An act that writes no claim** at most releases some. -/
theorem call_releases {a : Act} {t t' : Timeline} (hplain : a.writesClaim = false)
    (horder : a.Orderly t.store) (h : t.call serde now a = .ok t') : Releases t.store t'.store := by
  cases a with
  | enqueue =>
    obtain ⟨⟨job, s'⟩, hrun, h⟩ := bind_eq_ok.mp h
    cases h
    exact enqueue_releases hrun
  | enqueueBatch =>
    obtain ⟨⟨jobs, s'⟩, hrun, h⟩ := bind_eq_ok.mp h
    cases h
    exact insertBatch_releases (enqueueBatch_ok hrun).1
  | enqueueUnique =>
    obtain ⟨⟨out, s'⟩, hrun, h⟩ := bind_eq_ok.mp h
    cases h
    exact enqueueUnique_releases hrun
  | enqueueUniqueBatch =>
    obtain ⟨⟨out, s'⟩, hrun, h⟩ := bind_eq_ok.mp h
    cases h
    exact enqueueUniqueBatch_releases hrun
  | enqueueDebounced =>
    obtain ⟨⟨job, s'⟩, hrun, h⟩ := bind_eq_ok.mp h
    cases h
    exact enqueueDebounced_releases hrun
  | dequeue =>
    obtain ⟨⟨out, s'⟩, hrun, h⟩ := bind_eq_ok.mp h
    cases h
    exact dequeue_releases hrun
  | complete =>
    obtain ⟨s', hrun, h⟩ := bind_eq_ok.mp h
    cases h
    exact complete_releases hrun
  | completeBatch =>
    obtain ⟨s', hrun, h⟩ := bind_eq_ok.mp h
    cases h
    exact completeBatch_releases hrun
  | fail =>
    obtain ⟨s', hrun, h⟩ := bind_eq_ok.mp h
    cases h
    obtain ⟨row, -, -, ha⟩ := fail_ok hrun
    exact .of_archives ha
  | markCancelled =>
    obtain ⟨s', hrun, h⟩ := bind_eq_ok.mp h
    cases h
    rcases markCancelled_ok hrun with rfl | ⟨row, -, -, ha⟩
    · exact .refl _
    · exact .of_archives ha
  | cancelJob =>
    obtain ⟨⟨cancelled, s'⟩, hrun, h⟩ := bind_eq_ok.mp h
    cases h
    rcases cancelJobRow_ok hrun with ⟨rfl, rfl⟩ | ⟨rfl, row, -, -, -, ha⟩
    · exact .refl _
    · exact .of_archives ha
  | deadLetter =>
    obtain ⟨s', hrun, h⟩ := bind_eq_ok.mp h
    cases h
    exact deadLetterIn_releases hrun
  | shedNewJobs =>
    obtain ⟨s', hrun, h⟩ := bind_eq_ok.mp h
    cases h
    exact shedNewJobs_releases hrun
  | retryDead =>
    obtain ⟨⟨job, s'⟩, hrun, h⟩ := bind_eq_ok.mp h
    cases h
    exact retryDead_releases hrun
  | sweep =>
    obtain ⟨⟨rows, s'⟩, hrun, h⟩ := bind_eq_ok.mp h
    cases h
    exact sweep_releases hrun
  | cascadeRead =>
    simp only [Timeline.call] at h
    split at h <;> cases h <;> exact .refl _
  | cascadeWrite =>
    simp only [Timeline.call] at h
    split at h
    · split at h
      · cases h
        exact .refl _
      split at h
      · cases h
        exact .refl _
      split at h
      · next hrun =>
        cases h
        exact .of_archives (cascadeArchive_ok hrun).1
      · cases h
        exact .refl _
    · cases h
      exact .refl _
  | purge =>
    cases h
    rw [Purge.run_eq]
    exact .of_same rfl rfl
  | retry =>
    obtain ⟨s', hrun, h⟩ := bind_eq_ok.mp h
    cases h
    obtain ⟨row, -, -, hw, hr⟩ := retry_ok hrun
    exact .of_revokes hw hr
  | reschedule id =>
    obtain ⟨s', hrun, h⟩ := bind_eq_ok.mp h
    cases h
    obtain ⟨row, -, -, hw, hclaims⟩ := reschedule_ok hrun
    refine .of_revokes hw fun k => ?_
    rw [hclaims]
    by_cases hk : k = id
    · rw [if_pos hk, hk]
      exact horder
    · rw [if_neg hk]
  | requeueStuck id =>
    cases h
    rcases requeueStuck_spec t.store id now with heq | ⟨row, s', heq, -, -, hw, hr⟩
    · rw [heq]
      exact .refl _
    · rw [heq]
      exact .of_revokes hw hr
  | requestCancel =>
    cases h
    simp only [requestCancel]
    split
    · next row hrow =>
      split
      · exact .of_rewrites (rewrites_update _ t.store.claims hrow) rfl hrow (Or.inl rfl)
      · exact .refl _
    · exact .refl _
  | sleepJob =>
    obtain ⟨⟨outcome, s'⟩, hrun, h⟩ := bind_eq_ok.mp h
    cases h
    obtain ⟨row, at', -, -, -, hw, hr⟩ := sleepJob_ok hrun
    exact .of_revokes hw hr
  | completeExecution =>
    cases h
    simp only [completeExecution]
    split
    · exact .refl _
    · exact .of_claims_delete _ _
  | purgeExecutionClaims =>
    cases h
    exact .of_claims_delete _ _
  | deleteDead =>
    cases h
    simp only [deleteDead]
    repeat' split
    all_goals exact .of_same rfl rfl
  | purgeDead =>
    cases h
    exact .of_same rfl rfl
  | recordStepResult | claimExecution | reclaimExecution | awaitSettle | claimSettle => cases hplain

/-! ## Acts that write a claim -/

/-- The claim a writer behind the fence holds: the one on record, which is
its own and does not contradict its epoch, or the one it just put back. -/
def Holds (s : Store) (jobId owner : String) (epoch : Option Int) (now : Int)
    (claim : ClaimRow) : Prop :=
  (s.claims.find jobId = some claim ∧ claim.workerId = owner ∧
      epochsAgree claim.epoch epoch = true) ∨
    (s.claims.find jobId = none ∧ claim = ⟨jobId, owner, now, epoch, none⟩)

/-- Behind the fence the job runs at the writer's attempt, and the writer
holds the claim. -/
theorem fence_holds {s s' : Store} {jobId owner : String} {attempt : Int} {epoch : Option Int}
    {ns : Scope}
    (h : resolveAttemptFence s jobId owner attempt epoch scope true now = .ok (ns, s')) :
    (leaseOf s jobId).stage = some (true, attempt) ∧
      ∃ claim, Holds s jobId owner epoch now claim ∧ s'.claims.find jobId = some claim := by
  obtain ⟨⟨job, hjob, -, hrun, hatt⟩, -⟩ := resolveAttemptFence_ok h
  refine ⟨by simp [leaseOf, hjob, stageOf, hrun, hatt], ?_⟩
  unfold resolveAttemptFence at h
  simp only [hjob] at h
  split at h
  · cases h
  cases hclaim : s.claims.find jobId with
  | some claim =>
    simp only [hclaim] at h
    split at h
    · next howner =>
      split at h
      · next hagree =>
        cases h
        exact ⟨claim, Or.inl ⟨hclaim, howner, hagree⟩, hclaim⟩
      · cases h
    · cases h
  | none =>
    simp only [hclaim, if_true] at h
    split at h
    · next claims hins =>
      cases h
      refine ⟨_, Or.inr ⟨hclaim, rfl⟩, ?_⟩
      exact (find_insert hins jobId).trans (if_pos rfl)
    · cases h

/-- What an act presents to the fence: the job, the attempt and the epoch. -/
def Act.presents : Act → Option (String × Int × Option Int)
  | .recordStepResult step _ attempt epoch _ _ => some (step.jobId, attempt, epoch)
  | .sleepJob step _ attempt epoch _ _ _ => some (step.jobId, attempt, epoch)
  | .awaitSettle id _ attempt epoch _ _ => some (id, attempt, epoch)
  | _ => none

/-- The epochs an act mints, with the job each is for. -/
def Act.epochs : Act → List (String × Int)
  | .claimExecution id _ epoch => [(id, epoch)]
  | .reclaimExecution id _ _ epoch => [(id, epoch)]
  | _ => []

/-- What an act answers about the settle of a job. -/
def Act.note (s : Store) (now : Int) (a : Act) (j : String) : Note :=
  match a with
  | .awaitSettle id owner attempt epoch deadlineMs scope =>
    match Sql.awaitSettle s id owner attempt epoch deadlineMs scope now with
    | .ok (some _, _) => if j = id then .promised else .quiet
    | _ => .quiet
  | .claimSettle id claimant scope =>
    if (Sql.claimSettle s id claimant scope).1 = true ∧ j = id then .settled else .quiet
  | _ => .quiet

/-- What an act can make of the claim of job `j`, and what it answers. -/
inductive Writes (s : Store) (now : Int) (a : Act) (j : String) : Option ClaimRow → Note → Prop
  | keeps : Writes s now a j (s.claims.find j) .quiet
  | claims {worker : String} {epoch : Int} (hact : a = .claimExecution j worker epoch)
      (hfree : s.claims.find j = none) :
      Writes s now a j (some ⟨j, worker, now, some epoch, none⟩) .quiet
  | reclaims {claim : ClaimRow} {expected owner : String} {epoch : Int}
      (hact : a = .reclaimExecution j expected owner epoch)
      (hclaim : s.claims.find j = some claim) :
      Writes s now a j
        (some { claim with workerId := owner, claimedAt := now, epoch := some epoch }) .quiet
  | holds {claim : ClaimRow} {owner : String} {attempt : Int} {epoch : Option Int}
      (hpresents : a.presents = some (j, attempt, epoch))
      (hstage : (leaseOf s j).stage = some (true, attempt))
      (hholds : Holds s j owner epoch now claim) : Writes s now a j (some claim) .quiet
  | awaits {claim : ClaimRow} {owner : String} {attempt deadline : Int} {epoch : Option Int}
      (hpresents : a.presents = some (j, attempt, epoch))
      (hstage : (leaseOf s j).stage = some (true, attempt))
      (hholds : Holds s j owner epoch now claim)
      (hlater : ∀ d ∈ claim.settleDeadlineMs, d ≤ deadline) :
      Writes s now a j (some { claim with settleDeadlineMs := some deadline }) .promised
  | settles {claim : ClaimRow} {claimant : SettleClaimant}
      (hclaim : s.claims.find j = some claim) (hentitled : claimant.entitled claim = true) :
      Writes s now a j (some { claim with settleDeadlineMs := none }) .settled

section Writing

variable {s : Store}

theorem claimExecution_writes (id worker : String) (epoch : Int) (j : String) :
    Writes s now (.claimExecution id worker epoch) j
      ((claimExecution s id worker now epoch).2.claims.find j) .quiet := by
  unfold claimExecution
  split
  · next claims hins =>
    have hfree : s.claims.find id = none := (insert_eq_some hins).1
    rw [show _ = claims.find j from rfl, find_insert hins]
    split
    · next hj =>
      obtain rfl : id = j := hj
      exact .claims rfl hfree
    · exact .keeps
  · exact .keeps

theorem reclaimExecution_writes (id expected owner : String) (epoch : Int) (j : String) :
    Writes s now (.reclaimExecution id expected owner epoch) j
      ((reclaimExecution s id expected owner now epoch).2.claims.find j) .quiet := by
  unfold reclaimExecution
  cases hclaim : s.claims.find id with
  | none => exact .keeps
  | some =>
    dsimp only
    split
    · have hfind := find_update_key s.claims id j (fun c =>
        { c with workerId := owner, claimedAt := now, epoch := some epoch }) (fun _ => rfl)
      by_cases hj : j = id
      · subst hj
        rw [if_pos rfl, hclaim, Option.map_some] at hfind
        rw [hfind]
        exact .reclaims rfl hclaim
      · rw [if_neg hj] at hfind
        rw [hfind]
        exact .keeps
    · exact .keeps

theorem recordStepResult_writes {s' : Store} {step : NewJobStep} {owner : String} {attempt : Int}
    {epoch : Option Int} {limits : StepLimits} {commit : StepCommit}
    (h : recordStepResult s step owner attempt epoch limits scope now = .ok (commit, s'))
    (j : String) :
    Writes s now (.recordStepResult step owner attempt epoch limits scope) j
      (s'.claims.find j) .quiet := by
  obtain ⟨ns, s₁, steps, hfence, rfl⟩ := recordStepResult_ok h
  obtain ⟨-, claims, rfl, hothers⟩ := resolveAttemptFence_ok hfence
  by_cases hj : j = step.jobId
  · subst hj
    obtain ⟨hstage, claim, hholds, hfind⟩ := fence_holds hfence
    rw [hfind]
    exact .holds rfl hstage hholds
  · rw [show ({ s with claims := claims } : Store).claims.find j =
      s.claims.find j from hothers j hj]
    exact .keeps

theorem awaitSettle_writes {s' : Store} {owner : String} {attempt deadlineMs : Int}
    {epoch : Option Int} {out : Option Int}
    (h : awaitSettle s id owner attempt epoch deadlineMs scope now = .ok (out, s')) (j : String) :
    Writes s now (.awaitSettle id owner attempt epoch deadlineMs scope) j (s'.claims.find j)
      (Act.note s now (.awaitSettle id owner attempt epoch deadlineMs scope) j) := by
  simp only [Act.note, h]
  rcases awaitSettle_ok h with ⟨rfl, rfl⟩ | ⟨ns, s₁, hfence, rfl, rfl⟩
  · exact .keeps
  obtain ⟨-, claims, rfl, hothers⟩ := resolveAttemptFence_ok hfence
  obtain ⟨hstage, claim, hholds, hclaim⟩ := fence_holds hfence
  have hclaim : claims.find id = some claim := hclaim
  have hfind := find_update_key claims id j (fun c =>
    { c with
      settleDeadlineMs := some (((claims.find id).bind ClaimRow.settleDeadlineMs).elim deadlineMs
        (max · deadlineMs)) }) (fun _ => rfl)
  by_cases hj : j = id
  · subst hj
    rw [if_pos rfl, hclaim, Option.map_some] at hfind
    simp only [if_true]
    rw [hclaim, hfind]
    refine .awaits rfl hstage hholds fun d hd => ?_
    rw [Option.bind_some, hd]
    exact le_max_left d deadlineMs
  · rw [if_neg hj, hothers j hj] at hfind
    simp only [hj, if_false]
    rw [hfind]
    exact .keeps

theorem claimSettle_writes (id : String) (claimant : SettleClaimant) (scope : Scope) (j : String) :
    Writes s now (.claimSettle id claimant scope) j
      ((claimSettle s id claimant scope).2.claims.find j)
      (Act.note s now (.claimSettle id claimant scope) j) := by
  simp only [Act.note]
  unfold claimSettle
  split
  · exact .keeps
  cases hclaim : s.claims.find id with
  | none => exact .keeps
  | some =>
    dsimp only
    split
    · next hentitled =>
      have hfind := find_update_key s.claims id j (fun c =>
        { c with settleDeadlineMs := none }) (fun _ => rfl)
      by_cases hj : j = id
      · subst hj
        rw [if_pos rfl, hclaim, Option.map_some] at hfind
        rw [hfind, if_pos ⟨rfl, rfl⟩]
        exact .settles hclaim hentitled
      · rw [if_neg hj] at hfind
        rw [hfind, if_neg (fun h => hj h.2)]
        exact .keeps
    · exact .keeps

end Writing

/-- **An act that writes a claim** leaves the rows alone. -/
theorem call_writes {a : Act} {t t' : Timeline} (hwrites : a.writesClaim = true)
    (h : t.call serde now a = .ok t') :
    t'.store.jobs = t.store.jobs ∧
      ∀ j, Writes t.store now a j (t'.store.claims.find j) (a.note t.store now j) := by
  cases a with
  | recordStepResult =>
    obtain ⟨⟨commit, s'⟩, hrun, h⟩ := bind_eq_ok.mp h
    cases h
    refine ⟨?_, recordStepResult_writes hrun⟩
    obtain ⟨ns, s₁, steps, hfence, rfl⟩ := recordStepResult_ok hrun
    obtain ⟨-, claims, rfl, -⟩ := resolveAttemptFence_ok hfence
    rfl
  | claimExecution id worker epoch =>
    cases h
    refine ⟨?_, claimExecution_writes id worker epoch⟩
    simp only [claimExecution]
    split <;> rfl
  | reclaimExecution id expected owner epoch =>
    cases h
    refine ⟨?_, reclaimExecution_writes id expected owner epoch⟩
    simp only [reclaimExecution]
    repeat' split
    all_goals rfl
  | awaitSettle =>
    obtain ⟨⟨out, s'⟩, hrun, h⟩ := bind_eq_ok.mp h
    cases h
    refine ⟨?_, awaitSettle_writes hrun⟩
    rcases awaitSettle_ok hrun with ⟨-, rfl⟩ | ⟨ns, s₁, hfence, -, rfl⟩
    · rfl
    · obtain ⟨-, claims, rfl, -⟩ := resolveAttemptFence_ok hfence
      rfl
  | claimSettle id claimant scope =>
    cases h
    refine ⟨?_, claimSettle_writes id claimant scope⟩
    simp only [claimSettle]
    repeat' split
    all_goals rfl
  | _ => cases hwrites

/-! ## Histories under observation -/

/-- A history, the epochs it minted, and the observer of every job. -/
structure Tenure where
  timeline : Timeline
  issued : List Int
  watch : String → Watch

def Tenure.start : Tenure := ⟨.start, [], fun _ => .start⟩

abbrev Tenure.store (t : Tenure) : Store := t.timeline.store

/-- One act, observed.  A minted epoch is one that was never minted before. -/
def Tenure.next (serde : Serde) (t : Tenure) (label : Int × Act) : Option Tenure :=
  if label.2.epochs.all (fun e => e.2 ∉ t.issued) then
    (t.timeline.next serde label).map fun timeline =>
      { timeline := timeline
        issued := label.2.epochs.map Prod.snd ++ t.issued
        watch := fun j =>
          (t.watch j).see ((label.2.epochs.filter (fun e => e.1 = j)).map Prod.snd)
            (label.2.note t.store label.1 j) (leaseOf t.store j) (leaseOf timeline.store j) }
  else none

inductive LeaseStep (s s' : Store) (now : Int) (a : Act) (j : String) (note : Note) : Prop
  | gone (hnote : note = .quiet) (h : s'.claims.find j = none)
  | same (hnote : note = .quiet) (h : s'.claims.find j = s.claims.find j)
      (hends : a.Orderly s → ¬ (leaseOf s j).Ends (leaseOf s' j))
  | wrote (hends : ¬ (leaseOf s j).Ends (leaseOf s' j))
      (h : Writes s now a j (s'.claims.find j) note)

theorem note_of_plain {s : Store} {a : Act} (h : a.writesClaim = false) (j : String) :
    a.note s now j = .quiet := by
  cases a <;> first | rfl | cases h

theorem note_of_error {t : Timeline} {a : Act} {e : QueueError} (h : t.call serde now a = .error e)
    (j : String) : a.note t.store now j = .quiet := by
  cases a with
  | awaitSettle id owner attempt epoch deadlineMs scope =>
    simp only [Timeline.call] at h
    cases hrun : Sql.awaitSettle t.store id owner attempt epoch deadlineMs scope now with
    | error => simp only [Act.note, hrun]
    | ok =>
      rw [hrun] at h
      cases h
  | claimSettle => cases h
  | _ => rfl

/-- A call that is not orderly is a `reschedule`, and leaves the claims
alone. -/
theorem claims_of_not_orderly {t t' : Timeline} {a : Act} (horder : ¬ a.Orderly t.store)
    (h : t.call serde now a = .ok t') : t'.store.claims = t.store.claims := by
  cases a with
  | reschedule =>
    obtain ⟨s', hrun, h⟩ := bind_eq_ok.mp h
    cases h
    obtain ⟨-, -, -, -, hclaims⟩ := reschedule_ok hrun
    exact hclaims
  | _ => exact absurd trivial horder

/-- **What a step of a history does to a lease.** -/
theorem next_leaseStep {t t' : Timeline} {label : Int × Act} (h : t.next serde label = some t')
    (j : String) :
    LeaseStep t.store t'.store label.1 label.2 j (label.2.note t.store label.1 j) := by
  unfold Timeline.next at h
  split at h
  · cases h
    cases hcall : t.call serde label.1 label.2 with
    | error => exact .same (note_of_error hcall j) rfl fun _ => not_ends_of_jobs rfl
    | ok t₁ =>
      show LeaseStep _ t₁.store _ _ _ _
      cases hwrites : label.2.writesClaim with
      | false =>
        have hnote : label.2.note t.store label.1 j = .quiet := note_of_plain hwrites j
        by_cases horder : label.2.Orderly t.store
        · rcases call_releases hwrites horder hcall j with hgone | ⟨hsame, hends⟩
          · exact .gone hnote hgone
          · exact .same hnote hsame fun _ => hends
        · refine .same hnote ?_ fun h => absurd h horder
          rw [claims_of_not_orderly horder hcall]
      | true =>
        obtain ⟨hjobs, hall⟩ := call_writes hwrites hcall
        exact .wrote (not_ends_of_jobs (by rw [hjobs])) (hall j)
  · cases h

end FlexiQ.Sql
