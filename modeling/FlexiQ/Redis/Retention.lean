/-
# `Redis.Retention` — the steps of a live job

A step hash expires seven days after the last step write or the latest sleep
of its job, whichever is later.  Nothing else refreshes it: a job that is
retried with a longer delay, or waits longer in a queue, comes back to an
empty hash and runs its committed steps again (`waiting_job_forgets`).
-/
import FlexiQ.Redis.Agree
import FlexiQ.Redis.Leases

namespace FlexiQ.Redis

open List FlexiQ.Lib FlexiQ.Step FlexiQ.Sql

variable {s : Store} {j : String} {now : Int} {c : Req} {step : NewJobStep} {scope : Scope}
  {limits : StepLimits} {hash : StepHash}

/-! ## The observer -/

structure StepWrite where
  field : Option StepField
  now : Int
  wake : Option Int
  deriving DecidableEq, Repr

def Req.stepWrite : (c : Req) → Resp c → String → Option StepWrite
  | .recordStep step _ _ _ _ _ now, reply, j =>
    if step.jobId = j ∧ StepReply.isOk reply = true then
      some ⟨some ⟨step.seq, now, encodeDoc step none⟩, now, none⟩
    else none
  | .sleep step _ _ _ _ _ _ stored deadline now, reply, j =>
    if step.jobId = j ∧ StepReply.isOk reply = true then
      if stored then some ⟨none, now, none⟩
      else some ⟨some ⟨step.seq, now, encodeDoc step (some deadline)⟩, now, some deadline⟩
    else none
  | _, _, _ => none

structure Diary where
  rows : List StepField
  last : Int
  wake : Int
  deriving DecidableEq, Repr

namespace Diary

def blank : Diary := ⟨[], 0, 0⟩

def write (d : Diary) (w : StepWrite) : Diary where
  rows := w.field.toList ++ d.rows
  last := w.now
  wake := w.wake.elim d.wake (max d.wake)

def horizon (d : Diary) : Int := max d.last d.wake + ttlGraceMs

end Diary

def diarist : Observer Call Int Req Resp Server (String → Diary) where
  call c r _ _ g j := (c.stepWrite r j).elim (g j) (g j).write

/-! ## What a request does to a step hash -/

def writtenHash (clock : Int) (hash : StepHash) : Option StepHash :=
  if hash.expiresAt ≤ clock then none else some hash

/-- `hash` is what the write `w` makes of `old`, for a job whose namespace
reads `jobNs`. -/
structure Written (old : StepHash) (w : StepWrite) (jobNs : String) (hash : StepHash) : Prop where
  rows : hash.rows = old.rows ++ w.field.toList
  wake : hash.wake.getD 0 = w.wake.elim (old.wake.getD 0) (max (old.wake.getD 0))
  ns : hash.ns = if w.field.isSome then old.ns <|> some jobNs else old.ns
  expiresAt : hash.expiresAt = max w.now (hash.wake.getD 0) + ttlGraceMs

inductive Notes (s : Store) (c : Req) (j : String) : Option StepWrite → Option StepHash → Prop
  | keeps : Notes s c j none (s.steps.find j)
  | drops (hgone : (perform c s).2.jobs.find j = none) : Notes s c j none none
  | writes {w : StepWrite} {job : Job} {hash : StepHash} (hdoc : s.jobs.find j = some job)
      (hold : w.field = none → (s.steps.find j).isSome = true)
      (hwritten : Written (stepHash s j) w (scopeText job.namespace) hash) :
      Notes s c j (some w) (writtenHash s.clock hash)

/-- Behind the fence the job is there, its namespace is known, and its steps
are as they were. -/
theorem fence_steps {s₁ : Store} {jobId owner : String} {attempt : Int} {epoch scope : Option _}
    {jobNs : String}
    (hfence : fence s jobId owner attempt epoch scope true now = some (jobNs, s₁)) :
    (∃ job, s.jobs.find jobId = some job ∧ jobNs = scopeText job.namespace) ∧
      s₁.clock = s.clock ∧ ∀ j, s₁.steps.find j = s.steps.find j := by
  obtain ⟨-, hclock, hcard⟩ := fence_card hfence
  refine ⟨?_, hclock, fun j => ?_⟩
  · unfold fence at hfence
    cases hjob : s.jobs.find jobId with
    | none =>
      rw [hjob] at hfence
      cases hfence
    | some job =>
      rw [hjob] at hfence
      dsimp only at hfence
      refine ⟨job, rfl, ?_⟩
      repeat' split at hfence
      all_goals cases hfence
      all_goals rfl
  · have hsteps := congrArg Card.steps (hcard j)
    refine hsteps.trans ?_
    split
    · exact asserted_steps _ _ _ _ _ _
    · rfl

theorem stepHash_congr {s₁ : Store} (h : s₁.steps.find j = s.steps.find j) :
    stepHash s₁ j = stepHash s j := by
  unfold stepHash
  rw [h]

theorem recordStep_notes {owner : String} {attempt : Int} {epoch : Option Int} (j : String) :
    Notes s (.recordStep step owner attempt epoch limits scope now) j
      (Req.stepWrite (.recordStep step owner attempt epoch limits scope now)
        (perform (.recordStep step owner attempt epoch limits scope now) s).1 j)
      ((perform (.recordStep step owner attempt epoch limits scope now) s).2.steps.find j) := by
  have hrun : perform (.recordStep step owner attempt epoch limits scope now) s =
      recordStepScript s step owner attempt epoch limits scope now := rfl
  have hnote : ∀ reply : StepReply, Req.stepWrite
      (.recordStep step owner attempt epoch limits scope now) reply j =
      if step.jobId = j ∧ reply.isOk = true then
        some ⟨some ⟨step.seq, now, encodeDoc step none⟩, now, none⟩ else none := fun _ => rfl
  rw [hrun, hnote]
  rcases recordStepScript_spec (s := s) step owner attempt epoch limits scope now with
    h | ⟨jobNs, s₁, hfence, h⟩
  · rw [h, if_neg fun hok => (by cases hok.2)]
    exact .keeps
  rw [h]
  obtain ⟨⟨job, hjob, rfl⟩, hclock, hsteps⟩ := fence_steps hfence
  rcases recordStep_spec (s := s₁) step (scopeText job.namespace) limits now with
    ⟨hsame, hrefused⟩ | ⟨hash, -, hhash, hok⟩
  · have hnot : (recordStep s₁ step (scopeText job.namespace) limits now).1.isOk = false := by
      cases hreply : (recordStep s₁ step (scopeText job.namespace) limits now).1 with
      | ok => exact absurd hreply hrefused
      | _ => rfl
    rw [hsame, hsteps, if_neg (by rw [hnot]; exact fun hok => (by cases hok.2))]
    exact .keeps
  have hid : (hash.refreshed now).jobId = step.jobId := by
    rw [hhash]
    exact stepHash_jobId s₁ step.jobId
  have hcard : (s₁.exec [.setSteps (hash.refreshed now)]).steps.find j = _ :=
    congrArg Card.steps (setSteps_card (hash.refreshed now))
  rw [hok, hcard, hid]
  by_cases hj : step.jobId = j
  · subst hj
    rw [if_pos rfl, if_pos ⟨rfl, rfl⟩, hclock]
    refine .writes hjob (fun hnone => (by cases hnone)) ?_
    rw [← stepHash_congr (hsteps _), hhash]
    exact ⟨rfl, rfl, rfl, rfl⟩
  · rw [if_neg hj, if_neg fun hok => hj hok.1]
    show Notes _ _ _ _ (s₁.steps.find j)
    rw [hsteps]
    exact .keeps

section

variable {old : StepHash} {jobNs : String} {stored : Bool} {deadline : Int}
  (h : sleepRow old step jobNs limits stored deadline now = .ok hash)
include h

theorem sleepRow_ok : (stored = true ∧ hash = old ∧ (old.row step.seq).isSome = true) ∨
      (stored = false ∧ hash =
        { old.add ⟨step.seq, now, encodeDoc step (some deadline)⟩ jobNs with
          wake := if old.wake.getD 0 < deadline then some deadline else old.wake }) := by
  unfold sleepRow at h
  repeat' split at h
  all_goals cases h
  · next hrow => exact Or.inl ⟨rfl, rfl, Option.isSome_of_mem hrow⟩
  · exact Or.inr ⟨rfl, rfl⟩

theorem sleepRow_written : Written old (if stored then ⟨none, now, none⟩
      else ⟨some ⟨step.seq, now, encodeDoc step (some deadline)⟩, now, some deadline⟩) jobNs
      (hash.refreshed now) := by
  rcases sleepRow_ok h with ⟨rfl, rfl, -⟩ | ⟨rfl, rfl⟩
  · exact ⟨(append_nil _).symm, rfl, rfl, rfl⟩
  · refine ⟨rfl, ?_, rfl, rfl⟩
    show (if old.wake.getD 0 < deadline then some deadline else old.wake).getD 0 =
      max (old.wake.getD 0) deadline
    split
    · next hlt => exact (max_eq_right hlt.le).symm
    · next hge => exact (max_eq_left (not_lt.mp hge)).symm

end

theorem sleep_notes {owner : String} {attempt : Int} {epoch : Option Int} {read : Job}
    {stored : Bool} {deadline : Int} (j : String) :
    Notes s (.sleep step owner attempt epoch limits scope read stored deadline now) j
      (Req.stepWrite (.sleep step owner attempt epoch limits scope read stored deadline now)
        (perform (.sleep step owner attempt epoch limits scope read stored deadline now) s).1 j)
      ((perform (.sleep step owner attempt epoch limits scope read stored deadline now)
        s).2.steps.find j) := by
  have hrun : perform (.sleep step owner attempt epoch limits scope read stored deadline now) s =
      sleepScript s step owner attempt epoch limits scope read stored deadline now := rfl
  have hnote : ∀ reply : StepReply, Req.stepWrite
      (.sleep step owner attempt epoch limits scope read stored deadline now) reply j =
      if step.jobId = j ∧ reply.isOk = true then
        if stored then some ⟨none, now, none⟩
        else some ⟨some ⟨step.seq, now, encodeDoc step (some deadline)⟩, now, some deadline⟩
      else none := fun _ => rfl
  rw [hrun, hnote]
  rcases sleepScript_spec (s := s) step owner attempt epoch limits scope read stored deadline now
    with h | ⟨jobNs, s₁, hfence, ⟨reply, hrow, h⟩ | ⟨hash, hrow, h⟩⟩
  · rw [h, if_neg fun hok => (by cases hok.2)]
    exact .keeps
  · obtain ⟨-, -, hsteps⟩ := fence_steps hfence
    rw [h, hsteps, if_neg (by rw [sleepRow_not_ok hrow]; exact fun hok => (by cases hok.2))]
    exact .keeps
  obtain ⟨⟨job, hjob, rfl⟩, hclock, hsteps⟩ := fence_steps hfence
  have hid : (hash.refreshed now).jobId = step.jobId :=
    (sleepRow_jobId hrow).trans (stepHash_jobId s₁ step.jobId)
  -- The job half writes nothing of the hash.
  have hcard : (s₁.exec (.setSteps (hash.refreshed now) :: suspendOps read deadline)).steps.find j =
      ((cardOf s₁ j).apply s₁.clock j (.setSteps (hash.refreshed now))).steps := by
    refine (congrArg Card.steps (exec_card j _ s₁)).trans ?_
    rw [Card.run_cons, suspendOps_card]
    split <;> rfl
  rw [h, hcard, Card.apply, hid]
  by_cases hj : step.jobId = j
  · subst hj
    have hblank : stepHash s₁ step.jobId = stepHash s step.jobId := stepHash_congr (hsteps _)
    rw [hblank] at hrow
    have hwritten := sleepRow_written hrow
    have hold : stored = true → (s.steps.find step.jobId).isSome = true := by
      intro hstored
      rcases sleepRow_ok hrow with ⟨-, -, hsome⟩ | ⟨hnot, -⟩
      · unfold stepHash at hsome
        cases hfind : s.steps.find step.jobId with
        | none =>
          rw [hfind] at hsome
          cases hsome
        | some => rfl
      · cases hstored.symm.trans hnot
    rw [if_pos rfl, if_pos ⟨rfl, rfl⟩, hclock]
    cases stored with
    | true => exact .writes hjob (fun _ => hold rfl) hwritten
    | false => exact .writes hjob (fun hnone => (by cases hnone)) hwritten
  · rw [if_neg hj, if_neg fun hok => hj hok.1]
    show Notes _ _ _ _ (s₁.steps.find j)
    rw [hsteps]
    exact .keeps

theorem Dealt.notes {claim : Option ClaimKey} {marker : Option MarkerKey} {steps : Option StepHash}
    (hc : c.stepClock = none) (h : Dealt s c j ((perform c s).2.jobs.find j) claim marker steps) :
    Notes s c j none steps := by
  have hkept : ∀ steps, Undisturbed s c j steps → Notes s c j none steps := by
    rintro _ (rfl | hsome)
    · exact .keeps
    · rw [hc] at hsome
      cases hsome
  generalize hdoc : (perform c s).2.jobs.find j = doc at h
  cases h with
  | keeps hsteps | returns _ _ _ _ _ hsteps | holds _ hsteps => exact hkept _ hsteps
  | shelves => exact .drops hdoc
  | _ => exact .keeps

/-- **What a request does to a step hash.** -/
theorem perform_notes (hc : c.tame) (j : String) :
    Notes s c j (c.stepWrite (perform c s).1 j) ((perform c s).2.steps.find j) := by
  cases c with
  | recordStep => exact recordStep_notes j
  | sleep => exact sleep_notes j
  | _ => exact (perform_dealt hc j).notes rfl

/-! ## What is remembered -/

theorem stepClock_of_stepWrite {r : Resp c} {w : StepWrite} (h : c.stepWrite r j = some w) :
    c.stepClock = some w.now := by
  cases c with
  | recordStep =>
    simp only [Req.stepWrite] at h
    split at h
    · cases h
      rfl
    · cases h
  | sleep =>
    simp only [Req.stepWrite] at h
    repeat' split at h
    all_goals cases h
    all_goals rfl
  | _ => cases h

abbrev withinGrace : Terms Call Int Req (Server × (String → Diary)) where
  arrive _ _ := True
  call w c := Current w.1.store c ∧ (∀ job ∈ c.inserts, job.id ∉ w.1.inserted) ∧
    ∀ now ∈ c.stepClock, w.1.store.clock < now + ttlGraceMs
  drift w now := ∀ doc ∈ w.1.store.jobs.rows, (w.2 doc.id).rows ≠ [] → now ≤ (w.2 doc.id).horizon

/-- The hash has what the diary says, and expires when it says. -/
structure Recalled (d : Diary) (ns : Scope) (hash : StepHash) : Prop where
  rows : ∀ f ∈ d.rows, f ∈ hash.rows
  wake : hash.wake.getD 0 = d.wake
  ns : hash.ns = some (scopeText ns)
  expiresAt : hash.expiresAt = d.horizon

/-- A live job was minted; a job with steps was, and if it is live its hash
is there. -/
structure Remembers (w : Server × (String → Diary)) (j : String) : Prop where
  minted : ∀ job, w.1.store.jobs.find j = some job → j ∈ w.1.inserted
  diary : (w.2 j = .blank ∧ w.1.store.steps.find j = none) ∨
    (j ∈ w.1.inserted ∧ (w.2 j).rows ≠ [] ∧ ∀ job, w.1.store.jobs.find j = some job →
      ∃ hash, w.1.store.steps.find j = some hash ∧ Recalled (w.2 j) job.namespace hash)

theorem Recalled.write {d : Diary} {ns : Scope} {old : StepHash} {w : StepWrite}
    (hrows : ∀ f ∈ d.rows, f ∈ old.rows) (hwake : old.wake.getD 0 = d.wake)
    (hns : old.ns = some (scopeText ns) ∨ (old.ns = none ∧ w.field.isSome = true))
    (h : Written old w (scopeText ns) hash) : Recalled (d.write w) ns hash := by
  have hlatest : hash.wake.getD 0 = (d.write w).wake := by
    rw [h.wake, hwake]
    rfl
  refine ⟨?_, hlatest, ?_, ?_⟩
  · intro f hf
    rw [h.rows]
    rcases mem_append.mp hf with hf | hf
    · exact mem_append_right _ hf
    · exact mem_append_left _ (hrows f hf)
  · rw [h.ns]
    rcases hns with hns | ⟨hnone, hfield⟩
    · rw [hns]
      split <;> rfl
    · rw [if_pos hfield, hnone]
      rfl
  · rw [h.expiresAt, hlatest]
    rfl

theorem Stage.namespace {doc : Option Job} (h : Stage s c j doc) {job : Job}
    (hjob : s.jobs.find j = some job) : ∀ d ∈ doc, d.namespace = job.namespace := by
  intro d hd
  cases h with
  | keeps => cases hjob.symm.trans hd; rfl
  | inserts _ _ _ hfree => cases hfree.symm.trans hjob
  | rewrites hdoc _ hns | returns _ hdoc _ hns =>
    cases hjob.symm.trans hdoc
    cases hd
    exact hns
  | starts hdoc =>
    cases hjob.symm.trans hdoc
    cases hd
    rfl
  | archives => cases hd

theorem Stage.source {doc : Option Job} (h : Stage s c j doc) {d : Job} (hd : doc = some d) :
    (∃ job, s.jobs.find j = some job) ∨
      ∃ job, c.inserts = some job ∧ c.inserted (perform c s).1 = true ∧ job.id = j := by
  cases h with
  | keeps => exact Or.inl ⟨d, hd⟩
  | inserts hc hr hid => exact Or.inr ⟨_, hc, hr, hid⟩
  | rewrites hdoc | starts hdoc | returns _ hdoc => exact Or.inl ⟨_, hdoc⟩
  | archives => cases hd

theorem perform_remembers {w : Server × (String → Diary)} (hc : c.tame)
    (hterms : withinGrace.call w c) (h : ∀ j, Remembers w j) (j : String) :
    Remembers ((w.1.perform c).2,
      diarist.call c (w.1.perform c).1 w.1 (w.1.perform c).2 w.2) j := by
  obtain ⟨hcur, hnew, hclock⟩ := hterms
  have hapt : Apt w.1.store c := by
    refine ⟨hcur, fun job hjob => ?_⟩
    cases hfind : w.1.store.jobs.find job.id with
    | none => rfl
    | some old => exact absurd ((h job.id).minted old hfind) (hnew job hjob)
  have hstage := perform_stage hc hapt j
  refine ⟨?_, ?_⟩
  · intro job hjob
    rcases hstage.source hjob with ⟨old, hold⟩ | ⟨new, hins, hsaid, rfl⟩
    · exact Server.inserted_mono ((h j).minted old hold)
    · exact Server.mem_inserted hins hsaid
  · have hnotes := perform_notes (s := w.1.store) hc j
    show ((c.stepWrite (perform c w.1.store).1 j).elim (w.2 j) (w.2 j).write = .blank ∧
        (perform c w.1.store).2.steps.find j = none) ∨
      (j ∈ (w.1.perform c).2.inserted ∧
        ((c.stepWrite (perform c w.1.store).1 j).elim (w.2 j) (w.2 j).write).rows ≠ [] ∧
        ∀ job, (perform c w.1.store).2.jobs.find j = some job →
          ∃ hash, (perform c w.1.store).2.steps.find j = some hash ∧
            Recalled ((c.stepWrite (perform c w.1.store).1 j).elim (w.2 j) (w.2 j).write)
              job.namespace hash)
    generalize hnote : c.stepWrite (perform c w.1.store).1 j = note at hnotes
    generalize (perform c w.1.store).2.steps.find j = steps at hnotes
    cases hnotes with
    | keeps =>
      rcases (h j).diary with hblank | ⟨hmem, hrows, hlive⟩
      · exact Or.inl hblank
      · refine Or.inr ⟨Server.inserted_mono hmem, hrows, fun job hjob => ?_⟩
        rcases hstage.source hjob with ⟨old, hold⟩ | ⟨new, hins, -, rfl⟩
        · obtain ⟨hash, hhash, hrec⟩ := hlive old hold
          rw [← hstage.namespace hold job hjob] at hrec
          exact ⟨hash, hhash, hrec⟩
        · exact absurd hmem (hnew new hins)
    | drops hgone =>
      rcases (h j).diary with hblank | ⟨hmem, hrows, -⟩
      · exact Or.inl ⟨hblank.1, rfl⟩
      · exact Or.inr ⟨Server.inserted_mono hmem, hrows, fun job hjob =>
          (by cases hgone.symm.trans hjob)⟩
    | @writes write job hash hjob hold hwritten =>
      -- The hash outlives the write.
      have hkept : writtenHash w.1.store.clock hash = some hash := by
        have hlate : w.1.store.clock < write.now + ttlGraceMs :=
          hclock _ (stepClock_of_stepWrite hnote)
        have hle : write.now ≤ max write.now (hash.wake.getD 0) := le_max_left _ _
        rw [writtenHash, if_neg]
        rw [hwritten.expiresAt]
        omega
      have hrecalled : ((w.2 j).write write).rows ≠ [] ∧
          Recalled ((w.2 j).write write) job.namespace hash := by
        rcases (h j).diary with ⟨hblank, hnone⟩ | ⟨-, hrows, hlive⟩
        · have hfield : write.field.isSome = true := by
            rw [Option.isSome_iff_ne_none]
            intro hf
            have := hold hf
            rw [hnone] at this
            cases this
          have hstep : stepHash w.1.store j = .blank j := by
            rw [stepHash, hnone]
            rfl
          rw [hstep] at hwritten
          rw [hblank]
          refine ⟨?_, .write (fun f hf => (by cases hf)) rfl (Or.inr ⟨rfl, hfield⟩) hwritten⟩
          obtain ⟨f, hf⟩ := Option.isSome_iff_exists.mp hfield
          simp [Diary.write, hf]
        · obtain ⟨old, hfind, hrec⟩ := hlive job hjob
          have hstep : stepHash w.1.store j = old := by
            rw [stepHash, hfind]
            rfl
          rw [hstep] at hwritten
          refine ⟨?_, .write hrec.rows hrec.wake (Or.inl hrec.ns) hwritten⟩
          exact fun hnil => hrows (append_eq_nil_iff.mp hnil).2
      refine Or.inr ⟨Server.inserted_mono ((h j).minted job hjob), hrecalled.1,
        fun job' hjob' => ?_⟩
      rw [hstage.namespace hjob job' hjob']
      exact ⟨hash, hkept, hrecalled.2⟩

theorem tick_remembers {w : Server × (String → Diary)} (hterms : withinGrace.drift w now)
    (h : Remembers w j) : Remembers ({ w.1 with store := w.1.store.tick now }, w.2) j := by
  have hfind : (w.1.store.tick now).steps.find j =
      (w.1.store.steps.find j).filter (fun hash => !decide (hash.expiresAt < now)) :=
    Table.find_delete w.1.store.steps _ j
  refine ⟨h.minted, ?_⟩
  rcases h.diary with ⟨hblank, hnone⟩ | ⟨hmem, hrows, hlive⟩
  · refine Or.inl ⟨hblank, ?_⟩
    rw [hfind, hnone]
    rfl
  · refine Or.inr ⟨hmem, hrows, fun job hjob => ?_⟩
    obtain ⟨hash, hhash, hrec⟩ := hlive job hjob
    refine ⟨hash, ?_, hrec⟩
    have hid : job.id = j := Table.key_of_find hjob
    have hlate : now ≤ (w.2 j).horizon := by
      rw [← hid]
      exact hterms job (Table.find_eq_some.mp hjob).1 (by rw [hid]; exact hrows)
    rw [hfind, hhash, Option.filter_some, hrec.expiresAt]
    simp [not_lt.mpr hlate]

theorem upholds_remembers (serde : Serde) :
    Upholds ((machine serde).watched diarist) withinGrace (fun w => ∀ j, Remembers w j)
      (fun _ c => c.tame) where
  arrive := by
    intro w call prog w' hI _ harr
    obtain ⟨server, g'⟩ := w'
    obtain ⟨hadmits, rfl⟩ := Service.watched_arrive harr
    obtain ⟨rfl, rfl⟩ := Server.admit_ok hadmits
    exact ⟨fun j => ⟨(hI j).minted, (hI j).diary⟩, prog_tame serde call, fun _ h => h⟩
  call := by
    intro w c hI hc hterms
    exact ⟨perform_remembers hc hterms hI, fun _ h => h⟩
  drift := by
    intro w now hI hterms
    exact ⟨fun j => tick_remembers hterms (hI j), fun _ h => h⟩

theorem mem_getJobSteps {d : Diary} {ns : Scope} (hhash : s.steps.find j = some hash)
    (h : Recalled d ns hash) (hscope : scope = none ∨ scope = ns) {f : StepField}
    (hf : f ∈ d.rows) : f.toJobStep j ∈ getJobSteps s j scope := by
  have hsees : (scope.isSome && decide (hash.ns ≠ scope)) = false := by
    rcases hscope with rfl | rfl
    · rfl
    · cases scope with
      | none => rfl
      | some => simp [h.ns, scopeText]
  unfold getJobSteps
  rw [hhash]
  dsimp only
  rw [if_neg (Bool.eq_false_iff.mp hsees)]
  refine mem_map_of_mem ?_
  exact (perm_insertionSort _ hash.rows).mem_iff.mpr (h.rows f hf)

/-- **A live job's steps are remembered**: every step that was committed for a
job that is live is returned to whoever reads its steps, unscoped or in its
namespace. -/
theorem live_job_remembers {serde : Serde}
    {p : Pool Req Resp Reply (Server × (String → Diary))}
    (h : Reaches (Pool.next ((machine serde).watched diarist)) withinGrace.Met
      ⟨(.start, fun _ => .blank), []⟩ p) {j : String} {job : Job}
    (hlive : p.world.1.store.jobs.find j = some job) {scope : Option String}
    (hscope : scope = none ∨ scope = job.namespace) :
    ∀ f ∈ (p.world.2 j).rows, f.toJobStep j ∈ getJobSteps p.world.1.store j scope := by
  have hstart : ∀ j, Remembers (Server.start, fun _ => Diary.blank) j :=
    fun j => ⟨fun job hjob => (by cases hjob), Or.inl ⟨rfl, rfl⟩⟩
  have hsound := (upholds_remembers serde).sound (Pool.sound_start rfl hstart) h
  intro f hf
  rcases (hsound.world j).diary with ⟨hblank, -⟩ | ⟨-, -, hrecalls⟩
  · rw [hblank] at hf
    cases hf
  · obtain ⟨hash, hhash, hrec⟩ := hrecalls job hlive
    exact mem_getJobSteps hhash hrec hscope hf

def ampleLimits : StepLimits := ⟨1024, 4096, 10⟩

def chargeStep : NewJobStep := ⟨"job", 0, "charge#0", .run, some [1]⟩

def committedAndRetried (again : Int) : List (Turn Call Int) :=
  [.arrive (.enqueue errand "job" 0), .step 0, .step 0, .step 0, .step 0, .step 0, .step 0,
    .arrive (.dequeueBatch "q" 10 none 1), .step 1,
    .arrive (.recordStepResult chargeStep "w" 0 (some 1) ampleLimits none 12), .step 2,
    .arrive (.retry "job" again none), .step 3, .step 3]

theorem waiting_job_forgets : ∃ p,
    Reaches (Pool.next ((machine noSerde).watched diarist)) Terms.any.Met
      ⟨(.start, fun _ => .blank), []⟩ p ∧ p.Quiet ∧
      (p.world.1.store.jobs.find "job").any (fun job => job.status = .pending) = true ∧
      (p.world.2 "job").rows = [⟨0, 12, encodeDoc chargeStep none⟩] ∧
      getJobSteps p.world.1.store "job" none = [] :=
  exists_reached (committedAndRetried 691200000 ++ [.drift 691200000])

theorem patient_job_remembers : ∃ p,
    Reaches (Pool.next ((machine noSerde).watched diarist)) withinGrace.Met
      ⟨(.start, fun _ => .blank), []⟩ p ∧
      (p.world.1.store.jobs.find "job").any (fun job => job.status = .running) = true ∧
      (⟨"job", 0, "charge#0", .run, some [1], none, 12⟩ : JobStep) ∈
        getJobSteps p.world.1.store "job" none := by
  refine exists_reached_imp (P := fun p =>
      (p.world.1.store.jobs.find "job").any (fun job => job.status = .running) = true ∧
        ⟨0, 12, encodeDoc chargeStep none⟩ ∈ (p.world.2 "job").rows)
    (committedAndRetried 86400000 ++ [.drift 86400000,
      .arrive (.dequeueBatch "q" 86400000 none 1), .step 4]) ?_
  rintro p hrun ⟨hdoc, hrows⟩
  obtain ⟨job, hjob, -⟩ := (Option.any_eq_true _ _).mp hdoc
  exact ⟨hdoc, live_job_remembers hrun hjob (Or.inl rfl) _ hrows⟩

end FlexiQ.Redis
