/-
# `Sql.Effects` — what each transaction does to the tables

One statement per transaction, about lookups only, so that a proof about a
history never unfolds a transaction.  Almost all of them do one of two
things: move some live rows into the archive (`Archives`), or rewrite one
live row in place (`Rewrites`).
-/
import FlexiQ.Sql.DeadLetter
import FlexiQ.Sql.Dequeue
import FlexiQ.Sql.Locks

namespace FlexiQ.Sql

open List FlexiQ.Lib Table

variable {s s' : Store} {id owner error : String} {row job : Job} {rows : List Job}
  {scope : Scope} {step : NewJobStep} {now attempt : Int} {limits : StepLimits}
  {epoch : Option Int}

/-! ## Dependencies -/

theorem mem_dependenciesOf {dep : String} :
    dep ∈ dependenciesOf s id ↔ (⟨id, dep⟩ : Edge) ∈ s.edges := by
  simp only [dependenciesOf, mem_map, mem_filter, decide_eq_true_eq]
  constructor
  · rintro ⟨e, ⟨he, rfl⟩, rfl⟩
    exact he
  · intro h
    exact ⟨_, ⟨h, rfl⟩, rfl⟩

theorem depsSatisfied_iff : depsSatisfied s id = true ↔ ∀ dep, (⟨id, dep⟩ : Edge) ∈ s.edges →
      (∀ row, s.jobs.find dep = some row → row.status = .complete) ∧
        ∀ row, s.archived.find dep = some row → row.status = .complete := by
  have hnone : ∀ t : Table String Job Job.id,
      (t.rows.filter fun row => row.id ∈ dependenciesOf s id ∧ row.status ≠ .complete) = [] ↔
        ∀ dep, (⟨id, dep⟩ : Edge) ∈ s.edges → ∀ row, t.find dep = some row →
          row.status = .complete := by
    intro t
    rw [filter_eq_nil_iff]
    constructor
    · intro h dep hdep row hrow
      obtain ⟨hmem, rfl⟩ := find_eq_some.mp hrow
      simpa [mem_dependenciesOf, hdep] using h row hmem
    · intro h row hmem
      simp only [mem_dependenciesOf, decide_eq_true_eq, not_and, not_not]
      intro hdep
      exact h row.id hdep row (find_of_mem hmem)
  simp only [depsSatisfied, Bool.or_eq_true, List.isEmpty_iff, beq_iff_eq, Nat.add_eq_zero_iff,
    length_eq_zero_iff, hnone]
  constructor
  · rintro (hempty | ⟨hlive, harch⟩) dep hdep
    · rw [← mem_dependenciesOf, hempty] at hdep
      cases hdep
    · exact ⟨hlive dep hdep, harch dep hdep⟩
  · intro h
    exact Or.inr ⟨fun dep hdep => (h dep hdep).1, fun dep hdep => (h dep hdep).2⟩

/-! ## Archiving -/

/-- `rows` left `jobs` for the archive, their claims with them; everything
else is where it was. -/
structure Archives (s s' : Store) (rows : List Job) : Prop where
  fresh : ∀ row ∈ rows, s.archived.find row.id = none
  nodup : (rows.map Job.id).Nodup
  jobs : ∀ k, s'.jobs.find k = if k ∈ rows.map Job.id then none else s.jobs.find k
  moved : ∀ row ∈ rows, s'.archived.find row.id = some row.archived
  archived : ∀ k, k ∉ rows.map Job.id → s'.archived.find k = s.archived.find k
  claims : ∀ k, s'.claims.find k = if k ∈ rows.map Job.id then none else s.claims.find k
  edges : s'.edges = s.edges
  dead : s'.dead = s.dead

theorem Archives.nil (s : Store) : Archives s s [] where
  fresh := by simp
  nodup := nodup_nil
  jobs := by simp
  moved := by simp
  archived := by simp
  claims := by simp
  edges := rfl
  dead := rfl

theorem archiveJobRow_ok (h : archiveJobRow s row = .ok s') : Archives s s' [row] := by
  unfold archiveJobRow at h
  cases hins : s.archived.insert row.archived with
  | none => simp [hins] at h
  | some archived =>
    simp only [hins, Except.ok.injEq] at h
    subst h
    have hfind := find_insert hins
    refine ⟨?_, nodup_singleton _, ?_, ?_, ?_, ?_, rfl, rfl⟩
    · intro r hr
      cases mem_singleton.mp hr
      exact (insert_eq_some hins).1
    · intro k
      simpa using find_delete_key s.jobs row.id k
    · intro r hr
      cases mem_singleton.mp hr
      simpa [Job.archived] using hfind row.id
    · intro k hk
      have hne : row.archived.id ≠ k := by
        intro heq
        exact hk (by simp [← heq, Job.archived])
      simpa [hne] using hfind k
    · intro k
      simpa using find_delete_key s.claims row.id k

theorem Archives.cons {s₁ : Store}
    (h₁ : Archives s s₁ [row]) (h₂ : Archives s₁ s' rows) : Archives s s' (row :: rows) := by
  have hnew : ∀ r ∈ rows, r.id ≠ row.id := by
    intro r hr heq
    have hmoved := h₁.moved row (mem_singleton_self _)
    rw [← heq, h₂.fresh r hr] at hmoved
    cases hmoved
  have hnot : row.id ∉ rows.map Job.id := by
    intro hmem
    obtain ⟨r, hr, heq⟩ := mem_map.mp hmem
    exact hnew r hr heq
  refine ⟨?_, ?_, ?_, ?_, ?_, ?_, ?_, ?_⟩
  · intro r hr
    rcases mem_cons.mp hr with rfl | hr
    · exact h₁.fresh r (mem_singleton_self _)
    · rw [← h₂.fresh r hr]
      exact (h₁.archived r.id (by simpa using hnew r hr)).symm
  · exact nodup_cons.mpr ⟨hnot, h₂.nodup⟩
  · intro k
    rw [h₂.jobs, h₁.jobs]
    simp only [map_cons, mem_cons, map_nil, not_mem_nil, or_false]
    by_cases hk : k = row.id <;> simp [hk]
  · intro r hr
    rcases mem_cons.mp hr with rfl | hr
    · rw [h₂.archived r.id hnot]
      exact h₁.moved r (mem_singleton_self _)
    · exact h₂.moved r hr
  · intro k hk
    simp only [map_cons, mem_cons, not_or] at hk
    rw [h₂.archived k hk.2]
    exact h₁.archived k (by simpa using hk.1)
  · intro k
    rw [h₂.claims, h₁.claims]
    simp only [map_cons, mem_cons, map_nil, not_mem_nil, or_false]
    by_cases hk : k = row.id <;> simp [hk]
  · rw [h₂.edges, h₁.edges]
  · rw [h₂.dead, h₁.dead]

theorem archiveRows_ok : ∀ {rows : List Job} {s s' : Store}, archiveRows s rows = .ok s' →
    Archives s s' rows
  | [], s, s', h => by
    cases h
    exact .nil s
  | row :: rows, s, s', h => by
    obtain ⟨s₁, h₁, h₂⟩ := bind_eq_ok.mp h
    exact (archiveJobRow_ok h₁).cons (archiveRows_ok h₂)

theorem archiveJobRow_isOk (row : Job) (h : s.archived.find row.id = none) :
    ∃ s', archiveJobRow s row = .ok s' := by
  obtain ⟨archived, harch⟩ := insert_isSome (t := s.archived) (r := row.archived) h
  exact ⟨_, by rw [archiveJobRow, harch]⟩

theorem archiveRows_isOk : ∀ {rows : List Job} {s : Store},
    (∀ row ∈ rows, s.archived.find row.id = none) → (rows.map Job.id).Nodup →
    ∃ s', archiveRows s rows = .ok s'
  | [], s, _, _ => ⟨s, rfl⟩
  | row :: rows, s, hfresh, hnodup => by
    rw [map_cons, nodup_cons] at hnodup
    obtain ⟨s₁, h₁⟩ := archiveJobRow_isOk row (hfresh row mem_cons_self)
    have hrest : ∀ r ∈ rows, s₁.archived.find r.id = none := by
      intro r hr
      rw [(archiveJobRow_ok h₁).archived r.id ?_]
      · exact hfresh r (mem_cons_of_mem _ hr)
      · intro hmem
        have heq : r.id = row.id := by simpa using hmem
        exact hnodup.1 (heq ▸ mem_map_of_mem hr)
    obtain ⟨s', h'⟩ := archiveRows_isOk hrest hnodup.2
    exact ⟨s', bind_eq_ok.mpr ⟨s₁, h₁, h'⟩⟩

/-! ## Rewriting one live row -/

/-- The live row of `id` became `row'`; claims apart, everything else is
where it was. -/
structure Rewrites (s s' : Store) (id : String) (row' : Job) : Prop where
  jobs : ∀ k, s'.jobs.find k = if k = id then some row' else s.jobs.find k
  archived : s'.archived = s.archived
  edges : s'.edges = s.edges
  dead : s'.dead = s.dead

def Revokes (s s' : Store) (id : String) : Prop :=
  ∀ k, s'.claims.find k = if k = id then none else s.claims.find k

theorem rewrites_update {f : Job → Job}
    (hf : ∀ r, (f r).id = r.id) (claims : Table String ClaimRow ClaimRow.jobId)
    (h : s.jobs.find id = some row) :
    Rewrites s { s with jobs := s.jobs.update (fun r => r.id = id) f hf, claims := claims }
      id (f row) := by
  refine ⟨?_, rfl, rfl, rfl⟩
  intro k
  rw [find_update_key]
  by_cases hk : k = id
  · subst hk
    simp [h]
  · simp [hk]

theorem retry_ok {nextAt : Int} (h : retry s id nextAt scope = .ok s') :
    ∃ row, s.jobs.find id = some row ∧ visibleIn scope row.namespace = true ∧
      Rewrites s s' id { row.pendingAt nextAt with retryCount := row.retryCount + 1 } ∧
      Revokes s s' id := by
  unfold retry at h
  cases hrow : s.jobs.find id with
  | none => simp [hrow] at h
  | some row =>
    simp only [hrow] at h
    split at h
    · next hvis =>
      cases h
      exact ⟨row, rfl, hvis, rewrites_update _ _ hrow, find_delete_key s.claims id⟩
    · cases h

section

variable (hrow : s.jobs.find id = some row)
include hrow

theorem retry_isOk (hvis : visibleIn scope row.namespace = true)
    (nextAt : Int) : ∃ s', retry s id nextAt scope = .ok s' := by
  unfold retry
  simp only [hrow, hvis, if_true]
  exact ⟨_, rfl⟩

theorem reschedule_isOk (hns : row.namespace = scope)
    (nextAt : Int) : ∃ s', reschedule s id nextAt scope = .ok s' := by
  simp only [reschedule, hrow, hns, visibleIn_self, if_true]
  exact ⟨_, rfl⟩

theorem completeExecution_visible
    (hns : row.namespace = scope) : completeExecution s id scope =
      { s with claims := s.claims.delete fun claim => claim.jobId = id } := by
  simp [completeExecution, getJob, hrow, hns, visibleIn_self]

end

theorem claimExecution_free (h : s.claims.find id = none) (owner : String) (now epoch : Int) :
    ∃ claims, claimExecution s id owner now epoch = (some epoch, { s with claims := claims }) ∧
      ∀ k, claims.find k = if id = k then some ⟨id, owner, now, some epoch, none⟩
        else s.claims.find k := by
  obtain ⟨claims, hins⟩ := insert_isSome (t := s.claims)
    (r := ⟨id, owner, now, some epoch, none⟩) h
  exact ⟨claims, by rw [claimExecution, hins], find_insert hins⟩

theorem claimExecution_held {claim : ClaimRow} (h : s.claims.find id = some claim) (owner : String)
    (now epoch : Int) : claimExecution s id owner now epoch = (none, s) := by
  cases hins : s.claims.insert ⟨id, owner, now, some epoch, none⟩ with
  | none => rw [claimExecution, hins]
  | some claims => cases h.symm.trans (insert_eq_some hins).1

theorem reschedule_ok {nextAt : Int} (h : reschedule s id nextAt scope = .ok s') :
    ∃ row, s.jobs.find id = some row ∧ visibleIn scope row.namespace = true ∧
      Rewrites s s' id (row.pendingAt nextAt) ∧ s'.claims = s.claims := by
  unfold reschedule at h
  cases hrow : s.jobs.find id with
  | none => simp [hrow] at h
  | some row =>
    simp only [hrow] at h
    split at h
    · next hvis =>
      cases h
      exact ⟨row, rfl, hvis, rewrites_update _ s.claims hrow, rfl⟩
    · cases h

theorem requeueStuck_spec (s : Store) (id : String) (now : Int) :
    requeueStuck s id now = (false, s) ∨
      ∃ row s', requeueStuck s id now = (true, s') ∧ s.jobs.find id = some row ∧
        row.status = .running ∧
        Rewrites s s' id { row.pendingAt now with cancelRequested := false } ∧
        Revokes s s' id := by
  unfold requeueStuck
  cases hrow : s.jobs.find id with
  | none => exact Or.inl rfl
  | some row =>
    by_cases hrun : row.status = .running
    · simp only [hrun, if_true]
      exact Or.inr ⟨row, _, rfl, rfl, hrun, rewrites_update _ _ hrow,
        find_delete_key s.claims id⟩
    · simp [hrun]

theorem rewrites_startPending (now : Int)
    (hrow : s.jobs.find id = some row) (hpend : row.status = .pending) :
    Rewrites s (startPending s id now) id (row.startedBy now) := by
  refine ⟨?_, rfl, rfl, rfl⟩
  intro k
  have hkey : ∀ r : Job, (r.startedBy now).id = r.id := fun _ => rfl
  refine (find_update s.jobs _ (fun r => r.startedBy now) hkey k).trans ?_
  by_cases hk : k = id
  · subst hk
    simp [hrow, hpend, key_of_find hrow]
  · cases hk' : s.jobs.find k with
    | none => simp [hk]
    | some r =>
      have hne : r.id ≠ id := by
        intro heq
        exact hk ((key_of_find hk').symm.trans heq)
      simp [hk, hne]

theorem claimPending_spec (s : Store) (id : String) (now : Int) :
    claimPending s id now = (none, s) ∨
      ∃ row s', claimPending s id now = (some (row.startedBy now), s') ∧
        s.jobs.find id = some row ∧ row.status = .pending ∧
        Rewrites s s' id (row.startedBy now) ∧ s'.claims = s.claims := by
  cases hrow : s.jobs.find id with
  | none => exact Or.inl (by rw [claimPending, hrow])
  | some row =>
    by_cases hpend : row.status = .pending
    · have hw := rewrites_startPending now hrow hpend
      refine Or.inr ⟨row, startPending s id now, ?_, rfl, hpend, hw, rfl⟩
      simp only [claimPending, hrow, hpend, if_true]
      rw [hw.jobs, if_pos rfl]
    · left
      simp only [claimPending, hrow, hpend, if_false]

theorem commitSleep_ok {ns : Scope} {wakeAt : Int} {outcome : SleepOutcome}
    (h : commitSleep s step ns wakeAt limits now = .ok (outcome, s')) :
    ∃ steps, s' = { s with steps := steps } := by
  unfold commitSleep at h
  split at h
  · split at h
    · cases h
    · split at h
      · cases h
        exact ⟨s.steps, rfl⟩
      · cases h
  · obtain ⟨-, -, h⟩ := bind_eq_ok.mp h
    obtain ⟨-, -, h⟩ := bind_eq_ok.mp h
    obtain ⟨s₁, hins, h⟩ := bind_eq_ok.mp h
    cases h
    unfold insertStepRow at hins
    split at hins
    · cases hins
    · cases hins
      exact ⟨_, rfl⟩

theorem recordStepResult_ok {commit : StepCommit}
    (h : recordStepResult s step owner attempt epoch limits scope now = .ok (commit, s')) :
    ∃ ns s₁ steps, resolveAttemptFence s step.jobId owner attempt epoch scope true now =
      .ok (ns, s₁) ∧ s' = { s₁ with steps := steps } := by
  unfold recordStepResult at h
  simp only [] at h
  split at h
  · cases h
  obtain ⟨⟨ns, s₁⟩, hfence, h⟩ := bind_eq_ok.mp h
  refine ⟨ns, s₁, ?_⟩
  simp only [] at h
  split at h
  · split at h
    · cases h
    · split at h
      · cases h
        exact ⟨s'.steps, hfence, rfl⟩
      · cases h
  · obtain ⟨-, -, h⟩ := bind_eq_ok.mp h
    obtain ⟨-, -, h⟩ := bind_eq_ok.mp h
    split at h
    · cases h
    · obtain ⟨s₂, hins, h⟩ := bind_eq_ok.mp h
      cases h
      unfold insertStepRow at hins
      split at hins
      · cases hins
      · cases hins
        exact ⟨_, hfence, rfl⟩

theorem awaitSettle_ok {jobId : String} {deadlineMs : Int} {out : Option Int}
    (h : awaitSettle s jobId owner attempt epoch deadlineMs scope now = .ok (out, s')) :
    (out = none ∧ s' = s) ∨
      ∃ ns s₁, resolveAttemptFence s jobId owner attempt epoch scope true now = .ok (ns, s₁) ∧
        let deadline := ((s₁.claims.find jobId).bind ClaimRow.settleDeadlineMs).elim deadlineMs
          (max · deadlineMs)
        out = some deadline ∧
        s' = { s₁ with
          claims := s₁.claims.update (fun c => c.jobId = jobId) fun c =>
            { c with settleDeadlineMs := some deadline } } := by
  unfold awaitSettle at h
  split at h
  · cases h
    exact Or.inl ⟨rfl, rfl⟩
  · cases h
  · next ns s₁ hfence =>
    cases h
    exact Or.inr ⟨ns, s₁, hfence, rfl, rfl⟩

theorem sleepJob_ok {wakeAt : Int} {outcome : SleepOutcome}
    (h : sleepJob s step owner attempt epoch wakeAt limits scope now = .ok (outcome, s')) :
    ∃ row wakeAt, s.jobs.find step.jobId = some row ∧ row.status = .running ∧
      row.retryCount = attempt ∧
      Rewrites s s' step.jobId (row.pendingAt wakeAt) ∧ Revokes s s' step.jobId := by
  obtain ⟨⟨ns, s₁⟩, hfence, h⟩ := bind_eq_ok.mp h
  obtain ⟨⟨row, hrow, -, hrun, hatt⟩, claims, rfl, hclaims⟩ := resolveAttemptFence_ok hfence
  obtain ⟨⟨out, s₂⟩, hstep, h⟩ := bind_eq_ok.mp h
  obtain ⟨steps, rfl⟩ := commitSleep_ok hstep
  simp only [suspend, hrow, hrun, if_true, Except.ok.injEq, Prod.mk.injEq] at h
  obtain ⟨-, rfl⟩ := h
  refine ⟨row, out.wakeAt, hrow, hrun, hatt, ⟨?_, rfl, rfl, rfl⟩, ?_⟩
  · exact (rewrites_update (f := fun r => r.pendingAt out.wakeAt) (fun _ => rfl) claims hrow).jobs
  · intro k
    refine (find_delete_key claims step.jobId k).trans ?_
    by_cases hk : k = step.jobId
    · rw [if_pos hk, if_pos hk]
    · rw [if_neg hk, if_neg hk, hclaims k hk]

/-! ## Inserting -/

theorem insertJob_ok (h : insertJob s job = .ok s') : s.jobs.find job.id = none ∧
      (∀ k, s'.jobs.find k = if k = job.id then some job else s.jobs.find k) ∧
      s'.archived = s.archived ∧ s'.claims = s.claims ∧ s'.dead = s.dead ∧
      s'.edges = s.edges := by
  unfold insertJob at h
  split at h
  · cases h
  · cases hjobs : s.jobs.insert job with
    | none => simp [hjobs] at h
    | some jobs =>
      simp only [hjobs, Except.ok.injEq] at h
      subst h
      refine ⟨(insert_eq_some hjobs).1, fun k => ?_, rfl, rfl, rfl, rfl⟩
      refine (find_insert hjobs k).trans ?_
      by_cases hk : k = job.id
      · rw [if_pos hk, if_pos hk.symm]
      · rw [if_neg hk, if_neg (Ne.symm hk)]

theorem insertJobWithDeps_ok {dependsOn : List String}
    (h : insertJobWithDeps s job dependsOn = .ok s') :
    s.jobs.find job.id = none ∧
      (∀ k, s'.jobs.find k = if k = job.id then some job else s.jobs.find k) ∧
      s'.archived = s.archived ∧ s'.claims = s.claims ∧ s'.dead = s.dead ∧
      s'.edges = s.edges ++ dependsOn.map (fun dep => ⟨job.id, dep⟩) := by
  obtain ⟨s₁, hins, h⟩ := bind_eq_ok.mp h
  cases h
  obtain ⟨hnone, hjobs, harch, hclaims, hdead, hedges⟩ := insertJob_ok hins
  exact ⟨hnone, hjobs, harch, hclaims, hdead, congrArg (· ++ _) hedges⟩

theorem enqueue_ok {new : NewJob} (h : enqueue s new id now = .ok (job, s')) :
    job = new.intoJob id now ∧
      (∀ dep ∈ new.dependsOn, validateDependency s dep new.namespace = true) ∧
      insertJobWithDeps s (new.intoJob id now) new.dependsOn = .ok s' := by
  unfold enqueue at h
  simp only [] at h
  split at h
  · next hvalid =>
    obtain ⟨s₁, hins, h⟩ := bind_eq_ok.mp h
    cases h
    exact ⟨rfl, by simpa [NewJob.intoJob] using hvalid, hins⟩
  · cases h

theorem enqueueUnique_ok {new : NewJob} {out : Job × Bool}
    (h : enqueueUnique s new id now = .ok (out, s')) :
    s' = s ∨ ∃ job, enqueue s new id now = .ok (job, s') := by
  unfold enqueueUnique at h
  split at h
  · cases h
    exact Or.inl rfl
  · obtain ⟨⟨job, s₁⟩, henq, h⟩ := bind_eq_ok.mp h
    cases h
    exact Or.inr ⟨job, henq⟩

theorem enqueueBatch_ok {new : List Draft} {rows : List Job}
    (h : enqueueBatch s new now = .ok (rows, s')) :
    insertBatch s (new.map fun e => (e.1.intoJob e.2 now, e.1.dependsOn)) = .ok s' ∧
      ∀ e ∈ new, ∀ dep ∈ e.1.dependsOn,
        (∃ e' ∈ new, e'.2 = dep ∧ e'.1.namespace = e.1.namespace) ∨
          validateDependency s dep e.1.namespace = true := by
  unfold enqueueBatch at h
  simp only [] at h
  split at h
  · next hvalid =>
    obtain ⟨s₁, hins, h⟩ := bind_eq_ok.mp h
    cases h
    refine ⟨hins, fun e he dep hdep => ?_⟩
    have hmember := all_eq_true.mp (all_eq_true.mp hvalid _ (mem_map_of_mem he)) dep hdep
    split at hmember
    · next other hother =>
      obtain ⟨e', he', rfl⟩ := mem_map.mp (mem_of_find?_eq_some hother)
      have hkey := List.find?_some hother
      exact Or.inl ⟨e', he', of_decide_eq_true hkey, of_decide_eq_true hmember⟩
    · exact Or.inr hmember
  · cases h

theorem findDebounceTarget_ok {ns : Scope} {key : String} {target : Job}
    (h : findDebounceTarget s ns key = some target) :
    s.jobs.find target.id = some target ∧ target.debounceKey = some key ∧ target.namespace = ns ∧
      target.status = .pending ∧ s.claims.find target.id = none := by
  have hmem := mem_of_mem_take (mem_of_find?_eq_some h)
  rw [mem_insertionSort, mem_filter] at hmem
  simp only [Bool.and_eq_true, decide_eq_true_eq] at hmem
  obtain ⟨hin, ⟨hkey, hns⟩, hpend⟩ := hmem
  have hfree : (s.claims.find target.id).isNone = true := by simpa using List.find?_some h
  exact ⟨find_of_mem hin, hkey, hns, hpend, Option.isNone_iff_eq_none.mp hfree⟩

theorem enqueueDebounced_ok {new : NewJob} {options : DebounceOptions}
    (h : enqueueDebounced s new options id now = .ok (job, s')) :
    (∃ target, s.jobs.find target.id = some target ∧ target.namespace = new.namespace ∧
      s'.claims = s.claims ∧
      Rewrites s s' target.id (target.slid (new.intoWindow options id now) options)) ∨
    (∀ dep ∈ new.dependsOn, validateDependency s dep new.namespace = true) ∧
      insertJobWithDeps s (new.intoWindow options id now) new.dependsOn = .ok s' := by
  obtain ⟨key, -, h⟩ := bind_eq_ok.mp h
  simp only [] at h
  split at h
  · next target htarget =>
    cases h
    obtain ⟨hlive, -, hns, -⟩ := findDebounceTarget_ok htarget
    exact Or.inl ⟨target, hlive, hns, rfl, rewrites_update (f := fun r =>
      r.slid (new.intoWindow options id now) options) (fun _ => rfl) s.claims hlive⟩
  · split at h
    · next hvalid =>
      split at h
      · cases h
      · obtain ⟨s₁, hins, h⟩ := bind_eq_ok.mp h
        cases h
        exact Or.inr ⟨all_eq_true.mp hvalid, hins⟩
    · cases h

/-- A resurrection takes one entry out of the dead letters, and puts its job
in. -/
theorem retryDead_ok {serde : Serde} {deadId newId : String}
    (h : retryDead serde s deadId scope newId now = .ok (job, s')) :
    ∃ dead s₁, s.dead.find deadId = some dead ∧ visibleIn scope dead.namespace = true ∧
      job = (retryNewJob serde dead now).intoJob newId now ∧
      insertJob s ((retryNewJob serde dead now).intoJob newId now) = .ok s₁ ∧
      s' = { s₁ with dead := s₁.dead.delete fun row => row.id = dead.id } := by
  unfold retryDead at h
  split at h
  · cases h
  · next dead hdead =>
    split at h
    · next hvisible =>
      obtain ⟨s₂, h₂, h⟩ := bind_eq_ok.mp h
      cases h
      obtain ⟨s₁, h₁, h₂⟩ := bind_eq_ok.mp h₂
      refine ⟨dead, s₁, hdead, hvisible, rfl, h₁, ?_⟩
      split at h₂
      · cases h₂
        rfl
      · cases h₂
    · cases h

/-- The new rows `members` came in, each with its edges. -/
structure Inserts (s s' : Store) (members : List (Job × List String)) : Prop where
  added : ∀ m ∈ members, s'.jobs.find m.1.id = some m.1
  jobs : ∀ k, k ∉ members.map (fun m => m.1.id) → s'.jobs.find k = s.jobs.find k
  archived : s'.archived = s.archived
  edges : s'.edges = s.edges ++ members.flatMap fun m => m.2.map fun dep => ⟨m.1.id, dep⟩

theorem inserts_one {dependsOn : List String}
    (h : insertJobWithDeps s job dependsOn = .ok s') : Inserts s s' [(job, dependsOn)] := by
  obtain ⟨-, hjobs, harch, -, -, hedges⟩ := insertJobWithDeps_ok h
  refine ⟨?_, ?_, harch, by simpa using hedges⟩
  · intro m hm
    cases mem_singleton.mp hm
    rw [hjobs, if_pos rfl]
  · intro k hk
    have hne : k ≠ job.id := by simpa using hk
    rw [hjobs, if_neg hne]

theorem inserts_bare (h : insertJob s job = .ok s') : Inserts s s' [(job, [])] :=
  inserts_one (bind_eq_ok.mpr ⟨s', h, congrArg Except.ok (by simp)⟩)

theorem insertBatch_fresh : ∀ {members : List (Job × List String)} {s s' : Store},
    insertBatch s members = .ok s' → ∀ k ∈ members.map (fun m => m.1.id), s.jobs.find k = none
  | [], s, s', _, k, hk => by cases hk
  | (job, dependsOn) :: rest, s, s', h, k, hk => by
    obtain ⟨s₁, h₁, h₂⟩ := bind_eq_ok.mp h
    obtain ⟨hnone, hjobs, -⟩ := insertJobWithDeps_ok h₁
    by_cases hkey : k = job.id
    · rw [hkey, hnone]
    · have hin : k ∈ rest.map (fun m => m.1.id) :=
        (mem_cons.mp hk).resolve_left hkey
      rw [← insertBatch_fresh h₂ k hin, hjobs, if_neg hkey]

theorem insertBatch_ok : ∀ {members : List (Job × List String)} {s s' : Store},
    insertBatch s members = .ok s' → Inserts s s' members
  | [], s, s', h => by
    cases h
    exact ⟨by simp, by simp, rfl, by simp⟩
  | (job, dependsOn) :: rest, s, s', h => by
    obtain ⟨s₁, h₁, h₂⟩ := bind_eq_ok.mp h
    have hone := inserts_one h₁
    have hrest := insertBatch_ok h₂
    refine ⟨?_, ?_, ?_, ?_⟩
    · intro m hm
      rcases mem_cons.mp hm with rfl | hm
      · by_cases hin : job.id ∈ rest.map (fun m => m.1.id)
        · -- The key would have been taken.
          have hlive := hone.added _ (mem_singleton_self _)
          rw [insertBatch_fresh h₂ job.id hin] at hlive
          cases hlive
        · rw [hrest.jobs job.id hin]
          exact hone.added _ (mem_singleton_self _)
      · exact hrest.added m hm
    · intro k hk
      simp only [map_cons, mem_cons, not_or] at hk
      rw [hrest.jobs k hk.2]
      exact hone.jobs k (by simpa using hk.1)
    · rw [hrest.archived, hone.archived]
    · rw [hrest.edges, hone.edges]
      simp

/-! ## The transactions that archive -/

theorem complete_ok {result : Option Bytes} (h : complete s id result scope now = .ok s') :
    ∃ row, s.jobs.find id = some row ∧ row.status = .running ∧
      Archives s s' [{ row.finish .complete now row.error with result := result }] := by
  unfold complete at h
  cases hrow : s.jobs.find id with
  | none => simp [hrow] at h
  | some row =>
    simp only [hrow] at h
    split at h
    · next hguard => exact ⟨row, rfl, hguard.1, archiveJobRow_ok h⟩
    · cases h

theorem fail_ok (h : fail s id error now = .ok s') :
    ∃ row, s.jobs.find id = some row ∧ row.status = .running ∧
      Archives s s' [row.finish .failed now (some error)] := by
  unfold fail at h
  cases hrow : s.jobs.find id with
  | none => simp [hrow] at h
  | some row =>
    simp only [hrow] at h
    split at h
    · next hrun => exact ⟨row, rfl, hrun, archiveJobRow_ok h⟩
    · cases h

theorem cancelJobRow_ok {cancelled : Bool} (h : cancelJobRow s id scope now = .ok (cancelled, s')) :
    (cancelled = false ∧ s' = s) ∨
      (cancelled = true ∧ ∃ row, s.jobs.find id = some row ∧ row.status = .pending ∧
        visibleIn scope row.namespace = true ∧
        Archives s s' [row.finish .cancelled now row.error]) := by
  unfold cancelJobRow at h
  cases hrow : s.jobs.find id with
  | none =>
    simp only [hrow, Except.ok.injEq, Prod.mk.injEq] at h
    exact Or.inl ⟨h.1.symm, h.2.symm⟩
  | some row =>
    simp only [hrow] at h
    split at h
    · next hguard =>
      obtain ⟨s₁, h₁, h₂⟩ := bind_eq_ok.mp h
      cases h₂
      exact Or.inr ⟨rfl, row, rfl, hguard.1, hguard.2, archiveJobRow_ok h₁⟩
    · cases h
      exact Or.inl ⟨rfl, rfl⟩

theorem markCancelled_ok (h : markCancelled s id scope now = .ok s') :
    s' = s ∨ ∃ row, s.jobs.find id = some row ∧ visibleIn scope row.namespace = true ∧
      Archives s s' [row.finish .cancelled now (some "cancelled by request")] := by
  unfold markCancelled at h
  cases hrow : s.jobs.find id with
  | none =>
    simp only [hrow, Except.ok.injEq] at h
    exact Or.inl h.symm
  | some row =>
    simp only [hrow] at h
    split at h
    · next hvis => exact Or.inr ⟨row, rfl, hvis, archiveJobRow_ok h⟩
    · cases h
      exact Or.inl rfl

def CancelledFrom (s : Store) (rows : List Job) : Prop :=
  ∀ r ∈ rows, ∃ row, s.jobs.find r.id = some row ∧ row.status = .pending ∧
    r.status = .cancelled ∧ r.namespace = row.namespace

theorem cancelledFrom_map {error : Option String}
    (h : ∀ row ∈ rows, row ∈ s.jobs.rows ∧ row.status = .pending) :
    CancelledFrom s (rows.map fun row => row.finish .cancelled now error) := by
  intro r hr
  obtain ⟨row, hrow, rfl⟩ := mem_map.mp hr
  exact ⟨row, find_of_mem (h row hrow).1, (h row hrow).2, rfl, rfl⟩

theorem archivePending_ok {p : Job → Bool} (h : archivePending s p now error = .ok (rows, s')) :
    Archives s s' rows ∧ CancelledFrom s rows ∧
      ∀ r ∈ rows, ∃ row, s.jobs.find r.id = some row ∧ p row = true := by
  obtain ⟨s₁, h₁, h₂⟩ := bind_eq_ok.mp h
  cases h₂
  have hsel : ∀ row ∈ (s.jobs.rows.filter (fun row => row.status = .pending && p row)).take
      massArchiveBatch, row ∈ s.jobs.rows ∧ row.status = .pending ∧ p row = true := by
    intro row hrow
    have hmem := mem_of_mem_take hrow
    simpa using hmem
  refine ⟨archiveRows_ok h₁, cancelledFrom_map fun row hrow => ?_, ?_⟩
  · exact ⟨(hsel row hrow).1, (hsel row hrow).2.1⟩
  · intro r hr
    obtain ⟨row, hrow, rfl⟩ := mem_map.mp hr
    exact ⟨row, find_of_mem (hsel row hrow).1, (hsel row hrow).2.2⟩

theorem cascadeArchive_ok {ids : List String} {reason root : String}
        (h : cascadeArchive s ids reason root scope now = .ok (rows, s')) :
    Archives s s' rows ∧ CancelledFrom s rows ∧
      (∀ r ∈ rows, r.id ∈ ids) ∧
      ∀ id ∈ ids, ∀ row, s.jobs.find id = some row → row.status = .pending →
        visibleIn scope row.namespace = true → id ∈ rows.map Job.id := by
  obtain ⟨s₁, h₁, h₂⟩ := bind_eq_ok.mp h
  cases h₂
  have hsel : ∀ row ∈ s.jobs.rows.filter (fun row =>
      row.id ∈ ids && row.status = .pending && visibleIn scope row.namespace),
      row ∈ s.jobs.rows ∧ (row.id ∈ ids ∧ row.status = .pending) ∧
        visibleIn scope row.namespace = true := by
    intro row hrow
    simpa using hrow
  refine ⟨archiveRows_ok h₁, cancelledFrom_map fun row hrow => ?_, ?_, ?_⟩
  · exact ⟨(hsel row hrow).1, (hsel row hrow).2.1.2⟩
  · intro r hr
    obtain ⟨row, hrow, rfl⟩ := mem_map.mp hr
    exact (hsel row hrow).2.1.1
  · intro id hid row hrow hpend hvis
    obtain ⟨hmem, hkey⟩ := find_eq_some.mp hrow
    refine mem_map.mpr ⟨_, mem_map.mpr ⟨row, ?_, rfl⟩, hkey⟩
    simp [hmem, hkey, hid, hpend, hvis]

theorem cascadeCancel_ok {root reason : String}
    (h : cascadeCancel s root reason scope now = .ok (rows, s')) :
    Archives s s' rows ∧ CancelledFrom s rows := by
  unfold cascadeCancel at h
  simp only [] at h
  split at h
  · cases h
    exact ⟨.nil s, by simp [CancelledFrom]⟩
  · exact ⟨(cascadeArchive_ok h).1, (cascadeArchive_ok h).2.1⟩

theorem deadLetterIn_ok {serde : Serde} {metadata : Option String} {shed : Bool}
    (h : deadLetterIn serde s job error metadata shed id now = .ok s') :
    ∃ dead, s.dead.insert (deadLetterRow serde job error metadata shed id now) = some dead ∧
      ((∃ row, s.jobs.find job.id = some row ∧
          Archives { s with dead := dead } s' [row.finish .dead now (some error)]) ∨
        (s.jobs.find job.id = none ∧ s' = { s with dead := dead })) := by
  unfold deadLetterIn at h
  cases hdead : s.dead.insert (deadLetterRow serde job error metadata shed id now) with
  | none => simp [hdead] at h
  | some dead =>
    simp only [hdead] at h
    refine ⟨dead, rfl, ?_⟩
    cases hrow : s.jobs.find job.id with
    | none =>
      simp only [hrow, Except.ok.injEq] at h
      exact Or.inr ⟨rfl, h.symm⟩
    | some row =>
      simp only [hrow] at h
      exact Or.inl ⟨row, rfl, archiveJobRow_ok h⟩

/-! ## The claim loop -/

/-- **The loop rule.**  What survives archiving an expired candidate and
claiming a free one survives the loop. -/
theorem claimLoop_invariant {P : Store → Dequeued → Prop} {max : Nat} {cands : List Job}
    (hexpired : ∀ s out row job s', P s out → row ∈ cands → out.claimed.length ≠ max →
      row.expiredAt now = true → archiveExpiredCandidate s row.id now = .ok (job, s') →
      P s' { out with expired := out.expired ++ [job] })
    (hclaim : ∀ s out row job s', P s out → row ∈ cands → out.claimed.length ≠ max →
      (row.hasDeps = true → depsSatisfied s row.id = true) →
      claimPending s row.id now = (some job, s') →
      P s' { out with claimed := out.claimed ++ [job] }) :
    ∀ {rows : List Job} {s s' : Store} {out out' : Dequeued}, rows ⊆ cands →
      claimLoop max now s out rows = .ok (out', s') → P s out → P s' out'
  | [], s, s', out, out', _, h, hP => by
    cases h
    exact hP
  | row :: rows, s, s', out, out', hsub, h, hP => by
    have hrow : row ∈ cands := hsub mem_cons_self
    have hrest : rows ⊆ cands := fun r hr => hsub (mem_cons_of_mem _ hr)
    unfold claimLoop at h
    split at h
    · cases h
      exact hP
    next hfull =>
    split at h
    · next hexp =>
      obtain ⟨⟨job, s₁⟩, harch, h⟩ := bind_eq_ok.mp h
      exact claimLoop_invariant hexpired hclaim hrest h
        (hexpired _ _ _ _ _ hP hrow hfull hexp harch)
    split at h
    · exact claimLoop_invariant hexpired hclaim hrest h hP
    next hgate =>
    split at h
    · next job s₁ hjob =>
      refine claimLoop_invariant hexpired hclaim hrest h
        (hclaim _ _ _ _ _ hP hrow hfull ?_ hjob)
      intro hdeps
      simpa [hdeps] using hgate
    · next s₁ hnone =>
      rcases claimPending_spec s row.id now with hsame | ⟨row₀, s₂, hsome, -⟩
      · rw [hsame] at hnone
        cases hnone
        exact claimLoop_invariant hexpired hclaim hrest h hP
      · rw [hsome] at hnone
        cases hnone

theorem archiveExpiredCandidate_ok (h : archiveExpiredCandidate s id now = .ok (job, s')) :
    ∃ row, s.jobs.find id = some row ∧
      job = row.finish .cancelled now (some expiredBeforeExecution) ∧ Archives s s' [job] := by
  unfold archiveExpiredCandidate at h
  cases hrow : s.jobs.find id with
  | none => simp [hrow] at h
  | some row =>
    simp only [hrow] at h
    obtain ⟨s₁, harch, h⟩ := bind_eq_ok.mp h
    cases h
    exact ⟨row, rfl, rfl, archiveJobRow_ok harch⟩

end FlexiQ.Sql
