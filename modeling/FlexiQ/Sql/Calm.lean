/-
# `Sql.Calm` — transactions that start nothing

All transactions but two leave the set of running attempts alone or make it
smaller: only a dequeue makes a row `Running`, only a claim (or a fence that
re-asserts one) makes a claim.  `Calm s s'` is what the others have in
common.  It composes, so a run of calm transactions is calm, and whoever
keeps books on running attempts needs no more than this about them.
-/
import FlexiQ.Sql.Effects

namespace FlexiQ.Sql

open List FlexiQ.Lib Table

variable {s s' : Store} {now : Int} {id : String} {scope : Scope} {rows : List Job}

/-- No id is both live and archived. -/
def Separate (s : Store) : Prop :=
  ∀ k row, s.jobs.find k = some row → s.archived.find k = none

/-- Nothing was enqueued, started or claimed between `s` and `s'`. -/
structure Calm (s s' : Store) : Prop where
  row : ∀ k row', s'.jobs.find k = some row' → ∃ row, s.jobs.find k = some row ∧
    row'.namespace = row.namespace ∧
    (row'.status = .running → row.status = .running ∧ row'.retryCount = row.retryCount)
  claim : ∀ k c', s'.claims.find k = some c' → ∃ c, s.claims.find k = some c ∧
    c'.workerId = c.workerId ∧ c'.epoch = c.epoch ∧
    ∀ row, s.jobs.find k = some row → row.status = .running →
      ∃ row', s'.jobs.find k = some row' ∧ row'.status = .running
  archived : ∀ k, s.jobs.find k = none → s.archived.find k = none → s'.archived.find k = none
  separate : Separate s → Separate s'

namespace Calm

variable {s₁ : Store}

theorem refl (s : Store) : Calm s s where
  row := fun _ row' h => ⟨row', h, rfl, fun hr => ⟨hr, rfl⟩⟩
  claim := fun _ c' h => ⟨c', h, rfl, rfl, fun row hrow hrun => ⟨row, hrow, hrun⟩⟩
  archived := fun _ _ h => h
  separate := id

theorem trans (h₁ : Calm s s₁) (h₂ : Calm s₁ s') : Calm s s' where
  row := by
    intro k row' hrow'
    obtain ⟨row₁, hrow₁, hns₁, hrun₁⟩ := h₂.row k row' hrow'
    obtain ⟨row, hrow, hns, hrun⟩ := h₁.row k row₁ hrow₁
    refine ⟨row, hrow, hns₁.trans hns, fun hr => ?_⟩
    obtain ⟨hr₁, hcount₁⟩ := hrun₁ hr
    obtain ⟨hr₀, hcount⟩ := hrun hr₁
    exact ⟨hr₀, hcount₁.trans hcount⟩
  claim := by
    intro k c' hc'
    obtain ⟨c₁, hc₁, hw₁, he₁, hkeep₁⟩ := h₂.claim k c' hc'
    obtain ⟨c, hc, hw, he, hkeep⟩ := h₁.claim k c₁ hc₁
    refine ⟨c, hc, hw₁.trans hw, he₁.trans he, fun row hrow hrun => ?_⟩
    obtain ⟨row₁, hrow₁, hrun₁⟩ := hkeep row hrow hrun
    exact hkeep₁ row₁ hrow₁ hrun₁
  archived := by
    intro k hjob harch
    have hjob₁ : s₁.jobs.find k = none := by
      cases hfind : s₁.jobs.find k with
      | none => rfl
      | some row₁ =>
        obtain ⟨row, hrow, -⟩ := h₁.row k row₁ hfind
        rw [hjob] at hrow
        cases hrow
    exact h₂.archived k hjob₁ (h₁.archived k hjob harch)
  separate := fun h => h₂.separate (h₁.separate h)

theorem idle (h : Calm s s') {k : String}
    (hidle : ∀ row, s.jobs.find k = some row → row.status ≠ .running) :
    ∀ row', s'.jobs.find k = some row' → row'.status ≠ .running := by
  intro row' hrow' hrun
  obtain ⟨row, hrow, -, hback⟩ := h.row k row' hrow'
  exact hidle row hrow (hback hrun).1

/-! ## The three shapes of a calm transaction -/

theorem of_archives (h : Archives s s' rows)
    (hlive : ∀ r ∈ rows, ∃ row, s.jobs.find r.id = some row) : Calm s s' where
  row := by
    intro k row' hrow'
    rw [h.jobs] at hrow'
    split at hrow'
    · cases hrow'
    · exact ⟨row', hrow', rfl, fun hr => ⟨hr, rfl⟩⟩
  claim := by
    intro k c' hc'
    rw [h.claims] at hc'
    split at hc'
    · cases hc'
    · next hk =>
      refine ⟨c', hc', rfl, rfl, fun row hrow hrun => ⟨row, ?_, hrun⟩⟩
      rw [h.jobs, if_neg hk]
      exact hrow
  archived := by
    intro k hjob harch
    rw [h.archived k ?_]
    · exact harch
    · intro hmem
      obtain ⟨r, hr, hkey⟩ := mem_map.mp hmem
      obtain ⟨row, hrow⟩ := hlive r hr
      rw [hkey, hjob] at hrow
      cases hrow
  separate := by
    intro hsep k row hrow
    rw [h.jobs] at hrow
    split at hrow
    · cases hrow
    · next hk =>
      rw [h.archived k hk]
      exact hsep k row hrow

theorem of_rewrites {row row' : Job} (h : Rewrites s s' id row') (hclaims : Revokes s s' id)
    (hrow : s.jobs.find id = some row) (hns : row'.namespace = row.namespace)
    (hstop : row'.status ≠ .running) : Calm s s' where
  row := by
    intro k r' hr'
    rw [h.jobs] at hr'
    split at hr'
    · next hk =>
      cases hr'
      exact ⟨row, hk ▸ hrow, hns, fun hr => absurd hr hstop⟩
    · exact ⟨r', hr', rfl, fun hr => ⟨hr, rfl⟩⟩
  claim := by
    intro k c' hc'
    rw [hclaims] at hc'
    split at hc'
    · cases hc'
    · next hk =>
      refine ⟨c', hc', rfl, rfl, fun r hr hrun => ⟨r, ?_, hrun⟩⟩
      rw [h.jobs, if_neg hk]
      exact hr
  archived := by
    intro k _ harch
    rw [h.archived]
    exact harch
  separate := by
    intro hsep k r hr
    rw [h.archived]
    rw [h.jobs] at hr
    split at hr
    · next hk => exact hsep k row (hk ▸ hrow)
    · exact hsep k r hr

theorem of_claims {claims : Table String ClaimRow ClaimRow.jobId}
    (h : ∀ k c', claims.find k = some c' → ∃ c, s.claims.find k = some c ∧
      c'.workerId = c.workerId ∧ c'.epoch = c.epoch) : Calm s { s with claims := claims } where
  row := fun _ row' hr => ⟨row', hr, rfl, fun hrun => ⟨hrun, rfl⟩⟩
  claim := by
    intro k c' hc'
    obtain ⟨c, hc, hw, he⟩ := h k c' hc'
    exact ⟨c, hc, hw, he, fun row hrow hrun => ⟨row, hrow, hrun⟩⟩
  archived := fun _ _ harch => harch
  separate := id

theorem of_claims_delete (s : Store) (p : ClaimRow → Bool) :
    Calm s { s with claims := s.claims.delete p } := by
  refine of_claims fun k c' hc' => ?_
  rw [find_delete, Option.filter_eq_some_iff] at hc'
  exact ⟨c', hc'.1, rfl, rfl⟩

theorem of_dead (s : Store) (dead : Table String DeadRow DeadRow.id) :
    Calm s { s with dead := dead } where
  row := fun _ row' hr => ⟨row', hr, rfl, fun hrun => ⟨hrun, rfl⟩⟩
  claim := fun _ c' hc' => ⟨c', hc', rfl, rfl, fun row hrow hrun => ⟨row, hrow, hrun⟩⟩
  archived := fun _ _ harch => harch
  separate := id

end Calm

/-! ## Transaction by transaction -/

theorem CancelledFrom.live (h : CancelledFrom s rows) :
    ∀ r ∈ rows, ∃ row, s.jobs.find r.id = some row := by
  intro r hr
  obtain ⟨row, hrow, -⟩ := h r hr
  exact ⟨row, hrow⟩

theorem calm_of_archives_one {row r : Job} (h : Archives s s' [r])
    (hrow : s.jobs.find id = some row) (hid : r.id = row.id) : Calm s s' := by
  refine .of_archives h fun r' hr' => ?_
  cases mem_singleton.mp hr'
  exact ⟨row, by rw [hid, key_of_find hrow]; exact hrow⟩

theorem complete_calm {result : Option Bytes} (h : complete s id result scope now = .ok s') :
    Calm s s' := by
  obtain ⟨row, hrow, -, harch⟩ := complete_ok h
  exact calm_of_archives_one harch hrow rfl

theorem markCancelled_calm (h : markCancelled s id scope now = .ok s') : Calm s s' := by
  rcases markCancelled_ok h with rfl | ⟨row, hrow, -, harch⟩
  · exact .refl _
  · exact calm_of_archives_one harch hrow rfl

theorem retry_calm {nextAt : Int} (h : retry s id nextAt scope = .ok s') : Calm s s' := by
  obtain ⟨row, hrow, -, hw, hclaims⟩ := retry_ok h
  exact .of_rewrites hw hclaims hrow rfl (by simp [Job.pendingAt])

theorem requeueStuck_calm (s : Store) (id : String) (now : Int) :
    Calm s (requeueStuck s id now).2 := by
  rcases requeueStuck_spec s id now with h | ⟨row, s', h, hrow, -, hw, hclaims⟩
  · rw [h]
    exact .refl _
  · rw [h]
    exact .of_rewrites hw hclaims hrow rfl (by simp [Job.pendingAt])

theorem sleepJob_calm {step : NewJobStep} {owner : String} {attempt wakeAt : Int}
    {epoch : Option Int} {limits : StepLimits} {outcome : SleepOutcome}
    (h : sleepJob s step owner attempt epoch wakeAt limits scope now = .ok (outcome, s')) :
    Calm s s' := by
  obtain ⟨row, wake, hrow, -, -, hw, hclaims⟩ := sleepJob_ok h
  exact .of_rewrites hw hclaims hrow rfl (by simp [Job.pendingAt])

theorem cascadeCancel_calm {root reason : String}
    (h : cascadeCancel s root reason scope now = .ok (rows, s')) : Calm s s' := by
  obtain ⟨harch, hfrom⟩ := cascadeCancel_ok h
  exact .of_archives harch hfrom.live

theorem expirePendingJobs_calm (h : expirePendingJobs s now = .ok (rows, s')) : Calm s s' := by
  obtain ⟨harch, hfrom, -⟩ := archivePending_ok h
  exact .of_archives harch hfrom.live

theorem deadLetterIn_calm {serde : Serde} {job : Job} {error : String} {metadata : Option String}
    {shed : Bool} (h : deadLetterIn serde s job error metadata shed id now = .ok s') :
    Calm s s' := by
  obtain ⟨dead, -, ⟨row, hrow, harch⟩ | ⟨-, rfl⟩⟩ := deadLetterIn_ok h
  · exact (Calm.of_dead s dead).trans
      (calm_of_archives_one harch hrow rfl)
  · exact .of_dead s dead

theorem completeExecution_calm (s : Store) (id : String) (scope : Scope) :
    Calm s (completeExecution s id scope) := by
  unfold completeExecution
  split
  · exact .refl _
  · exact .of_claims_delete s _

theorem purgeExecutionClaims_calm (s : Store) (olderThanMs now : Int) :
    Calm s (purgeExecutionClaims s olderThanMs now) :=
  .of_claims_delete s _

theorem claimSettle_calm (s : Store) (id : String) (claimant : SettleClaimant)
    (scope : Scope) : Calm s (claimSettle s id claimant scope).2 := by
  unfold claimSettle
  split
  · exact .refl _
  split
  · split
    · refine .of_claims fun k c' hc' => ?_
      rw [find_update, Option.map_eq_some_iff] at hc'
      obtain ⟨c, hc, rfl⟩ := hc'
      refine ⟨c, hc, ?_, ?_⟩ <;> split <;> rfl
    · exact .refl _
  · exact .refl _

/-! ## A cascade goes through -/

theorem cascadeArchive_isOk (hsep : Separate s) (ids : List String) (reason root : String)
    (scope : Scope) (now : Int) :
    ∃ rows s', cascadeArchive s ids reason root scope now = .ok (rows, s') := by
  let picked := s.jobs.rows.filter fun row =>
    row.id ∈ ids && row.status = .pending && visibleIn scope row.namespace
  let cancelled := picked.map fun row =>
    row.finish .cancelled now (some (reason ++ ": " ++ root))
  have hfresh : ∀ r ∈ cancelled, s.archived.find r.id = none := by
    intro r hr
    obtain ⟨row, hrow, rfl⟩ := mem_map.mp hr
    have hlive : s.jobs.find row.id = some row := find_of_mem (mem_of_mem_filter hrow)
    exact hsep row.id row hlive
  have hnodup : (cancelled.map Job.id).Nodup := by
    have hids : cancelled.map Job.id = picked.map Job.id := map_map
    rw [hids]
    exact s.jobs.nodup.sublist (filter_sublist.map Job.id)
  obtain ⟨s', hs'⟩ := archiveRows_isOk hfresh hnodup
  exact ⟨cancelled, s', bind_eq_ok.mpr ⟨s', hs', rfl⟩⟩

/-! ## A dequeue is calm but for the job it starts -/

/-- A single dequeue archives some candidates, and then starts at most one
pending row of the namespace it was asked for. -/
theorem dequeueOrdered_ok {queue : String} {ns : Scope} {order : DispatchOrder}
    {out : Dequeued} (h : dequeueOrdered s queue now ns order = .ok (out, s')) :
    (out.claimed = [] ∧ Calm s s' ∧ s'.dead = s.dead) ∨
      ∃ row s₁, Calm s s₁ ∧ s₁.dead = s.dead ∧ s₁.jobs.find row.id = some row ∧
        row.status = .pending ∧ row.namespace = ns ∧ out.claimed = [row.startedBy now] ∧
        Rewrites s₁ s' row.id (row.startedBy now) ∧ s'.claims = s₁.claims := by
  have hcands : ∀ row ∈ scanDequeueCandidates s queue now ns 100 order,
      s.jobs.find row.id = some row ∧ row.namespace = ns := by
    intro row hrow
    have hmem := mem_of_mem_take hrow
    rw [orderedCandidates, mem_insertionSort, mem_filter] at hmem
    refine ⟨find_of_mem hmem.1, ?_⟩
    have hcand := hmem.2
    simp only [candidate, Bool.and_eq_true, decide_eq_true_eq] at hcand
    exact hcand.2
  refine claimLoop_invariant
    (P := fun s' out => (out.claimed = [] ∧ Calm s s' ∧ s'.dead = s.dead) ∨
      ∃ row s₁, Calm s s₁ ∧ s₁.dead = s.dead ∧ s₁.jobs.find row.id = some row ∧
        row.status = .pending ∧ row.namespace = ns ∧ out.claimed = [row.startedBy now] ∧
        Rewrites s₁ s' row.id (row.startedBy now) ∧ s'.claims = s₁.claims)
    ?_ ?_ (List.Subset.refl _) h (Or.inl ⟨rfl, .refl s, rfl⟩)
  · intro t out row job t' hP _ hroom _ harch
    obtain ⟨hnone, hcalm, hdead⟩ | ⟨_, _, _, _, _, _, _, hone, _, _⟩ := hP
    · obtain ⟨row₀, hrow₀, rfl, harch⟩ := archiveExpiredCandidate_ok harch
      exact Or.inl ⟨hnone, hcalm.trans (calm_of_archives_one harch hrow₀ rfl),
        harch.dead.trans hdead⟩
    · rw [hone] at hroom
      exact absurd rfl hroom
  · intro t out row job t' hP hrow hroom _ hclaim
    obtain ⟨hnone, hcalm, hdead⟩ | ⟨_, _, _, _, _, _, _, hone, _, _⟩ := hP
    · rcases claimPending_spec t row.id now with hfail | ⟨row₀, t₁, hsome, hfind, hpend, hw, hcl⟩
      · rw [hfail] at hclaim
        cases hclaim
      · rw [hsome] at hclaim
        cases hclaim
        have hid : row₀.id = row.id := key_of_find hfind
        obtain ⟨row₁, hrow₁, hns, -⟩ := hcalm.row row.id row₀ hfind
        rw [(hcands row hrow).1] at hrow₁
        cases hrow₁
        refine Or.inr ⟨row₀, t, hcalm, hdead, hid ▸ hfind, hpend, ?_, ?_, hid ▸ hw, hcl⟩
        · exact hns.trans (hcands row hrow).2
        · simp [hnone]
    · rw [hone] at hroom
      exact absurd rfl hroom

end FlexiQ.Sql
