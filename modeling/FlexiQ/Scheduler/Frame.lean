/-
# `Scheduler.Frame` — what the handling of a result can and cannot touch

Two facts about every call decide most of the bookkeeping arguments: whether
it is CALM on the store (`Sql.Calm`: it starts and claims nothing), and
whether it is REMOTE, that is, leaves the scheduler's own records alone.
Handling a result is one release of the job's record followed by calls that
are both.
-/
import FlexiQ.Scheduler.Maintenance
import FlexiQ.Sql.Calm

namespace FlexiQ.Scheduler

open FlexiQ.Lib FlexiQ.Lib.Prog FlexiQ.Sql

/-- The calls that start and claim nothing. -/
def Call.calm : Call → Bool
  | .reschedule .. => false
  | .dequeue .. => false
  | .claimExecution _ => false
  | .reclaimExecution .. => false
  | _ => true

/-- The calls that leave `InFlight` alone. -/
def Call.remote : Call → Bool
  | .releaseInFlight _ => false
  | .trackInFlight .. => false
  | .untrackInFlight _ => false
  | _ => true

section Commit

variable {n : Node} {P : Store → Prop} (hself : P n.store)

include hself

theorem store_commit_ {r : Result Store} (h : ∀ s', r = .ok s' → P s') :
    P (n.commit_ r).2.store := by
  cases r with
  | error => exact hself
  | ok s' => exact h s' rfl

theorem store_commit {α : Type} {r : Result (α × Store)}
    (h : ∀ a s', r = .ok (a, s') → P s') : P (n.commit r).2.store := by
  cases r with
  | error => exact hself
  | ok r => exact h r.1 r.2 rfl

end Commit

theorem perform_calm (cfg : Config) (env : Env) (c : Call) (n : Node) (h : c.calm = true) :
    Calm n.store (perform cfg env c n).2.store := by
  cases c with
  | complete => exact store_commit_ (.refl _) fun _ => complete_calm
  | markCancelled => exact store_commit_ (.refl _) fun _ => markCancelled_calm
  | retry => exact store_commit_ (.refl _) fun _ => retry_calm
  | deadLetter => exact store_commit_ (.refl _) fun _ => deadLetterIn_calm
  | cascadeCancel => exact store_commit (.refl _) fun _ _ => cascadeCancel_calm
  | expirePendingJobs => exact store_commit (.refl _) fun _ _ => expirePendingJobs_calm
  | completeExecution => exact completeExecution_calm _ _ _
  | purgeExecutionClaims => exact purgeExecutionClaims_calm _ _ _
  | claimSettle => exact claimSettle_calm _ _ _ _
  | reschedule | dequeue | claimExecution | reclaimExecution => cases h
  | _ => exact .refl _

theorem inFlight_commit_ (n : Node) (r : Result Store) : (n.commit_ r).2.inFlight = n.inFlight := by
  cases r <;> rfl

theorem inFlight_commit {α : Type} (n : Node) (r : Result (α × Store)) :
    (n.commit r).2.inFlight = n.inFlight := by
  cases r <;> rfl

theorem perform_inFlight (cfg : Config) (env : Env) (c : Call) (n : Node)
    (h : c.remote = true) : (perform cfg env c n).2.inFlight = n.inFlight := by
  cases c with
  | complete | markCancelled | retry | reschedule | deadLetter => exact inFlight_commit_ _ _
  | cascadeCancel | expirePendingJobs | dequeue => exact inFlight_commit _ _
  | releaseInFlight | trackInFlight | untrackInFlight => cases h
  | _ => rfl

theorem claimSettle_dead (s : Store) (jobId : String) (claimant : SettleClaimant)
    (scope : Scope) : (claimSettle s jobId claimant scope).2.dead = s.dead := by
  unfold claimSettle
  repeat' split
  all_goals rfl

theorem perform_dead (cfg : Config) (env : Env) (c : Call) (n : Node) (hc : c.calm = true)
    {k : String} (hk : k ≠ env.deadId) :
    (perform cfg env c n).2.store.dead.find k = n.store.dead.find k := by
  cases c with
  | deadLetter =>
    refine store_commit_ (P := fun s => s.dead.find k = _) rfl fun s' h => ?_
    obtain ⟨dead, hdead, hcase⟩ := deadLetterIn_ok h
    have heq : s'.dead = dead := by
      rcases hcase with ⟨row, -, harch⟩ | ⟨-, rfl⟩
      · exact harch.dead
      · rfl
    rw [heq, Table.find_insert hdead, if_neg]
    exact Ne.symm hk
  | complete =>
    refine store_commit_ (P := fun s => s.dead.find k = _) rfl fun s' h => ?_
    obtain ⟨row, -, -, harch⟩ := complete_ok h
    rw [harch.dead]
  | markCancelled =>
    refine store_commit_ (P := fun s => s.dead.find k = _) rfl fun s' h => ?_
    rcases markCancelled_ok h with rfl | ⟨row, -, -, harch⟩
    · rfl
    · rw [harch.dead]
  | retry =>
    refine store_commit_ (P := fun s => s.dead.find k = _) rfl fun s' h => ?_
    obtain ⟨row, -, -, hw, -⟩ := retry_ok h
    rw [hw.dead]
  | cascadeCancel =>
    refine store_commit (P := fun s => s.dead.find k = _) rfl fun rows s' h => ?_
    rw [(cascadeCancel_ok h).1.dead]
  | expirePendingJobs =>
    refine store_commit (P := fun s => s.dead.find k = _) rfl fun rows s' h => ?_
    rw [(archivePending_ok h).1.dead]
  | completeExecution =>
    simp only [perform, completeExecution]
    split <;> rfl
  | claimSettle => rw [perform, claimSettle_dead]
  | reschedule | dequeue | claimExecution | reclaimExecution => cases hc
  | _ => rfl

/-! ## The programs that handle a result -/

theorem run_releaseDispatch (cfg : Config) (env : Env) (jobId : String) (n : Node) :
    (releaseDispatch jobId).run (perform cfg env) n =
      ((n.inFlight.live jobId).or (n.inFlight.spent jobId),
        { n with inFlight := (n.inFlight.remove jobId).2 }) := by
  have hfst := n.inFlight.remove_fst jobId
  simp only [releaseDispatch, run_bind]
  simp only [Code.releaseInFlight, run_call, perform]
  cases h : n.inFlight.live jobId with
  | some =>
    rw [h] at hfst
    simp only [hfst, run_pure, Option.some_or]
  | none =>
    have hsame := InFlight.remove_of_live_none h
    simp only [hsame, Code.lastDispatch, run_call, perform, InFlight.lastDispatch, h,
      Option.none_or]

def Call.plain (c : Call) : Prop := c.calm = true ∧ c.remote = true

section Plain

variable {α : Type} {P : α → Prop} {p : Code α} (hp : p.Sat Call.plain P)
  (cfg : Config) (env : Env) (n : Node)

include hp

theorem plain_calm : Calm n.store (p.run (perform cfg env) n).2.store :=
  Sat.run_invariant (I := fun w : Node => Calm n.store w.store) _ hp
    (fun c w hc hw => hw.trans (perform_calm cfg env c w hc.1)) (.refl _)

theorem plain_inFlight : (p.run (perform cfg env) n).2.inFlight = n.inFlight :=
  Sat.run_invariant (I := fun w : Node => w.inFlight = n.inFlight) _ hp
    (fun c w hc hw => (perform_inFlight cfg env c w hc.2).trans hw) rfl

theorem plain_dead {k : String} (hk : k ≠ env.deadId) :
    (p.run (perform cfg env) n).2.store.dead.find k = n.store.dead.find k :=
  Sat.run_invariant (I := fun w : Node => w.store.dead.find k = n.store.dead.find k) _ hp
    (fun c w hc hw => (perform_dead cfg env c w hc.1 hk).trans hw) rfl

end Plain

def NotSuperseded (r : Result (ResultOutcome × List Job)) : Prop :=
  ∀ jobId cascaded, r ≠ .ok (.superseded jobId, cascaded)

theorem moveToDlq_plain (jobId : String) (job : Option Job) (error : String)
    (metadata : Option String) : (moveToDlq jobId job error metadata).Sat Call.plain
      fun _ => True := by
  unfold moveToDlq
  split
  · refine .bind (.call ⟨rfl, rfl⟩) fun r _ => ?_
    split
    · exact .pure trivial
    · exact .call ⟨rfl, rfl⟩
  · exact .bind (.call ⟨rfl, rfl⟩) fun _ _ => .pure trivial

theorem deadLettered_plain (jobId error taskName : String) (timedOut : Bool) (job : Option Job)
    (metadata : Option String) : (deadLettered jobId error taskName timedOut job metadata).Sat
      Call.plain NotSuperseded := by
  refine .bind (moveToDlq_plain ..) fun r _ => ?_
  split <;> exact .pure (by simp [NotSuperseded])

theorem transition_plain (result : JobResult) :
    (transition result).Sat Call.plain NotSuperseded := by
  cases result with
  | success jobId =>
    refine .bind (P := fun r => ∀ jobId, r ≠ .ok (.superseded jobId)) ?_ fun r hr => ?_
    · refine .bind (.call ⟨rfl, rfl⟩) fun r _ => ?_
      split
      · exact .pure (by simp)
      · exact .bind (.call ⟨rfl, rfl⟩) fun _ _ => .pure (by simp)
    · split
      · exact .pure (by simp [NotSuperseded])
      · next outcome =>
        refine .pure ?_
        intro jobId cascaded heq
        cases heq
        exact hr jobId rfl
  | failure =>
    refine .bind (.call ⟨rfl, rfl⟩) fun job _ => ?_
    split
    · exact deadLettered_plain ..
    split
    · refine .bind (.call ⟨rfl, rfl⟩) fun allowed _ => ?_
      split
      · exact deadLettered_plain ..
      · refine .bind (.call ⟨rfl, rfl⟩) fun nextAt _ => ?_
        refine .bind (.call ⟨rfl, rfl⟩) fun r _ => ?_
        split <;> exact .pure (by simp [NotSuperseded])
    · exact deadLettered_plain ..
  | cancelled =>
    refine .bind (.call ⟨rfl, rfl⟩) fun _ _ => ?_
    exact .bind (.call ⟨rfl, rfl⟩) fun _ _ => .pure (by simp [NotSuperseded])
  | slept =>
    exact .bind (.call ⟨rfl, rfl⟩) fun _ _ => .pure (by simp [NotSuperseded])

/-! ## An authorized result ends the attempt -/

def Idle (s : Store) (jobId : String) : Prop :=
  ∀ row, s.jobs.find jobId = some row → row.status ≠ .running

theorem idle_of_archives {s s' : Store} {rows : List Job} {jobId : String}
    (h : Archives s s' rows) (hmem : jobId ∈ rows.map Job.id) : Idle s' jobId := by
  intro row hrow
  rw [h.jobs, if_pos hmem] at hrow
  cases hrow

theorem idle_of_rewrites {s s' : Store} {jobId : String} {row' : Job}
    (h : Rewrites s s' jobId row') (hstop : row'.status ≠ .running) : Idle s' jobId := by
  intro row hrow
  rw [h.jobs, if_pos rfl] at hrow
  cases hrow
  exact hstop

section Stops

variable {cfg : Config} {env : Env} {n : Node} {row : Job}

theorem deadLetterIn_stops (serde : Serde) {s : Store} {id : String}
    (hrow : s.jobs.find row.id = some row) (hsep : Separate s) (hdead : s.dead.find id = none)
    (error : String) (metadata : Option String) (shed : Bool) (now : Int) :
    ∃ s', deadLetterIn serde s row error metadata shed id now = .ok s' ∧ Idle s' row.id := by
  obtain ⟨dead, hins⟩ := Table.insert_isSome (t := s.dead)
    (r := deadLetterRow serde row error metadata shed id now) hdead
  obtain ⟨s', harch⟩ := archiveJobRow_isOk (s := { s with dead := dead })
    (row.finish .dead now (some error)) (hsep row.id row hrow)
  refine ⟨s', ?_, idle_of_archives (archiveJobRow_ok harch) (by simp [Job.finish])⟩
  simp only [deadLetterIn, hins, hrow]
  exact harch

section

variable (hrow : n.store.jobs.find row.id = some row) (hsep : Separate n.store)
  (hdead : n.store.dead.find env.deadId = none)
include hrow hsep hdead

theorem moveToDlq_stops (jobId error : String) (metadata : Option String) :
    Idle ((moveToDlq jobId (some row) error metadata).run (perform cfg env) n).2.store row.id := by
  obtain ⟨s', hmove, hidle⟩ := deadLetterIn_stops cfg.serde hrow hsep hdead error
    metadata false env.now
  simp only [moveToDlq, run_bind, Code.deadLetter, run_call, perform, hmove,
    Node.commit_, Code.cascadeCancel]
  exact (store_commit (n := { n with store := s' }) (.refl s')
    fun _ _ => cascadeCancel_calm).idle hidle

theorem deadLettered_stops (jobId error taskName : String) (timedOut : Bool)
    (metadata : Option String) :
    Idle ((deadLettered jobId error taskName timedOut (some row) metadata).run
      (perform cfg env) n).2.store row.id := by
  simp only [deadLettered, run_bind]
  split <;> exact moveToDlq_stops hrow hsep hdead jobId error metadata

end

theorem transition_stops (hrow : n.store.jobs.find row.id = some row)
    (hrun : row.status = .running) (hvis : visibleIn cfg.namespace row.namespace = true)
    (hsep : Separate n.store) (hdead : n.store.dead.find env.deadId = none)
    {result : JobResult} (hjob : result.jobId = row.id) (hslept : result.isSlept = false) :
    Idle ((transition result).run (perform cfg env) n).2.store row.id := by
  have hget : getJob n.store row.id cfg.namespace = some row := by
    simp [getJob, hrow, hvis]
  cases result with
  | success jobId result =>
    obtain rfl : jobId = row.id := hjob
    obtain ⟨s', harch⟩ := archiveJobRow_isOk (s := n.store)
      ({ row.finish .complete env.now row.error with result := result })
      (hsep row.id row hrow)
    have hcomplete : complete n.store row.id result cfg.namespace env.now = .ok s' := by
      simp only [complete, hrow, hrun, hvis, and_self, if_true]
      exact harch
    have hidle : Idle s' row.id :=
      idle_of_archives (archiveJobRow_ok harch) (by simp [Job.finish])
    simp only [transition, finalizeSuccess, run_bind, Code.complete, run_call, perform,
      hcomplete, Node.commit_, Code.completeExecution, run_pure]
    exact (completeExecution_calm s' row.id cfg.namespace).idle hidle
  | failure jobId =>
    obtain rfl : jobId = row.id := hjob
    simp only [transition, transitionFailure, run_bind, Code.getJob, run_call, perform,
      hget]
    split
    · exact deadLettered_stops hrow hsep hdead _ _ _ _ _
    split
    · cases hbudget : env.budget with
      | false =>
        simp only [run_bind, Code.retryBudgetAllows, run_call, perform, hbudget,
          Bool.not_false, if_true]
        exact deadLettered_stops hrow hsep hdead _ _ _ _ _
      | true =>
        obtain ⟨s', hretry⟩ := retry_isOk hrow hvis env.nextRetryAt
        simp only [run_bind, Code.retryBudgetAllows, run_call, perform, hbudget,
          Bool.not_true, Bool.false_eq_true, if_false, Code.nextRetryAt, Code.retry, hretry,
          Node.commit_, run_pure]
        obtain ⟨row₀, -, -, hw, -⟩ := retry_ok hretry
        exact idle_of_rewrites hw (by simp [Job.pendingAt])
    · exact deadLettered_stops hrow hsep hdead _ _ _ _ _
  | cancelled jobId =>
    obtain rfl : jobId = row.id := hjob
    obtain ⟨s', harch⟩ := archiveJobRow_isOk (s := n.store)
      (row.finish .cancelled env.now (some "cancelled by request"))
      (hsep row.id row hrow)
    have hmark : markCancelled n.store row.id cfg.namespace env.now = .ok s' := by
      simp only [markCancelled, hrow, hvis, if_true]
      exact harch
    simp only [transition, run_bind, Code.markCancelled, run_call, perform, hmark,
      Node.commit_, Code.getJob, run_pure]
    exact idle_of_archives (archiveJobRow_ok harch) (by simp [Job.finish])
  | slept => cases hslept

end Stops

end FlexiQ.Scheduler
