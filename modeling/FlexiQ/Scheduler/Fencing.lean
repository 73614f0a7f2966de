/-
# `Scheduler.Fencing` — which dispatch a result is applied to

One scheduler over a whole history: jobs are enqueued, dispatched and
dispatched again, timed out, requeued, put to sleep, and the workers' results
arrive in any order.  The history keeps a log of the dispatches that reached
a worker, so that "the dispatch that produced this result" has a meaning; the
scheduler itself never sees that log.

The scheduler's own records are per JOB, so a late result is checked against
whatever dispatch of its job came last.

What carries the induction is `Books`: a running row always has a live
record, of that very attempt, and a claim never outlives the row's run.
-/
import FlexiQ.Lib.Runs
import FlexiQ.Scheduler.Frame
import FlexiQ.Scheduler.Poller

namespace FlexiQ.Scheduler

open List FlexiQ.Lib FlexiQ.Sql

variable {k : String} {s s' : Store} {d : Nat} {job : Job} {now : Int}

/-! ## The history -/

/-- A dispatch that reached a worker, and whether it went to sleep. -/
structure Dispatch where
  jobId : String
  record : DispatchRecord
  slept : Bool
  deriving DecidableEq, Repr

/-- A scheduler, the dispatches it made, and the ids minted so far. -/
structure History where
  node : Node
  log : List Dispatch
  minted : List String
  deriving DecidableEq

def History.start : History := ⟨⟨.empty, .empty⟩, [], []⟩

inductive Event
  | enqueue (new : NewJob) (id : String)
  | dispatch (queue : String) (order : DispatchOrder) (gates : Gates)
  | expirePending
  | purgeClaims (olderThanMs : Int)
  | reapStale (jobId : String)
  | requeueStuck (jobId : String)
  | sleep (d : Nat) (step : NewJobStep) (wakeAt : Int) (limits : StepLimits)
  | result (d : Nat) (result : JobResult)
  deriving DecidableEq, Repr

def handedOff (cfg : Config) : Result Dispatched → List Dispatch
  | .ok (.sent job epoch) =>
    [⟨job.id, cfg.record job.taskName job.queue job.retryCount epoch, false⟩]
  | _ => []

def History.handle (cfg : Config) (env : Env) (h : History) (result : JobResult) :
    Result ResultOutcome × Node :=
  (handleResult result).run (perform cfg env) h.node

/-- One event.  A minted id is new, a result names the job of the dispatch
it comes from, and a sleep is acknowledged only once it was committed. -/
def History.next (cfg : Config) (h : History) : Env × Event → Option History
  | (env, .enqueue new id) =>
    if id ∈ h.minted then none
    else some { h with
      node := (h.node.commit (Sql.enqueue h.node.store new id env.now)).2
      minted := id :: h.minted }
  | (env, .dispatch queue order gates) =>
    if env.deadId ∈ h.minted then none
    else
      let (sent, node) := (tryDispatch queue order gates).run (perform cfg env) h.node
      some ⟨node, h.log ++ handedOff cfg sent, env.deadId :: h.minted⟩
  | (env, .expirePending) =>
    some { h with
      node := ((Code.expirePendingJobs env.now).run (perform cfg env) h.node).2 }
  | (env, .purgeClaims olderThanMs) =>
    some { h with
      node := ((Code.purgeExecutionClaims olderThanMs).run (perform cfg env) h.node).2 }
  | (env, .reapStale jobId) =>
    if env.deadId ∈ h.minted then none
    else
      ((reapStaleJobs h.node.store env.now cfg.namespace).find? (·.job.id = jobId)).map
        fun stale => { h with
          node := ((reapStaleJob env.now stale).run (perform cfg env) h.node).2
          minted := env.deadId :: h.minted }
  | (env, .requeueStuck jobId) =>
    some { h with
      node := { h.node with store := (Sql.requeueStuck h.node.store jobId env.now).2 } }
  | (env, .sleep d step wakeAt limits) =>
    (h.log[d]?).bind fun dispatch =>
      if step.jobId = dispatch.jobId then
        match sleepJob h.node.store step dispatch.record.owner dispatch.record.attempt
            dispatch.record.epoch wakeAt limits cfg.namespace env.now with
        | .ok (_, store) => some { h with
            node := { h.node with store := store }
            log := h.log.set d { dispatch with slept := true } }
        | .error _ => some h
      else none
  | (env, .result d result) =>
    (h.log[d]?).bind fun dispatch =>
      if result.jobId = dispatch.jobId ∧ (result.isSlept → dispatch.slept) ∧
          env.deadId ∉ h.minted then
        some { h with node := (h.handle cfg env result).2, minted := env.deadId :: h.minted }
      else none

/-! ## The property, and when it holds -/

/-- Dispatch `d` is the last of its job. -/
def isLatest (log : List Dispatch) (d : Nat) : Bool :=
  match log[d]? with
  | some dispatch => (log.drop (d + 1)).all (fun later => later.jobId ≠ dispatch.jobId)
  | none => false

/-- A result of dispatch `d` is applied only if `d` is the latest dispatch of
its job; otherwise it is answered `Superseded`, and the stored job, its claim
and the scheduler's records stay as they are. -/
def AppliedToItsDispatch (cfg : Config) (env : Env) (h : History) (d : Nat)
    (result : JobResult) : Prop :=
  isLatest h.log d = true ∨
    ((h.handle cfg env result).1 = .ok (.superseded result.jobId) ∧
      (h.handle cfg env result).2.store.jobs.find result.jobId =
        h.node.store.jobs.find result.jobId ∧
      (h.handle cfg env result).2.store.archived.find result.jobId =
        h.node.store.archived.find result.jobId ∧
      (h.handle cfg env result).2.store.claims.find result.jobId =
        h.node.store.claims.find result.jobId ∧
      (h.handle cfg env result).2.inFlight = h.node.inFlight)
  deriving Decidable

/-- The result is the latest dispatch's; or no dispatch of the job is in
flight, the last one is remembered, and the result is no sleep. -/
def Settleable (h : History) (d : Nat) (result : JobResult) : Prop :=
  isLatest h.log d = true ∨
    (h.node.inFlight.live result.jobId = none ∧
      (h.node.inFlight.spent result.jobId).isSome = true ∧ result.isSlept = false)
  deriving Decidable

def ResultsSettleable (h : History) : Env × Event → Prop
  | (_, .result d result) => Settleable h d result
  | _ => True

instance (h : History) (e : Env × Event) : Decidable (ResultsSettleable h e) := by
  rcases e with ⟨_, e⟩
  cases e <;> unfold ResultsSettleable <;> infer_instance

/-! ## The books -/

/-- The scheduler's records agree with the store.  `busy` is a job on its way
through a dispatch, which the clauses leave out. -/
structure Books (cfg : Config) (busy : Option String) (log : List Dispatch)
    (minted : List String) (n : Node) : Prop where
  separate : Separate n.store
  fresh : ∀ k, k ∉ minted → n.store.jobs.find k = none ∧ n.store.archived.find k = none ∧
    n.store.dead.find k = none
  running : ∀ k row, busy ≠ some k → n.store.jobs.find k = some row → row.status = .running →
    ∃ r, n.inFlight.live k = some r ∧ r.owner = cfg.claimOwner ∧ r.attempt = row.retryCount ∧
      row.namespace = cfg.namespace
  claimed : ∀ k c, busy ≠ some k → n.store.claims.find k = some c →
    (∃ row, n.store.jobs.find k = some row ∧ row.status = .running) ∧
      ∀ r, n.inFlight.live k = some r → c.workerId = cfg.claimOwner ∧ c.epoch = r.epoch
  sleepers : ∀ d dispatch, log[d]? = some dispatch → dispatch.slept = true →
    isLatest log d = true → busy ≠ some dispatch.jobId → Idle n.store dispatch.jobId

theorem Books.start (cfg : Config) : Books cfg none [] [] History.start.node where
  separate := fun _ _ h => by cases h
  fresh := fun _ _ => ⟨rfl, rfl, rfl⟩
  running := fun _ _ _ h => by cases h
  claimed := fun _ _ _ h => by cases h
  sleepers := fun _ _ h => by simp at h

section Books

variable {cfg : Config} {env : Env} {busy : Option String} {log : List Dispatch}
  {minted : List String} {n n' : Node}

theorem Books.authorized {row : Job} {r : DispatchRecord}
    (hb : Books cfg none log minted n) (hrow : n.store.jobs.find k = some row)
    (hrun : row.status = .running) (hlive : n.inFlight.live k = some r) :
    authorizeAttempt n.store k r.owner r.attempt r.epoch cfg.namespace = .ok .authorized := by
  obtain ⟨r', hr', howner, hatt, hns⟩ := hb.running k row (by simp) hrow hrun
  rw [hlive] at hr'
  cases hr'
  have hvis : visibleIn cfg.namespace row.namespace = true := hns ▸ visibleIn_self _
  simp only [authorizeAttempt, resolveAttemptFence, hrow, hvis, hrun, hatt]
  cases hclaim : n.store.claims.find k with
  | none => simp
  | some c =>
    obtain ⟨hw, he⟩ := (hb.claimed k c (by simp) hclaim).2 r hlive
    cases hepoch : r.epoch <;> simp [hw, howner, he, hepoch, epochsAgree]

theorem superseded_of_idle (h : Idle s k) (owner : String)
    (attempt : Int) (epoch : Option Int) (scope : Scope) :
    authorizeAttempt s k owner attempt epoch scope = .ok .superseded := by
  cases hrow : s.jobs.find k with
  | none => simp [authorizeAttempt, resolveAttemptFence, hrow]
  | some row => simp [authorizeAttempt, resolveAttemptFence, hrow, h row hrow]

theorem Books.mono {minted' : List String} (hb : Books cfg busy log minted n)
    (h : ∀ k, k ∈ minted → k ∈ minted') : Books cfg busy log minted' n :=
  { hb with fresh := fun k hk => hb.fresh k fun hmem => hk (h k hmem) }

/-- **Calm steps keep the books**, provided a record only goes when the job
is idle. -/
theorem Books.calm (hb : Books cfg busy log minted n) (hc : Calm n.store n'.store)
    (hdead : ∀ k, k ∉ minted → n'.store.dead.find k = n.store.dead.find k)
    (hlive : ∀ k, n'.inFlight.live k = n.inFlight.live k ∨
      (n'.inFlight.live k = none ∧ Idle n'.store k)) : Books cfg busy log minted n' where
  separate := hc.separate hb.separate
  fresh := by
    intro k hk
    obtain ⟨hjob, harch, hnodead⟩ := hb.fresh k hk
    refine ⟨?_, hc.archived k hjob harch, (hdead k hk).trans hnodead⟩
    cases hrow' : n'.store.jobs.find k with
    | none => rfl
    | some row' =>
      obtain ⟨row, hrow, -⟩ := hc.row k row' hrow'
      rw [hjob] at hrow
      cases hrow
  running := by
    intro k row' hbusy hrow' hrun'
    obtain ⟨row, hrow, hns, hback⟩ := hc.row k row' hrow'
    obtain ⟨hrun, hcount⟩ := hback hrun'
    obtain ⟨r, hr, howner, hatt, hns'⟩ := hb.running k row hbusy hrow hrun
    rcases hlive k with hsame | ⟨-, hidle⟩
    · exact ⟨r, hsame.trans hr, howner, hatt.trans hcount.symm, hns.trans hns'⟩
    · exact absurd hrun' (hidle row' hrow')
  claimed := by
    intro k c' hbusy hc'
    obtain ⟨c, hclaim, hw, he, hkeep⟩ := hc.claim k c' hc'
    obtain ⟨⟨row, hrow, hrun⟩, hrec⟩ := hb.claimed k c hbusy hclaim
    refine ⟨hkeep row hrow hrun, fun r hr => ?_⟩
    rcases hlive k with hsame | ⟨hnone, -⟩
    · obtain ⟨hw', he'⟩ := hrec r (hsame.symm.trans hr)
      exact ⟨hw.trans hw', he.trans he'⟩
    · rw [hnone] at hr
      cases hr
  sleepers := fun d dispatch hd hs hl hbusy => hc.idle (hb.sleepers d dispatch hd hs hl hbusy)

theorem Books.plain {α : Type} {P : α → Prop} {p : Code α} (hp : p.Sat Call.plain P)
    (hb : Books cfg busy log minted n) (hmem : env.deadId ∈ minted) :
    Books cfg busy log minted (p.run (perform cfg env) n).2 := by
  refine hb.calm (plain_calm hp cfg env n) ?_ fun k => Or.inl ?_
  · intro k hk
    exact plain_dead hp cfg env n fun heq => hk (heq ▸ hmem)
  · rw [plain_inFlight hp]

theorem Books.close_idle (hb : Books cfg (some k) log minted n)
    (hidle : Idle n.store k) (hclaim : n.store.claims.find k = none) :
    Books cfg none log minted n where
  separate := hb.separate
  fresh := hb.fresh
  running := by
    intro k' row _ hrow hrun
    refine hb.running k' row ?_ hrow hrun
    rintro heq
    cases heq
    exact hidle row hrow hrun
  claimed := by
    intro k' c _ hc
    refine hb.claimed k' c ?_ hc
    rintro heq
    cases heq
    rw [hclaim] at hc
    cases hc
  sleepers := by
    intro d dispatch hd hs hl _
    by_cases hk : k = dispatch.jobId
    · exact hk ▸ hidle
    · exact hb.sleepers d dispatch hd hs hl (by simpa using hk)

/-! ## A dispatch -/

theorem isLatest_append {dispatch new : Dispatch} (hd : log[d]? = some dispatch)
    (h : isLatest (log ++ [new]) d = true) :
    isLatest log d = true ∧ new.jobId ≠ dispatch.jobId := by
  have hlt : d < log.length := (List.getElem?_eq_some_iff.mp hd).1
  have hd' : (log ++ [new])[d]? = some dispatch := by
    rw [List.getElem?_append_left hlt]
    exact hd
  simp only [isLatest, hd'] at h
  rw [drop_append_of_le_length (by omega), all_append, Bool.and_eq_true] at h
  refine ⟨by simpa [isLatest, hd] using h.1, ?_⟩
  simpa using h.2

theorem Books.close_sent {epoch : Option Int} {c : ClaimRow}
    (hb : Books cfg (some job.id) log minted n)
    (hjob : n.store.jobs.find job.id = some job) (hns : job.namespace = cfg.namespace)
    (hclaim : n.store.claims.find job.id = some c) (howner : c.workerId = cfg.claimOwner)
    (hepoch : c.epoch = epoch) (hrun : job.status = .running) :
    let record := cfg.record job.taskName job.queue job.retryCount epoch
    Books cfg none (log ++ [⟨job.id, record, false⟩]) minted
      { n with inFlight := n.inFlight.insert job.id record } where
  separate := hb.separate
  fresh := hb.fresh
  running := by
    intro k row _ hrow hrunning
    simp only [InFlight.live_insert]
    by_cases hk : job.id = k
    · subst hk
      rw [show n.store.jobs.find job.id = some row from hrow] at hjob
      cases hjob
      exact ⟨_, if_pos rfl, rfl, rfl, hns⟩
    · rw [if_neg hk]
      exact hb.running k row (by simpa using hk) hrow hrunning
  claimed := by
    intro k c' _ hc'
    simp only [InFlight.live_insert]
    by_cases hk : job.id = k
    · subst hk
      rw [show n.store.claims.find job.id = some c' from hc'] at hclaim
      cases hclaim
      refine ⟨⟨job, hjob, hrun⟩, fun r hr => ?_⟩
      rw [if_pos rfl] at hr
      cases hr
      exact ⟨howner, hepoch⟩
    · rw [if_neg hk]
      exact hb.claimed k c' (by simpa using hk) hc'
  sleepers := by
    intro d dispatch hd hslept hlatest _
    by_cases hlt : d < log.length
    · rw [List.getElem?_append_left hlt] at hd
      obtain ⟨hlatest', hne⟩ := isLatest_append hd hlatest
      exact hb.sleepers d dispatch hd hslept hlatest' (by simpa using hne)
    · -- The new entry has not slept.
      rw [List.getElem?_append_right (by omega), List.getElem?_singleton] at hd
      split at hd
      · cases hd
        cases hslept
      · cases hd

/-- A job taken off the queue and not yet claimed. -/
structure Taken (cfg : Config) (log : List Dispatch) (minted : List String) (n : Node)
    (job : Job) : Prop where
  books : Books cfg (some job.id) log minted n
  row : n.store.jobs.find job.id = some job
  running : job.status = .running
  ns : job.namespace = cfg.namespace

theorem Books.rewrite {row row' : Job}
    (hb : Books cfg busy log minted n) (hbusy : ∀ j, j ≠ k → busy ≠ some j)
    (hrow : n.store.jobs.find k = some row) (hw : Rewrites n.store s' k row')
    (hclaims : ∀ j, j ≠ k → s'.claims.find j = n.store.claims.find j) :
    Books cfg (some k) log minted { n with store := s' } := by
  have hother : ∀ j, some k ≠ some j → j ≠ k := by
    intro j hj heq
    exact hj (by rw [heq])
  have hfind : ∀ j, j ≠ k → s'.jobs.find j = n.store.jobs.find j := by
    intro j hj
    rw [hw.jobs, if_neg hj]
  refine ⟨?_, ?_, ?_, ?_, ?_⟩
  · intro j r hr
    rw [show s'.archived = n.store.archived from hw.archived]
    by_cases hj : j = k
    · exact hb.separate j row (hj ▸ hrow)
    · rw [hfind j hj] at hr
      exact hb.separate j r hr
  · intro j hj
    obtain ⟨hjob, harch, hnodead⟩ := hb.fresh j hj
    refine ⟨?_, by rw [hw.archived]; exact harch, by rw [hw.dead]; exact hnodead⟩
    rw [hfind j]
    · exact hjob
    · rintro rfl
      rw [hjob] at hrow
      cases hrow
  · intro j r hj hr
    rw [hfind j (hother j hj)] at hr
    exact hb.running j r (hbusy j (hother j hj)) hr
  · intro j c hj hc
    rw [hclaims j (hother j hj)] at hc
    rw [hfind j (hother j hj)]
    exact hb.claimed j c (hbusy j (hother j hj)) hc
  · intro d dispatch hd hs hl hj r hr
    rw [hfind _ (hother _ hj)] at hr
    exact hb.sleepers d dispatch hd hs hl (hbusy _ (hother _ hj)) r hr

theorem Books.take {queue : String} {order : DispatchOrder} {out : Dequeued}
    (hb : Books cfg none log minted n)
    (h : dequeueOrdered n.store queue now cfg.namespace order = .ok (out, s')) :
    (out.claimed = [] ∧ Books cfg none log minted { n with store := s' }) ∨
      ∃ job, out.claimed = [job] ∧ Taken cfg log minted { n with store := s' } job ∧
        s'.claims.find job.id = none ∧ s'.dead = n.store.dead := by
  rcases dequeueOrdered_ok h with
    ⟨hnone, hcalm, hdead⟩ | ⟨row, s₁, hcalm, hdead, hrow, hpend, hns, hone, hw, hclaims⟩
  · exact Or.inl ⟨hnone, hb.calm hcalm (fun k _ => by rw [hdead]) fun _ => Or.inl rfl⟩
  · have hb₁ : Books cfg none log minted { n with store := s₁ } :=
      hb.calm hcalm (fun k _ => by rw [hdead]) fun _ => Or.inl rfl
    refine Or.inr ⟨row.startedBy now, hone, ⟨?_, ?_, rfl, hns⟩, ?_, ?_⟩
    · exact hb₁.rewrite (by simp) hrow hw fun j _ => by rw [hclaims]
    · show s'.jobs.find row.id = some (row.startedBy now)
      rw [hw.jobs, if_pos rfl]
    · -- A claim would mean that the row had been running.
      show s'.claims.find row.id = none
      rw [hclaims]
      cases hc : s₁.claims.find row.id with
      | none => rfl
      | some c =>
        obtain ⟨⟨r, hr, hrunning⟩, -⟩ := hb₁.claimed row.id c (by simp) hc
        rw [show s₁.jobs.find row.id = some r from hr] at hrow
        cases hrow
        rw [hpend] at hrunning
        cases hrunning
    · rw [hw.dead, hdead]

def Balanced (cfg : Config) (log : List Dispatch) (minted : List String)
    (done : Result Dispatched × Node) : Prop :=
  Books cfg none (log ++ handedOff cfg done.1) minted done.2

theorem Books.balanced {done : Result Dispatched × Node}
    (hb : Books cfg none log minted done.2) (hres : handedOff cfg done.1 = []) :
    Balanced cfg log minted done := by
  rw [Balanced, hres, append_nil]
  exact hb

theorem Taken.reschedule (ht : Taken cfg log minted n job)
    (hclaim : n.store.claims.find job.id = none) (nextAt : Int) :
    Balanced cfg log minted ((rescheduleDeferred job.id nextAt).run (perform cfg env) n) := by
  obtain ⟨s', hs'⟩ := reschedule_isOk ht.row ht.ns nextAt
  simp only [rescheduleDeferred, Prog.run_bind, Code.reschedule, Prog.run_call, perform, hs',
    Node.commit_, Prog.run_pure]
  obtain ⟨row, hrow, -, hw, hclaims⟩ := reschedule_ok hs'
  refine Books.balanced (Books.close_idle (k := job.id) ?_ ?_ ?_) rfl
  · refine ht.books.rewrite ?_ ht.row hw fun j _ => by rw [hclaims]
    intro j hj heq
    exact hj (Option.some.inj heq).symm
  · exact idle_of_rewrites hw (by simp [Job.pendingAt])
  · rw [hclaims]
    exact hclaim

theorem Taken.rollback (ht : Taken cfg log minted n job) (nextAt : Int) : Balanced cfg log minted
      ((rollbackClaimAndReschedule job.id nextAt).run (perform cfg env) n) := by
  have hrelease := completeExecution_visible ht.row ht.ns
  simp only [rollbackClaimAndReschedule, Prog.run_bind, Code.completeExecution, Prog.run_call,
    perform, hrelease]
  have hreleased : Taken cfg log minted { n with store := { n.store with
      claims := n.store.claims.delete (fun claim => claim.jobId = job.id) } } job :=
    ⟨ht.books.calm (.of_claims_delete _ _) (fun _ _ => rfl) fun _ => Or.inl rfl,
      ht.row, ht.running, ht.ns⟩
  exact hreleased.reschedule
    ((Table.find_delete_key n.store.claims job.id job.id).trans (if_pos rfl)) nextAt

theorem shedToDlq_plain (cfg : Config) (job : Job) (reason metadata : String) :
    (shedToDlq job reason metadata).Sat Call.plain fun res => handedOff cfg res = [] := by
  refine .bind (.call ⟨rfl, rfl⟩) fun r _ => ?_
  split
  · exact .pure rfl
  · refine .bind (.call ⟨rfl, rfl⟩) fun r' _ => ?_
    split <;> exact .pure rfl

theorem unclaimed_of_calm (h : Calm s s')
    (hk : s.claims.find k = none) : s'.claims.find k = none := by
  cases hfind : s'.claims.find k with
  | none => rfl
  | some c' =>
    obtain ⟨c, hc, -⟩ := h.claim k c' hfind
    rw [hk] at hc
    cases hc

section

variable (ht : Taken cfg log minted n job)
include ht

theorem Taken.shed
    (hclaim : n.store.claims.find job.id = none) (hmem : env.deadId ∈ minted)
    (hdead : n.store.dead.find env.deadId = none) (reason metadata : String) :
    Balanced cfg log minted ((shedToDlq job reason metadata).run (perform cfg env) n) := by
  have hplain := shedToDlq_plain cfg job reason metadata
  have hbusy : Books cfg (some job.id) log minted
      ((shedToDlq job reason metadata).run (perform cfg env) n).2 := ht.books.plain hplain hmem
  have hunclaimed := unclaimed_of_calm (plain_calm hplain cfg env n) hclaim
  refine Books.balanced (hbusy.close_idle ?_ hunclaimed) (hplain.run_result _ n)
  obtain ⟨s', hmove, hidle⟩ := deadLetterIn_stops cfg.serde ht.row ht.books.separate hdead
    reason (some metadata) true env.now
  simp only [shedToDlq, Prog.run_bind, Code.deadLetter, Prog.run_call, perform, hmove,
    Node.commit_, Code.cascadeCancel]
  have hcascade := (store_commit (n := { n with store := s' }) (.refl s')
    (r := Sql.cascadeCancel s' job.id dependencyFailed job.namespace env.now)
    fun _ _ => cascadeCancel_calm).idle hidle
  split <;> exact hcascade

theorem Taken.elsewhere {inFlight : InFlight} {claims : Table String ClaimRow ClaimRow.jobId}
    (hclaims : ∀ k, job.id ≠ k → claims.find k = n.store.claims.find k)
    (hlive : ∀ k, job.id ≠ k → inFlight.live k = n.inFlight.live k) :
    Taken cfg log minted ⟨inFlight, { n.store with claims := claims }⟩ job := by
  have hne : ∀ {k}, some job.id ≠ some k → job.id ≠ k := fun hk heq => hk (congrArg some heq)
  refine ⟨⟨ht.books.separate, ht.books.fresh, ?_, ?_, ht.books.sleepers⟩,
    ht.row, ht.running, ht.ns⟩
  · intro k row hk hrow hrun
    obtain ⟨r, hr, hrest⟩ := ht.books.running k row hk hrow hrun
    exact ⟨r, (hlive k (hne hk)).trans hr, hrest⟩
  · intro k c hk hc
    obtain ⟨hrow, hrec⟩ := ht.books.claimed k c hk ((hclaims k (hne hk)).symm.trans hc)
    exact ⟨hrow, fun r hr => hrec r ((hlive k (hne hk)).symm.trans hr)⟩

theorem Taken.finish {c : ClaimRow}
    (hclaim : n.store.claims.find job.id = some c) (howner : c.workerId = cfg.claimOwner)
    (gates : Gates) :
    Balanced cfg log minted ((finishDispatch job c.epoch gates).run (perform cfg env) n) := by
  unfold finishDispatch
  cases gates.admitted with
  | false => exact ht.rollback gates.deferUntil
  | true =>
    cases gates.channelOpen with
    | true => exact ht.books.close_sent ht.row ht.ns hclaim howner rfl ht.running
    | false =>
      refine (ht.elsewhere (fun _ _ => rfl) fun k hne => ?_).rollback gates.deferUntil
      rw [InFlight.live_forget, if_neg (Ne.symm hne)]
      exact (InFlight.live_insert ..).trans (if_neg hne)

end

/-- **A dispatch keeps the books.** -/
theorem Books.dispatch (hb : Books cfg none log minted n) (hmem : env.deadId ∈ minted)
    (hdead : n.store.dead.find env.deadId = none) (queue : String) (order : DispatchOrder)
    (gates : Gates) :
    Balanced cfg log minted ((tryDispatch queue order gates).run (perform cfg env) n) := by
  simp only [tryDispatch, Prog.run_bind, Code.nowMillis, Prog.run_call, perform, Code.dequeue]
  cases hdq : dequeueOrdered n.store queue env.now cfg.namespace order with
  | error => exact Books.balanced hb rfl
  | ok r =>
    obtain ⟨out, s'⟩ := r
    rcases hb.take hdq with ⟨hnone, hb'⟩ | ⟨job, hone, ht, hclaim, hsame⟩
    · simp only [Node.commit, hnone, List.head?_nil, Prog.run_pure]
      exact Books.balanced hb' rfl
    · have hdead' : s'.dead.find env.deadId = none := by
        rw [hsame]
        exact hdead
      simp only [Node.commit, hone, List.head?_cons]
      cases gates.codelDrop with
      | some => exact ht.shed hclaim hmem hdead' _ _
      | none =>
        unfold gateAndDispatch
        cases gates.preClaim with
        | defer => exact ht.reschedule hclaim gates.deferUntil
        | shed => exact ht.shed hclaim hmem hdead' _ _
        | proceed =>
          obtain ⟨claims, hmade, hfind⟩ :=
            claimExecution_free hclaim cfg.claimOwner env.now env.epoch
          simp only [Prog.run_bind, Code.claimExecution, Prog.run_call, perform, hmade]
          exact (ht.elsewhere (fun k hne => (hfind k).trans (if_neg hne)) fun _ _ => rfl).finish
            ((hfind job.id).trans (if_pos rfl)) rfl gates

/-! ## A result -/

def Node.released (n : Node) (jobId : String) : Node :=
  { n with inFlight := (n.inFlight.remove jobId).2 }

theorem handleResult_superseded {result : JobResult} {r : DispatchRecord}
    (hlive : n.inFlight.live result.jobId = none)
    (hspent : n.inFlight.spent result.jobId = some r) (hslept : result.isSlept = false)
    (hidle : Idle n.store result.jobId) :
    (handleResult result).run (perform cfg env) n = (.ok (.superseded result.jobId), n) := by
  simp only [handleResult, settleResult, hslept, Bool.false_eq_true, if_false, authorizeFinished,
    Prog.run_bind, run_releaseDispatch, hlive, hspent, Option.none_or, Code.authorizeAttempt,
    Prog.run_call, perform, superseded_of_idle hidle, Prog.run_pure,
    InFlight.remove_of_live_none hlive, Except.map]

/-- Where handling a result ends: the slot freed and nothing else done, or
the slot freed and the transition written. -/
theorem handleResult_node (cfg : Config) (env : Env) (n : Node) (result : JobResult) :
    let handled := (handleResult result).run (perform cfg env) n
    (handled = (.ok (.superseded result.jobId), n.released result.jobId) ∧
        result.isSlept = false ∧
        ∃ r, (n.inFlight.live result.jobId).or (n.inFlight.spent result.jobId) = some r ∧
          authorizeAttempt n.store result.jobId r.owner r.attempt r.epoch cfg.namespace =
            .ok .superseded) ∨
      (handled.2 = ((transition result).run (perform cfg env) (n.released result.jobId)).2 ∧
        ∀ jobId, handled.1 ≠ .ok (.superseded jobId)) := by
  -- All branches that write end here.
  have hwrite : ∀ record : Option DispatchRecord,
      let t := (applyTransition record result).run (perform cfg env) (n.released result.jobId)
      t.2 = ((transition result).run (perform cfg env) (n.released result.jobId)).2 ∧
        ∀ jobId, t.1.map Settled.outcome ≠ .ok (.superseded jobId) := by
    intro record
    simp only [applyTransition, Prog.run_bind, Prog.run_pure]
    refine ⟨trivial, fun jobId heq => ?_⟩
    have hnot : NotSuperseded _ :=
      (transition_plain result).run_result (perform cfg env) (n.released result.jobId)
    cases ht : ((transition result).run (perform cfg env) (n.released result.jobId)).1 with
    | error =>
      rw [ht] at heq
      cases heq
    | ok r =>
      rw [ht] at heq
      have hout : r.1 = .superseded jobId := by simpa [Except.map] using heq
      exact hnot jobId r.2 (by rw [ht, ← hout])
  intro handled
  simp only [handled, handleResult, settleResult, Prog.run_bind, Prog.run_pure]
  cases hslept : result.isSlept with
  | true =>
    simp only [if_true, Prog.run_bind, run_releaseDispatch]
    exact Or.inr (hwrite _)
  | false =>
    simp only [Bool.false_eq_true, if_false, authorizeFinished, Prog.run_bind,
      run_releaseDispatch]
    cases hrec : (n.inFlight.live result.jobId).or (n.inFlight.spent result.jobId) with
    | none => exact Or.inr (hwrite _)
    | some r =>
      simp only [Prog.run_bind, Code.authorizeAttempt, Prog.run_call, perform]
      cases hauth : authorizeAttempt n.store result.jobId r.owner r.attempt r.epoch
          cfg.namespace with
      | error e => exact Or.inr (hwrite _)
      | ok fence =>
        cases fence with
        | authorized => exact Or.inr (hwrite _)
        | superseded => exact Or.inl ⟨rfl, trivial, r, rfl, hauth⟩

theorem released_live (n : Node) (jobId k : String) :
    (n.released jobId).inFlight.live k = if k = jobId then none else n.inFlight.live k :=
  InFlight.live_remove _ _ _

theorem Books.release {jobId : String} (hb : Books cfg none log minted n)
    (hidle : Idle n.store jobId) : Books cfg none log minted (n.released jobId) := by
  refine hb.calm (.refl _) (fun _ _ => rfl) fun k => ?_
  rw [released_live]
  by_cases hk : k = jobId
  · exact Or.inr ⟨if_pos hk, hk ▸ hidle⟩
  · exact Or.inl (if_neg hk)

/-- **A result keeps the books**, if a sleep is only acknowledged for an idle
job. -/
theorem Books.result {result : JobResult} (hb : Books cfg none log minted n)
    (hmem : env.deadId ∈ minted) (hdead : n.store.dead.find env.deadId = none)
    (hslept : result.isSlept = true → Idle n.store result.jobId) :
    Books cfg none log minted ((handleResult result).run (perform cfg env) n).2 := by
  by_cases hidle : Idle n.store result.jobId
  · rcases handleResult_node cfg env n result with ⟨heq, -⟩ | ⟨hnode, -⟩
    · rw [heq]
      exact hb.release hidle
    · rw [hnode]
      exact (hb.release hidle).plain (transition_plain result) hmem
  · -- A running job is on the books, so the fence lets its record through.
    obtain ⟨row, hrow, hrun⟩ : ∃ row, n.store.jobs.find result.jobId = some row ∧
        row.status = .running := by
      simpa [Idle] using hidle
    have hkey : row.id = result.jobId := Table.key_of_find hrow
    have hawake : result.isSlept = false := by
      cases h : result.isSlept with
      | false => rfl
      | true => exact absurd (hslept h) hidle
    obtain ⟨r, hlive, -, -, hns⟩ := hb.running _ row (by simp) hrow hrun
    have hauth := hb.authorized hrow hrun hlive
    rcases handleResult_node cfg env n result with ⟨-, -, r', hr', hsup⟩ | ⟨hnode, -⟩
    · rw [hlive, Option.some_or, Option.some.injEq] at hr'
      subst hr'
      rw [hauth] at hsup
      cases hsup
    · rw [hnode]
      have hplain := transition_plain result
      have hvis : visibleIn cfg.namespace row.namespace = true := hns ▸ visibleIn_self _
      have hrow' : (n.released result.jobId).store.jobs.find row.id = some row := by
        rw [hkey]
        exact hrow
      have hstop : Idle ((transition result).run (perform cfg env)
          (n.released result.jobId)).2.store row.id :=
        transition_stops hrow' hrun hvis hb.separate hdead hkey.symm hawake
      rw [hkey] at hstop
      refine hb.calm (plain_calm hplain cfg env (n.released result.jobId)) ?_ fun k => ?_
      · intro k hk
        exact plain_dead hplain cfg env (n.released result.jobId) fun heq => hk (heq ▸ hmem)
      · rw [plain_inFlight hplain, released_live]
        by_cases hk : k = result.jobId
        · exact Or.inr ⟨if_pos hk, hk ▸ hstop⟩
        · exact Or.inl (if_neg hk)

end Books

/-! ## The history keeps the books -/

section History

variable {cfg : Config} {env : Env} {log : List Dispatch} {minted : List String} {n : Node}

theorem isLatest_set {dispatch : Dispatch} (hd : log[d]? = some dispatch) (d' : Nat) :
    isLatest (log.set d { dispatch with slept := true }) d' = isLatest log d' := by
  -- `isLatest` only looks at the job ids, and those stay.
  have hids : ∀ l : List Dispatch, isLatest l d' =
      ((l.map Dispatch.jobId)[d']?).any fun jobId =>
        ((l.map Dispatch.jobId).drop (d' + 1)).all (· ≠ jobId) := by
    intro l
    unfold isLatest
    rw [List.getElem?_map]
    cases l[d']? with
    | none => rfl
    | some => simp [← map_drop, all_map, Function.comp_def]
  have hmap : (log.set d { dispatch with slept := true }).map Dispatch.jobId =
      log.map Dispatch.jobId := by
    refine ext_getElem? fun i => ?_
    rw [List.getElem?_map, List.getElem?_map]
    by_cases hi : d = i
    · rw [← hi, List.getElem?_set_self (List.getElem?_eq_some_iff.mp hd).1, hd]
      rfl
    · rw [List.getElem?_set_ne hi]
  rw [hids, hids, hmap]

section

variable (hb : Books cfg none log minted n)
include hb

theorem Books.enqueue {new : NewJob} {id : String}
 (hnew : id ∉ minted)
    (h : Sql.enqueue n.store new id now = .ok (job, s')) :
    Books cfg none log (id :: minted) { n with store := s' } := by
  obtain ⟨-, -, hins⟩ := enqueue_ok h
  obtain ⟨-, hjobs, harch, hclaims, hdead, -⟩ := insertJobWithDeps_ok hins
  have hfind : ∀ k, s'.jobs.find k =
      if k = id then some (new.intoJob id now) else n.store.jobs.find k := hjobs
  obtain ⟨hnone, hnoarch, -⟩ := hb.fresh id hnew
  refine ⟨?_, ?_, ?_, ?_, ?_⟩
  · intro k row hrow
    rw [show s'.archived = n.store.archived from harch]
    rw [hfind] at hrow
    split at hrow
    · next hk => exact hk ▸ hnoarch
    · exact hb.separate k row hrow
  · intro k hk
    rw [mem_cons, not_or] at hk
    obtain ⟨hjob, harch', hdead'⟩ := hb.fresh k hk.2
    refine ⟨?_, ?_, ?_⟩
    · rw [hfind, if_neg hk.1]
      exact hjob
    · rw [harch]
      exact harch'
    · rw [hdead]
      exact hdead'
  · intro k row hbusy hrow hrun
    rw [hfind] at hrow
    split at hrow
    · cases hrow
      cases hrun
    · exact hb.running k row hbusy hrow hrun
  · intro k c hbusy hc
    rw [hclaims] at hc
    obtain ⟨⟨row, hrow, hrun⟩, hrec⟩ := hb.claimed k c hbusy hc
    refine ⟨⟨row, ?_, hrun⟩, hrec⟩
    rw [hfind, if_neg]
    · exact hrow
    · rintro rfl
      rw [hnone] at hrow
      cases hrow
  · intro d dispatch hd hs hl hbusy row hrow
    rw [hfind] at hrow
    split at hrow
    · cases hrow
      simp [NewJob.intoJob]
    · exact hb.sleepers d dispatch hd hs hl hbusy row hrow

theorem Books.call (env : Env) {c : Call} (hcalm : c.calm = true) (hremote : c.remote = true)
    (hdead : (perform cfg env c n).2.store.dead = n.store.dead) :
    Books cfg none log minted (perform cfg env c n).2 := by
  refine hb.calm (perform_calm cfg env c n hcalm) ?_ fun k => Or.inl ?_
  · intro k _
    rw [hdead]
  · rw [perform_inFlight cfg env c n hremote]

theorem Books.reap {stale : StaleJob}
    (hmem : env.deadId ∈ minted) (hdead : n.store.dead.find env.deadId = none) :
    Books cfg none log minted ((reapStaleJob now stale).run (perform cfg env) n).2 := by
  have hres : ∀ w, Books cfg none log minted w → w.store.dead.find env.deadId = none →
      Books cfg none log minted ((handleResult
        (sweptFailure stale.job (timeoutError stale) true)).run (perform cfg env) w).2 :=
    fun w hw hwd => hw.result hmem hwd fun h => by cases h
  unfold reapStaleJob
  cases hawait : stale.awaitingSettle with
  | false =>
    simp only [Bool.false_eq_true, if_false, Prog.run_bind, Prog.run_pure, Bool.not_true]
    split <;> exact hres n hb hdead
  | true =>
    have hdead₁ : (claimSettle n.store stale.job.id (.expired now) cfg.namespace).2.dead =
        n.store.dead := claimSettle_dead _ _ _ _
    have hclaimed : Books cfg none log minted
        (perform cfg env (.claimSettle stale.job.id (.expired now)) n).2 :=
      hb.call env rfl rfl hdead₁
    have hswept := hres _ hclaimed ((congrArg (Table.find · env.deadId) hdead₁).trans hdead)
    rw [if_pos rfl, Prog.run_bind]
    dsimp only
    split
    · exact hclaimed
    · rw [Prog.run_bind]
      split <;> exact hswept

theorem Books.sleep {dispatch : Dispatch} {step : NewJobStep} {owner : String}
    {attempt wakeAt : Int} {epoch : Option Int} {limits : StepLimits} {scope : Scope}
    {outcome : SleepOutcome}
    (hd : log[d]? = some dispatch) (hjob : step.jobId = dispatch.jobId)
    (h : sleepJob n.store step owner attempt epoch wakeAt limits scope now =
      .ok (outcome, s')) :
    Books cfg none (log.set d { dispatch with slept := true }) minted
      { n with store := s' } := by
  obtain ⟨row, wake, -, -, -, hw, -⟩ := sleepJob_ok h
  have hb' : Books cfg none log minted { n with store := s' } := by
    refine hb.calm (sleepJob_calm h) ?_ fun k => Or.inl rfl
    intro k _
    exact congrArg (Table.find · k) hw.dead
  refine { hb' with sleepers := ?_ }
  intro d' dispatch' hd' hs hl hbusy
  rw [isLatest_set hd] at hl
  by_cases heq : d = d'
  · subst heq
    rw [List.getElem?_set_self (List.getElem?_eq_some_iff.mp hd).1] at hd'
    cases hd'
    exact hjob ▸ idle_of_rewrites hw (by simp [Job.pendingAt])
  · rw [List.getElem?_set_ne heq] at hd'
    exact hb'.sleepers d' dispatch' hd' hs hl hbusy

end

/-- **One event keeps the books**, as long as results are settleable. -/
theorem Books.next {h h' : History} {e : Env × Event} (hok : ResultsSettleable h e)
    (hstep : h.next cfg e = some h') (hb : Books cfg none h.log h.minted h.node) :
    Books cfg none h'.log h'.minted h'.node := by
  obtain ⟨env, event⟩ := e
  -- An event that can write a dead letter mints the letter's id first.
  have hmint : env.deadId ∉ h.minted →
      Books cfg none h.log (env.deadId :: h.minted) h.node ∧
        h.node.store.dead.find env.deadId = none := fun hnew =>
    ⟨hb.mono fun k hk => mem_cons_of_mem _ hk, (hb.fresh _ hnew).2.2⟩
  cases event with
  | enqueue new id =>
    simp only [History.next] at hstep
    split at hstep
    · cases hstep
    next hnew =>
      cases hstep
      cases hres : Sql.enqueue h.node.store new id env.now with
      | error => exact hb.mono fun k hk => mem_cons_of_mem _ hk
      | ok => exact hb.enqueue hnew hres
  | dispatch queue order gates =>
    simp only [History.next] at hstep
    split at hstep
    · cases hstep
    next hnew =>
      cases hstep
      obtain ⟨hb', hdead⟩ := hmint hnew
      exact hb'.dispatch mem_cons_self hdead queue order gates
  | expirePending =>
    cases hstep
    refine hb.call env (c := .expirePendingJobs env.now) rfl rfl
      (store_commit (P := fun s => s.dead = h.node.store.dead) rfl ?_)
    intro rows s' hres
    exact (archivePending_ok hres).1.dead
  | purgeClaims olderThanMs =>
    cases hstep
    exact hb.call env (c := .purgeExecutionClaims olderThanMs) rfl rfl rfl
  | reapStale =>
    simp only [History.next] at hstep
    split at hstep
    · cases hstep
    next hnew =>
      obtain ⟨stale, -, rfl⟩ := Option.map_eq_some_iff.mp hstep
      obtain ⟨hb', hdead⟩ := hmint hnew
      exact hb'.reap mem_cons_self hdead
  | requeueStuck jobId =>
    cases hstep
    refine hb.calm (requeueStuck_calm _ _ _) ?_ fun k => Or.inl rfl
    intro k _
    rcases requeueStuck_spec h.node.store jobId env.now with heq | ⟨row, s', heq, -, -, hw, -⟩
    · simp only [heq]
    · simp only [heq, hw.dead]
  | sleep =>
    simp only [History.next, Option.bind_eq_some_iff] at hstep
    obtain ⟨dispatch, hd, hstep⟩ := hstep
    split at hstep
    · next hjob =>
        split at hstep
        · next hres =>
            cases hstep
            exact hb.sleep hd hjob hres
        · cases hstep
          exact hb
    · cases hstep
  | result d =>
    simp only [History.next, Option.bind_eq_some_iff] at hstep
    obtain ⟨dispatch, hd, hstep⟩ := hstep
    split at hstep
    · next hcond =>
        obtain ⟨hjob, hack, hnew⟩ := hcond
        cases hstep
        obtain ⟨hb', hdead⟩ := hmint hnew
        refine hb'.result mem_cons_self hdead ?_
        intro hslept
        -- A sleep is only acknowledged where its dispatch is still the latest.
        rcases hok with hlatest | ⟨-, -, hawake⟩
        · exact hjob ▸ hb.sleepers d dispatch hd (hack hslept) hlatest (by simp)
        · rw [hslept] at hawake
          cases hawake
    · cases hstep

theorem Books.reached {h : History}
    (hrun : Reaches (History.next cfg) ResultsSettleable History.start h) :
    Books cfg none h.log h.minted h.node :=
  hrun.invariant (I := fun h => Books cfg none h.log h.minted h.node) (Books.start cfg)
    fun _ _ _ hb hok hstep => Books.next hok hstep hb

theorem Books.idle_of_live_none (hb : Books cfg none log minted n)
    (hlive : n.inFlight.live k = none) : Idle n.store k := by
  intro row hrow hrun
  obtain ⟨r, hr, -⟩ := hb.running k row (by simp) hrow hrun
  rw [hlive] at hr
  cases hr

end History

/-! ## The main result -/

/-- **A result is applied to the dispatch that produced it exactly when it is
settleable**, in every state a history of settleable results reaches. -/
theorem latest_iff_settleable (cfg : Config) (env : Env) {h : History} {d : Nat}
    {result : JobResult}
    (hrun : Reaches (History.next cfg) ResultsSettleable History.start h) :
    AppliedToItsDispatch cfg env h d result ↔ Settleable h d result := by
  constructor
  · rintro (hlatest | ⟨hsup, -, -, -, hsame⟩)
    · exact Or.inl hlatest
    · -- Only the fence answers `Superseded`, and by then the record is gone.
      rcases handleResult_node cfg env h.node result with ⟨hhandled, hawake, r, hr, -⟩ | ⟨-, hnot⟩
      · rw [History.handle, hhandled] at hsame
        have hlive : h.node.inFlight.live result.jobId = none := by
          have hgone := released_live h.node result.jobId result.jobId
          rw [if_pos rfl] at hgone
          rw [← hgone]
          exact congrArg (InFlight.live · result.jobId) hsame.symm
        rw [hlive, Option.none_or] at hr
        exact Or.inr ⟨hlive, by rw [hr]; rfl, hawake⟩
      · exact absurd hsup (hnot _)
  · rintro (hlatest | ⟨hlive, hspent, hawake⟩)
    · exact Or.inl hlatest
    · obtain ⟨r, hr⟩ := Option.isSome_iff_exists.mp hspent
      have hidle := (Books.reached hrun).idle_of_live_none hlive
      have hhandled : h.handle cfg env result = (.ok (.superseded result.jobId), h.node) :=
        handleResult_superseded hlive hr hawake hidle
      rw [AppliedToItsDispatch, hhandled]
      exact Or.inr ⟨rfl, rfl, rfl, rfl, rfl⟩

def soloConfig : Config := ⟨"worker-1", none, ⟨fun _ => none, fun _ => ""⟩⟩

def worldAt (now : Int) : Env := ⟨now, now, "dead-" ++ toString now, true, now, []⟩

def redispatched : List (Env × Event) :=
  let job : NewJob :=
    ⟨"q", "charge", [], 0, 0, 3, 1000, none, none, none, [], none, none, none, none, none⟩
  let gates : Gates := ⟨none, .proceed, true, true, 0⟩
  [(worldAt 0, .enqueue job "job-1"), (worldAt 10, .dispatch "q" .fifo gates),
    (worldAt 2000, .reapStale "job-1"), (worldAt 3000, .dispatch "q" .fifo gates)]

def chargeDone : JobResult := .success "job-1" (some [1]) "charge"

theorem late_success_applied : ∃ h h',
    Reaches (History.next soloConfig) (fun _ _ => True) History.start h ∧
      h.next soloConfig (worldAt 3100, .result 0 chargeDone) = some h' ∧
      ¬ AppliedToItsDispatch soloConfig (worldAt 3100) h 0 chargeDone := by
  obtain ⟨h, hrun, hnext, hbad⟩ : ∃ h,
      Reaches (History.next soloConfig) (fun _ _ => True) History.start h ∧
        (h.next soloConfig (worldAt 3100, .result 0 chargeDone)).isSome = true ∧
        ¬ AppliedToItsDispatch soloConfig (worldAt 3100) h 0 chargeDone :=
    exists_reached redispatched
  obtain ⟨h', hh'⟩ := Option.isSome_iff_exists.mp hnext
  exact ⟨h, h', hrun, hh', hbad⟩

/-- If the second worker reports first, the late success finds nothing in
flight and is turned away. -/
theorem late_success_superseded : ∃ h,
    Reaches (History.next soloConfig) ResultsSettleable History.start h ∧
      isLatest h.log 0 = false ∧
      AppliedToItsDispatch soloConfig (worldAt 3200) h 0 chargeDone := by
  refine exists_reached_imp
    (P := fun h => isLatest h.log 0 = false ∧ Settleable h 0 chargeDone)
    (redispatched ++ [(worldAt 3100, .result 1 chargeDone)]) ?_
  rintro h hrun ⟨hlate, hset⟩
  exact ⟨hlate, (latest_iff_settleable soloConfig (worldAt 3200) hrun).mpr hset⟩

end FlexiQ.Scheduler
