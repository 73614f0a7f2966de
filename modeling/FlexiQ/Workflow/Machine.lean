/-
# `Workflow.Machine` — does a run's state follow its machine?

`can_transition_to` is asked by nobody: every entry point writes the state it
came to over whatever is stored.  An outcome that overtakes the submission
finds the run `Pending` and completes it, and the submission then writes
`Running` over `Completed`.

If one call at a time is made for the runs of a store, each on a run in the
state the call is for, the submitted graph is in order and the queue takes its
jobs, then every change of a run's state is an edge of the machine.
-/
import FlexiQ.Workflow.Calls
import FlexiQ.Workflow.Loop
import FlexiQ.Workflow.Queues

namespace FlexiQ.Workflow

open List FlexiQ.Lib FlexiQ.Lib.Prog FlexiQ.Resilience

variable {Q : Type} (ext : Externals) (h : Handle) (jobs : JobQueue Q)

variable {c : Call} {s s' : Store} {runId root id : String} {state : WorkflowState}
  {stack visited : List String}

/-! ## The discipline -/

/-- A run, and the sub-workflow runs below it. -/
inductive Under (s : Store) (root : String) : String → Prop
  | root : Under s root root
  | child {parent id : String} : Under s root parent → s.parentOf id = some parent →
      Under s root id

def Store.In (s : Store) (runId : String) (states : List WorkflowState) : Prop :=
  ∀ state, s.stateOf runId = some state → state ∈ states

/-- The state each request is for.  A submission is for a new run, and a graph
in order. -/
def Expected (w : World Q) : Request → Prop
  | .submit req minted =>
    w.store.runs.find minted.runId = none ∧
    (∀ name, w.store.nodes.find (minted.runId, name) = none) ∧
    ∀ ordered, ext.topologicalOrder req.dagBytes = .ok ordered → Sorted ordered []
  | .cancel runId _ _ =>
    w.store.In runId [.running, .paused] ∧
    ∀ id, Under w.store runId id → ∀ state, w.store.stateOf id = some state →
      state.isTerminal = false → state = .running ∨ state = .paused
  | .finalize runId _ | .completedWithFailures runId => w.store.In runId [.running]
  | .compensating runId =>
    w.store.In runId [.running, .completed, .completedWithFailures, .failed]
  | .compensated runId _ | .compensationFailed runId _ _ => w.store.In runId [.compensating]
  | _ => True

/-- An outcome is looked up while its run is running, and the queue takes the
jobs it is given.  The job store may do anything else by itself. -/
def discipline : Terms Request (Q → Q) Call (World Q) where
  arrive := Expected ext
  call w
    | .getJob id => ∀ job runId nodeName, jobs.getJob id h.namespace w.queue = some job →
        routing ext.serde job.metadata = some (runId, nodeName) → w.store.In runId [.running]
    | .enqueue new id now => ∃ job, (jobs.enqueue new id now w.queue).1 = .ok job
    | _ => True
  drift _ _ := True

/-- What a call that writes a state owes: an edge of the machine. -/
def machine : Guard Call (World Q) where
  env w w' := w'.store = w.store
  grants := (discipline ext h jobs).call
  owes w
    | .updateRunState runId state _ => ∀ before, w.store.stateOf runId = some before →
        before = state ∨ before.canTransitionTo state = true
    | .createRun run => w.store.runs.find run.id = none
    | _ => True

/-! ## Calls that write no state -/

/-- The calls that leave the state of every run alone. -/
def Call.stateless : Call → Bool
  | .createRun _ | .updateRunState .. => false
  | _ => true

variable {ext h jobs} {w : World Q}

theorem stateOf_answer (hc : c.stateless = true) (w : World Q) (id : String) :
    (answer h jobs c w).2.store.stateOf id = w.store.stateOf id := by
  have hruns : ∀ {c : Call}, c.keepsRuns = true →
      (answer h jobs c w).2.store.stateOf id = w.store.stateOf id := by
    intro c hc
    unfold Store.stateOf
    rw [answer_runs hc]
  cases c with
  | createRun | updateRunState => cases hc
  | setRunCompleted runId =>
    show ((updateRun h runId _ _ w.store).runs.find id).map WorkflowRun.state = _
    rw [find_updateRun]
    split
    · rw [Option.map_map]
      rfl
    · rfl
  | _ => exact hruns rfl

theorem stateless_of_reads (c : Call) (hc : c.reads = true) : c.stateless = true := by
  cases c <;> first | rfl | cases hc

structure SameRuns (s s' : Store) : Prop where
  state : ∀ id, s'.stateOf id = s.stateOf id
  frame : ∀ id, s'.frame id = s.frame id

theorem SameRuns.refl (s : Store) : SameRuns s s := ⟨fun _ => rfl, fun _ => rfl⟩

theorem SameRuns.trans {s₁ : Store} (h : SameRuns s s₁) (h' : SameRuns s₁ s') : SameRuns s s' :=
  ⟨fun id => (h'.state id).trans (h.state id), fun id => (h'.frame id).trans (h.frame id)⟩

theorem SameRuns.isIn (hsame : SameRuns s s')
    {states : List WorkflowState} (hin : s.In runId states) : s'.In runId states := by
  intro state hstate
  rw [hsame.state] at hstate
  exact hin state hstate

theorem keeps_stateless {α : Type} {p : Prog Call Call.Answer α}
    (hp : p.Sat (fun c => c.stateless = true) fun _ => True) (w : World Q) :
    p.Keeps (answer h jobs) (machine ext h jobs) (fun _ w' => SameRuns w.store w'.store) w := by
  refine (Sat.keeps (J := fun w' => SameRuns w.store w'.store) hp ?_ ?_ (.refl _)).mono
    fun _ _ hpost => hpost.2
  · intro c w' hc hsame _
    refine ⟨?_, hsame.trans ⟨stateOf_answer hc w', frame_answer ?_ w'⟩⟩
    · cases c with
      | createRun | updateRunState => cases hc
      | _ => trivial
    · rintro run rfl
      cases hc
  · intro w₁ w₂ hsame henv
    have hstore : w₂.store = w₁.store := henv
    rw [hstore]
    exact hsame

/-! ## Programs that follow the machine -/

/-- Every state the program writes is an edge away from the one it finds. -/
def Follows (ext : Externals) (h : Handle) (jobs : JobQueue Q) {ε α : Type} (x : Act ε α)
    (w : World Q) : Prop :=
  x.run.Keeps (answer h jobs) (machine ext h jobs) (fun _ _ => True) w

section Rules

variable {ε α β : Type}

theorem follows_of_only {x : Act ε α} (hx : Only (fun c => c.stateless = true) x)
    (w : World Q) : Follows ext h jobs x w :=
  (keeps_stateless hx w).mono fun _ _ _ => trivial

theorem follows_bind_only {x : Act ε α} {f : α → Act ε β}
    (hx : Only (fun c => c.stateless = true) x)
    (hf : ∀ a w', SameRuns w.store w'.store → Follows ext h jobs (f a) w') :
    Follows ext h jobs (x >>= f) w := by
  refine Keeps.tryBind ((keeps_stateless hx w).mono fun r w' hsame => ?_)
  cases r with
  | ok a => exact hf a w' hsame
  | error => exact trivial

theorem follows_ask {f : c.Reply → Act QueueError β}
    (hstep : ∀ w' : World Q, w'.store = w.store → (machine ext h jobs).grants w' c →
      (machine ext h jobs).owes w' c ∧
        ∀ a, (answer h jobs c w').1 = .ok a → Follows ext h jobs (f a) (answer h jobs c w').2) :
    Follows ext h jobs (ask c >>= f) w := by
  refine Keeps.tryBind fun w' henv hgrant => ⟨(hstep w' henv hgrant).1, ?_⟩
  have hnext := (hstep w' henv hgrant).2
  generalize (answer h jobs c w').1 = r at hnext
  cases r with
  | ok a => exact hnext a rfl
  | error => exact trivial

theorem follows_tried {f : c.Answer → Act ε β}
    (hstep : ∀ w' : World Q, w'.store = w.store → (machine ext h jobs).grants w' c →
      (machine ext h jobs).owes w' c ∧
        Follows ext h jobs (f (answer h jobs c w').1) (answer h jobs c w').2) :
    Follows ext h jobs ((ask c).tried >>= f) w :=
  Keeps.tryBind (Keeps.lift fun w' henv hgrant => hstep w' henv hgrant)

theorem follows_write {froms : List WorkflowState}
    {error : Option String} {f : Unit → Act QueueError α} (hin : w.store.In runId froms)
    (hedge : ∀ before ∈ froms, before = state ∨ before.canTransitionTo state = true)
    (hf : ∀ w' : World Q, w'.store = updateWorkflowRunState h runId state error w.store →
      Follows ext h jobs (f ()) w') :
    Follows ext h jobs (ask (.updateRunState runId state error) >>= f) w := by
  refine follows_ask fun w' hstore _ => ⟨fun before hbefore => ?_, fun _ _ => hf _ ?_⟩
  · rw [hstore] at hbefore
    exact hedge before (hin before hbefore)
  · show updateWorkflowRunState h runId state error w'.store = _
    rw [hstore]

end Rules

theorem only_stateless_nodes (b : Backend) (runId : String) :
    Only (fun c => c.stateless = true) (getWorkflowNodes b runId) :=
  getWorkflowNodes_only stateless_of_reads b runId

theorem edge_finalState (nodes : List WorkflowNode) (succeeded : Bool) :
    ∀ before ∈ [WorkflowState.running],
      before = finalState nodes succeeded ∨
        before.canTransitionTo (finalState nodes succeeded) = true := by
  intro before hbefore
  cases mem_singleton.mp hbefore
  unfold finalState
  split <;> exact Or.inr rfl

theorem finalizeIfDone_follows (succeeded : Bool) (error : Option String)
    (now : Int) (hin : w.store.In runId [.running]) :
    Follows ext h jobs (finalizeIfDone h.backend runId succeeded error now) w := by
  refine follows_bind_only (only_stateless_nodes _ _) fun nodes w₁ hsame => ?_
  split
  · refine follows_write (hsame.isIn hin) (edge_finalState nodes succeeded) fun w₂ _ => ?_
    exact follows_of_only (.bind (only_ask rfl) fun _ => .pure _) w₂
  · exact trivial

theorem mark_follows (jobId : String) (succeeded : Bool) (error : Option String)
    (skipCascade : Bool) (resultHash : Option String) (now : Int) (w : World Q) :
    Follows ext h jobs
      (markWorkflowNodeResult ext h.backend jobId succeeded error skipCascade resultHash now)
      w := by
  refine follows_ask fun w' _ hgrant => ⟨trivial, fun found hfound => ?_⟩
  cases found with
  | none => exact trivial
  | some job =>
    have hjob : jobs.getJob jobId h.namespace w'.queue = some job := Except.ok.inj hfound
    dsimp only
    split
    · exact trivial
    · next runId nodeName hroute =>
      have hin : w'.store.In runId [.running] := hgrant job runId nodeName hjob hroute
      refine follows_bind_only (only_ask rfl) fun _ w₁ hsame₁ => ?_
      refine follows_bind_only (failFast_only stateless_of_reads _ _ _ _ (fun _ _ => rfl)
        fun _ => rfl) fun _ w₂ hsame₂ => ?_
      refine Keeps.tryBind ((finalizeIfDone_follows succeeded error now
        ((hsame₁.trans hsame₂).isIn hin)).mono fun r w₃ _ => ?_)
      cases r <;> exact trivial

/-! ## Cancelling -/

theorem Under.congr (hframe : ∀ id, s'.frame id = s.frame id)
    (hunder : Under s root id) : Under s' root id := by
  induction hunder with
  | root => exact .root
  | child _ hparent ih =>
    refine .child ih ?_
    unfold Store.parentOf at hparent ⊢
    rw [hframe]
    exact hparent

structure Cancellable (s : Store) (root : String) (stack visited : List String) : Prop where
  stacked : ∀ id ∈ stack, Under s root id
  waiting : ∀ id ∈ stack, id ∉ visited → s.In id [.running, .paused]
  below : ∀ id, Under s root id → id ∉ visited → ∀ state, s.stateOf id = some state →
    state.isTerminal = false → state = .running ∨ state = .paused

theorem Cancellable.congr (hsame : SameRuns s s') (hc : Cancellable s root stack visited) :
    Cancellable s' root stack visited where
  stacked id hid := (hc.stacked id hid).congr hsame.frame
  waiting id hid hnew := hsame.isIn (hc.waiting id hid hnew)
  below id hid hnew state hstate hopen :=
    hc.below id (hid.congr fun id => (hsame.frame id).symm) hnew state
      (hsame.state id ▸ hstate) hopen

section

variable (runId : String) (state : WorkflowState) (error : Option String) (s : Store)

theorem stateOf_updateState (hid : id ≠ runId) :
    (updateWorkflowRunState h runId state error s).stateOf id = s.stateOf id := by
  unfold Store.stateOf updateWorkflowRunState
  rw [find_updateRun, if_neg (fun hboth => hid hboth.2)]

theorem frame_updateState (id : String) :
    (updateWorkflowRunState h runId state error s).frame id = s.frame id :=
  frame_updateRun (f := fun run => { run with state := state, error := error }) (fun _ => rfl) s id

end

theorem Cancellable.cancelled (hc : Cancellable s root (runId :: stack) visited) :
    Cancellable (updateWorkflowRunState h runId .cancelled none s) root stack
      (runId :: visited) where
  stacked id hid :=
    (hc.stacked id (mem_cons_of_mem _ hid)).congr (frame_updateState runId _ _ s)
  waiting id hid hnew := by
    rw [mem_cons, not_or] at hnew
    intro state hstate
    rw [stateOf_updateState _ _ _ _ hnew.1] at hstate
    exact hc.waiting id (mem_cons_of_mem _ hid) hnew.2 state hstate
  below id hid hnew state hstate hopen := by
    rw [mem_cons, not_or] at hnew
    rw [stateOf_updateState _ _ _ _ hnew.1] at hstate
    exact hc.below id (hid.congr fun id => (frame_updateState runId _ _ s id).symm) hnew.2 state
      hstate hopen

theorem Cancellable.push (hc : Cancellable s root stack visited) (hunder : Under s root runId) :
    Cancellable s root
      ((((getChildWorkflowRuns h runId s).filter fun child =>
        !child.state.isTerminal && !visited.contains child.id).map WorkflowRun.id).reverse ++ stack)
      visited := by
  have hchild : ∀ id ∈ (((getChildWorkflowRuns h runId s).filter fun child =>
      !child.state.isTerminal && !visited.contains child.id).map WorkflowRun.id).reverse,
      Under s root id ∧ s.In id [.running, .paused] := by
    intro id hid
    obtain ⟨child, hchild, rfl⟩ := mem_map.mp (mem_reverse.mp hid)
    obtain ⟨hmem, hopen⟩ := mem_filter.mp hchild
    obtain ⟨hrow, hparent⟩ := mem_filter.mp hmem
    rw [Bool.and_eq_true, decide_eq_true_eq] at hparent
    rw [Bool.and_eq_true, Bool.not_eq_true', Bool.not_eq_true'] at hopen
    have hfind : s.runs.find child.id = some child := Table.find_of_mem hrow
    have hbelow : Under s root child.id := by
      refine .child hunder ?_
      unfold Store.parentOf Store.frame
      rw [hfind]
      exact hparent.1
    refine ⟨hbelow, fun state hstate => ?_⟩
    have hnew : child.id ∉ visited := by
      intro hin
      have htrue : visited.contains child.id = true := contains_iff_mem.mpr hin
      rw [htrue] at hopen
      cases hopen.2
    have hsame : state = child.state := by
      unfold Store.stateOf at hstate
      rw [hfind] at hstate
      exact (Option.some.inj hstate).symm
    rw [mem_pair]
    exact hc.below child.id hbelow hnew state hstate (hsame ▸ hopen.1)
  refine ⟨fun id hid => ?_, fun id hid hnew => ?_, hc.below⟩
  · rcases mem_append.mp hid with hid | hid
    · exact (hchild id hid).1
    · exact hc.stacked id hid
  · rcases mem_append.mp hid with hid | hid
    · exact (hchild id hid).2
    · exact hc.waiting id hid hnew

theorem cancelLoop_follows (root : String) (now : Int) : ∀ (rounds : Nat)
    (stack visited : List String) (w : World Q), Cancellable w.store root stack visited →
    Follows ext h jobs (cancelLoop h.backend now rounds stack visited) w
  | 0, _, _, _, _ => trivial
  | _ + 1, [], _, _, _ => trivial
  | rounds + 1, runId :: stack, visited, w, hc => by
    unfold cancelLoop
    split
    · refine cancelLoop_follows root now rounds stack visited w
        ⟨fun id hid => ?_, fun id hid => ?_, hc.below⟩
      · exact hc.stacked id (mem_cons_of_mem _ hid)
      · exact hc.waiting id (mem_cons_of_mem _ hid)
    · next hvisited =>
      have hnew : runId ∉ visited := fun hin => hvisited (contains_iff_mem.mpr hin)
      refine follows_bind_only (only_stateless_nodes _ _) fun nodes w₁ hsame₁ => ?_
      refine follows_bind_only (cascadeSkipPendingNodes_only (fun _ _ => rfl) fun _ _ _ => rfl)
        fun _ w₂ hsame₂ => ?_
      have hc₂ := hc.congr (hsame₁.trans hsame₂)
      refine follows_write (hc₂.waiting runId mem_cons_self hnew) ?_ fun w₃ hstore₃ => ?_
      · intro before hbefore
        rcases mem_pair.mp hbefore with rfl | rfl <;> exact Or.inr rfl
      · have hunder : Under w₃.store root runId := by
          rw [hstore₃]
          exact (hc₂.stacked runId mem_cons_self).congr (frame_updateState runId _ _ _)
        have hc₃ : Cancellable w₃.store root stack (runId :: visited) := by
          rw [hstore₃]
          exact hc₂.cancelled
        refine follows_bind_only (only_ask rfl) fun _ w₄ hsame₄ => ?_
        have hc₄ := hc₃.congr hsame₄
        refine follows_tried fun w₅ hstore₅ _ => ⟨trivial, ?_⟩
        refine cancelLoop_follows root now rounds _ _ w₅ ?_
        rw [← hstore₅] at hc₄
        refine hc₄.push (hunder.congr fun id => ?_)
        rw [hstore₅]
        exact hsame₄.frame id

/-! ## Submitting -/

structure Begun (h : Handle) (runId : String) (seen : List String) (s : Store) : Prop where
  state : s.stateOf runId = some .pending
  sees : h.sees s runId = true
  rows : ∀ name, name ∉ seen → s.nodes.find (runId, name) = none

theorem createNode_keeps {name : String} {seen : List String} {node : WorkflowNode}
    (hbegun : Begun h runId seen w.store) (hnew : name ∉ seen) (hrun : node.runId = runId)
    (hname : node.nodeName = name) :
    (store (createWorkflowNode node)).run.Keeps (answer h jobs) (machine ext h jobs)
      (fun r w' => r = .ok () ∧ Begun h runId (name :: seen) w'.store) w := by
  refine Keeps.adapt fun w' hstore _ => ⟨trivial, ?_⟩
  have hstore : w'.store = w.store := hstore
  rw [← hstore] at hbegun
  obtain ⟨s', hok, hframe, hfind⟩ :=
    createWorkflowNode_fresh hbegun.sees hrun hname (hbegun.rows name hnew)
  have hanswer : answer h jobs (.createNodesBatch [node]) w' =
      (.ok (), { w' with store := s' }) := by
    show w'.write (createWorkflowNodesBatch h [node] w'.store) = _
    rw [hok]
    rfl
  rw [hanswer]
  refine ⟨rfl, ⟨?_, ?_, fun other hother => ?_⟩⟩
  · rw [hframe]
    exact hbegun.state
  · rw [hframe]
    exact hbegun.sees
  · rw [mem_cons, not_or] at hother
    rw [hfind, if_neg fun heq => hother.1 (Prod.mk.inj heq).2]
    exact hbegun.rows other hother.2

theorem enqueue_keeps {seen : List String} (new : NewJob) (id : String) (now : Int)
    (hbegun : Begun h runId seen w.store) :
    (store (ask (.enqueue new id now))).run.Keeps (answer h jobs) (machine ext h jobs)
      (fun r w' => ∃ job, r = .ok job ∧ Begun h runId seen w'.store) w := by
  refine Keeps.adapt fun w' hstore hgrant => ⟨trivial, ?_⟩
  have hstore : w'.store = w.store := hstore
  obtain ⟨job, hjob⟩ := hgrant
  refine ⟨job, ?_, ?_⟩
  · show (jobs.enqueue new id now w'.queue).1.mapError _ = _
    rw [hjob]
    rfl
  · show Begun h runId seen w'.store
    rw [hstore]
    exact hbegun

theorem definitionFor_keeps (req : SubmitStaticWorkflowRequest) (minted : Minted) (w : World Q) :
    (definitionFor req minted).run.Keeps (answer h jobs) (machine ext h jobs)
      (fun _ w' => w'.store.runs = w.store.runs ∧ w'.store.nodes = w.store.nodes) w := by
  have honly : Only (fun c => c.keepsRuns = true ∧ c.keepsNodes = true)
      (definitionFor req minted) :=
    definitionFor_only (fun c hc => by cases c <;> first | exact ⟨rfl, rfl⟩ | cases hc) req minted
      fun _ => ⟨rfl, rfl⟩
  refine (Sat.keeps (J := fun w' : World Q => w'.store.runs = w.store.runs ∧
    w'.store.nodes = w.store.nodes) honly ?_ ?_ ⟨rfl, rfl⟩).mono fun _ _ hpost => hpost.2
  · rintro c w' ⟨hruns, hnodes⟩ ⟨hr, hn⟩ _
    refine ⟨?_, (answer_runs hruns w').trans hr, (answer_nodes hnodes w').trans hn⟩
    cases c with
    | createRun | updateRunState => cases hruns
    | _ => trivial
  · intro w₁ w₂ hsame henv
    have hstore : w₂.store = w₁.store := henv
    rw [hstore]
    exact hsame

theorem createRun_keeps (run : WorkflowRun) (hstate : run.state = .pending)
    (hfresh : w.store.runs.find run.id = none)
    (hrows : ∀ name, w.store.nodes.find (run.id, name) = none) :
    (store (ask (.createRun run))).run.Keeps (answer h jobs) (machine ext h jobs)
      (fun r w' => r = .ok () → Begun h run.id [] w'.store) w := by
  refine Keeps.adapt fun w' hstore _ => ?_
  have hstore : w'.store = w.store := hstore
  rw [← hstore] at hfresh hrows
  refine ⟨hfresh, fun hok => ?_⟩
  have hanswer : answer h jobs (.createRun run) w' = w'.write _ := rfl
  rcases createWorkflowRun_fresh hfresh with ⟨e, hcreate⟩ | ⟨runs, hcreate, hfind⟩
  all_goals rw [hanswer, hcreate] at hok ⊢
  · cases hok
  · have hrun := (hfind run.id).trans (if_pos rfl)
    refine ⟨?_, ?_, fun name _ => hrows name⟩
    · show (runs.find run.id).map WorkflowRun.state = _
      rw [hrun, ← hstate]
      rfl
    · show h.sees { w'.store with runs := runs } run.id = true
      unfold Handle.sees
      rw [hrun]
      cases hns : h.namespace with
      | none => rfl
      | some => simp

theorem submitWorkflow_follows {req : SubmitStaticWorkflowRequest} {minted : Minted}
    (hfresh : w.store.runs.find minted.runId = none)
    (hrows : ∀ name, w.store.nodes.find (minted.runId, name) = none)
    (hsorted : ∀ ordered, ext.topologicalOrder req.dagBytes = .ok ordered → Sorted ordered []) :
    Follows ext h jobs (submitWorkflow ext req minted) w := by
  have hdefinition : (definitionFor req minted).run.Keeps (answer h jobs) (machine ext h jobs)
      (fun r w' => ∀ id, r = .ok id →
        w'.store.runs = w.store.runs ∧ w'.store.nodes = w.store.nodes) w :=
    (definitionFor_keeps req minted w).mono fun _ _ hsame _ _ => hsame
  refine submitWorkflow_keeps (B := fun seen _ w => Begun h minted.runId seen w.store)
    (D := fun seen _ _ _ w => Begun h minted.runId seen w.store) hsorted hdefinition ?_ ?_ ?_
  · rintro id w₁ ⟨hruns, hnodes⟩
    exact createRun_keeps (newRun req minted id) rfl (by rw [hruns]; exact hfresh) fun name => by
      rw [hnodes]
      exact hrows name
  · exact fun ordered _ => ⟨fun _ hnew _ hbegun _ hrun hname _ _ =>
        createNode_keeps hbegun hnew hrun hname,
      fun _ _ _ hbegun _ _ _ _ => enqueue_keeps _ _ _ hbegun,
      fun _ hnew hbegun => createNode_keeps hbegun hnew rfl rfl⟩
  · rintro ordered seen jobIds w₃ - hbegun -
    refine Keeps.adapt fun w' hstore _ => ⟨fun before hbefore => ?_, trivial⟩
    have hstore : w'.store = w₃.store := hstore
    rw [hstore, hbegun.state] at hbefore
    cases hbefore
    exact Or.inr rfl

/-! ## Every request -/

theorem follows_last {froms : List WorkflowState}
    {error : Option String} (hin : w.store.In runId froms)
    (hedge : ∀ before ∈ froms, before = state ∨ before.canTransitionTo state = true) :
    Follows ext h jobs (ask (.updateRunState runId state error)) w := by
  refine fun w' hstore _ => ⟨fun before hbefore => ?_, trivial⟩
  have hstore : w'.store = w.store := hstore
  rw [hstore] at hbefore
  exact hedge before (hin before hbefore)

theorem endSaga_follows (error : Option String)
    (completedAt : Int) (hin : w.store.In runId [.compensating])
    (hedge : WorkflowState.compensating.canTransitionTo state = true) :
    Follows ext h jobs (endSaga runId state error completedAt) w := by
  refine follows_write hin (fun before hbefore => ?_) fun w' _ => follows_of_only (only_ask rfl) w'
  rw [mem_singleton.mp hbefore]
  exact Or.inr hedge

theorem cancel_follows (now : Int) (rounds : Nat) (hin : w.store.In runId [.running, .paused])
    (hbelow : ∀ id, Under w.store runId id → ∀ state, w.store.stateOf id = some state →
      state.isTerminal = false → state = .running ∨ state = .paused) :
    Follows ext h jobs (cancelWorkflowRun h.backend runId now rounds) w := by
  refine cancelLoop_follows runId now rounds [runId] [] w ⟨fun id hid => ?_, fun id hid _ => ?_,
    fun id hid _ => hbelow id hid⟩
  · rw [mem_singleton.mp hid]
    exact .root
  · rw [mem_singleton.mp hid]
    exact hin

theorem answering_follows {ε α : Type} {x : Act ε α} (f : Except ε α → Response)
    (hx : Follows ext h jobs x w) :
    (x.answering f).Keeps (answer h jobs) (machine ext h jobs) (fun _ _ => True) w :=
  Keeps.bind (hx.mono fun _ _ _ => trivial)

theorem request_follows (request : Request) (hexpected : Expected ext w request) :
    (request.prog ext h).Keeps (answer h jobs) (machine ext h jobs) (fun _ _ => True) w := by
  cases request with
  | submit =>
    obtain ⟨hfresh, hrows, hsorted⟩ := hexpected
    exact answering_follows _ (submitWorkflow_follows hfresh hrows hsorted)
  | mark => exact answering_follows _ (mark_follows _ _ _ _ _ _ w)
  | cancel runId now rounds =>
    exact answering_follows _ (cancel_follows now rounds hexpected.1 hexpected.2)
  | finalize => exact answering_follows _ (finalizeIfDone_follows _ _ _ hexpected)
  | completedWithFailures | compensating =>
    exact answering_follows _ (follows_last hexpected (by decide))
  | compensated | compensationFailed =>
    exact answering_follows _ (endSaga_follows _ _ hexpected rfl)
  | setNode | resolveGate => exact answering_follows _ (follows_of_only (only_ask rfl) w)
  | skipNode =>
    exact answering_follows _ (follows_of_only
      (skipWorkflowNode_only stateless_of_reads _ (fun _ _ => rfl) rfl) w)
  | expand =>
    exact answering_follows _ (follows_of_only (expandFanOut_only stateless_of_reads _ _ _ _ _
      (fun _ _ _ => rfl) (fun _ => rfl) fun _ => rfl) w)
  | defer =>
    exact answering_follows _ (follows_of_only (createDeferredJob_only stateless_of_reads _ _ _ _
      (fun _ _ _ => rfl) fun _ => rfl) w)
  | check =>
    exact answering_follows _ (follows_of_only
      (checkFanOutCompletion_only stateless_of_reads _ _ fun _ _ _ => rfl) w)

theorem machine_held :
    (machine ext h jobs).Held (service ext h jobs) (discipline ext h jobs) fun _ => True where
  refl _ := rfl
  trans h₁ h₂ := h₂.trans h₁
  stable _ _ := trivial
  arrive _ hexpected harrive := by
    cases harrive
    exact request_follows _ hexpected
  call hcall := hcall
  drift _ := rfl

/-! ## Runs of the service -/

/-- A call that delivers what it owes moves the state of a run along an edge,
if it moves it. -/
theorem answer_edge (howes : (machine ext h jobs).owes w c)
    {s : WorkflowState} (hs : w.store.stateOf id = some s) :
    ∃ s', (answer h jobs c w).2.store.stateOf id = some s' ∧
      (s = s' ∨ s.canTransitionTo s' = true) := by
  cases c with
  | createRun run =>
    refine ⟨s, ?_, Or.inl rfl⟩
    have hanswer : answer h jobs (.createRun run) w = w.write _ := rfl
    rcases createWorkflowRun_fresh howes with ⟨e, hcreate⟩ | ⟨runs, hcreate, hfind⟩
    all_goals rw [hanswer, hcreate]
    · exact hs
    · show (runs.find id).map WorkflowRun.state = some s
      rw [hfind, if_neg]
      · exact hs
      · rintro rfl
        have hnone : w.store.runs.find run.id = none := howes
        rw [Store.stateOf, hnone] at hs
        cases hs
  | updateRunState runId state error =>
    by_cases hid : id = runId
    · subst hid
      show ∃ s', (updateWorkflowRunState h id state error w.store).stateOf id = some s' ∧ _
      unfold Store.stateOf updateWorkflowRunState
      rw [find_updateRun]
      split
      · obtain ⟨run, hrun, _⟩ := Option.map_eq_some_iff.mp hs
        exact ⟨state, by rw [hrun]; rfl, howes s hs⟩
      · exact ⟨s, hs, Or.inl rfl⟩
    · refine ⟨s, ?_, Or.inl rfl⟩
      exact (stateOf_updateState runId state error w.store hid).trans hs
  | _ => exact ⟨s, (stateOf_answer rfl w id).trans hs, Or.inl rfl⟩

theorem next_edge {p p' : Pool Call Call.Answer Response (World Q)} {t : Turn Request (Q → Q)}
    (hp : p.Solo (service ext h jobs) (machine ext h jobs) fun _ => True)
    (hok : p.Orderly (discipline ext h jobs) t) (hnext : p.next (service ext h jobs) t = some p')
    {s : WorkflowState} (hs : p.world.store.stateOf id = some s) :
    ∃ s', p'.world.store.stateOf id = some s' ∧ (s = s' ∨ s.canTransitionTo s' = true) := by
  cases t with
  | arrive | drift =>
    cases hnext
    exact ⟨s, hs, Or.inl rfl⟩
  | step =>
    have howed := fun c hi => machine_held.owed hp (c := c) hok hi
    obtain ⟨c, k, hi, hhead, rfl⟩ := Pool.next_step hnext
    exact answer_edge (howed c hhead) hs

/-- A run that has ended well, was cancelled or was undone. -/
def WorkflowState.closed : WorkflowState → Bool
  | .completed | .cancelled | .compensated => true
  | _ => false

def WorkflowState.saga : WorkflowState → Bool
  | .compensating | .compensated | .compensationFailed => true
  | _ => false

theorem saga_of_edge {s s₁ s₂ : WorkflowState} (hs : s.closed = true)
    (h₁ : s₁ = s ∨ s₁.saga = true) (hedge : s₁ = s₂ ∨ s₁.canTransitionTo s₂ = true) :
    s₂ = s ∨ s₂.saga = true := by
  rcases hedge with rfl | hedge
  · exact h₁
  · refine Or.inr ?_
    rcases h₁ with rfl | hsaga
    · revert hs hedge
      cases s₁ <;> cases s₂ <;> decide
    · revert hsaga hedge
      cases s₁ <;> cases s₂ <;> decide

/-- **A run's state follows the machine** under the discipline, and no later
turn takes a completed, a cancelled or a compensated run anywhere but into a
saga. -/
theorem states_follow_machine (ext : Externals) (h : Handle) (jobs : JobQueue Q) (w₀ : World Q)
    {p : Pool Call Call.Answer Response (World Q)}
    (hp : Reaches (Pool.next (service ext h jobs)) (Pool.Orderly (discipline ext h jobs))
      ⟨w₀, []⟩ p) {runId : String} {s : WorkflowState}
    (hs : p.world.store.stateOf runId = some s) :
    (∀ t p', p.Orderly (discipline ext h jobs) t → p.next (service ext h jobs) t = some p' →
      ∃ s', p'.world.store.stateOf runId = some s' ∧ (s = s' ∨ s.canTransitionTo s' = true)) ∧
    (s.closed = true → ∀ p', Reaches (Pool.next (service ext h jobs))
      (Pool.Orderly (discipline ext h jobs)) p p' →
      ∃ s', p'.world.store.stateOf runId = some s' ∧ (s' = s ∨ s'.saga = true)) := by
  have hsolo := machine_held.sound (Pool.solo_start trivial) hp
  refine ⟨fun t p' hok hnext => next_edge hsolo hok hnext hs, fun hclosed p' hp' => ?_⟩
  -- The state stays among its own and those of a saga, and one client at a time is at work.
  have hboth := hp'.invariant (I := fun q =>
    q.Solo (service ext h jobs) (machine ext h jobs) (fun _ => True) ∧
      ∃ s', q.world.store.stateOf runId = some s' ∧ (s' = s ∨ s'.saga = true))
    ⟨hsolo, s, hs, Or.inl rfl⟩ ?_
  · exact hboth.2
  · rintro q t q' ⟨hq, s₁, hs₁, hamong⟩ hok hnext
    obtain ⟨s₂, hs₂, hedge⟩ := next_edge hq hok hnext hs₁
    exact ⟨machine_held.next hq hok hnext, s₂, hs₂, saga_of_edge hclosed hamong hedge⟩

abbrev promptly : Terms Request (Sql.Store → Sql.Store) Call (World Sql.Store) where
  arrive w
    | .submit .. => w.store.runs.rows = [] ∧ w.store.nodes.rows = []
    | .mark .. => True
    | _ => False
  call := (discipline (smallExternals ["a"]) sqliteHandle sqlJobs).call
  drift _ _ := True

instance (s : Store) (runId : String) (states : List WorkflowState) :
    Decidable (s.In runId states) :=
  inferInstanceAs (Decidable (∀ state ∈ s.stateOf runId, state ∈ states))

instance (found : Option Job) (route : Job → Option (String × String)) (P : String → Prop)
    [DecidablePred P] : Decidable (∀ job runId nodeName, found = some job →
      route job = some (runId, nodeName) → P runId) :=
  decidable_of_iff (∀ job ∈ found, ∀ k ∈ route job, P k.1)
    ⟨fun hall job _ _ hjob hroute => hall job hjob _ hroute,
      fun hall job hjob k hk => hall job k.1 k.2 hjob hk⟩

instance (w : World Q) (c : Call) : Decidable ((discipline ext h jobs).call w c) := by
  cases c <;> unfold discipline <;> infer_instance
instance (w : World Sql.Store) (request : Request) : Decidable (promptly.arrive w request) := by
  cases request <;> unfold promptly <;> infer_instance

theorem orderly_of_promptly {p : Pool Call Call.Answer Response (World Sql.Store)}
    {t : Turn Request (Sql.Store → Sql.Store)} (hok : p.Orderly promptly t) :
    p.Orderly (discipline (smallExternals ["a"]) sqliteHandle sqlJobs) t := by
  refine ⟨?_, hok.2⟩
  obtain ⟨hmet, -⟩ := hok
  cases t with
  | arrive request =>
    cases request with
    | submit =>
      obtain ⟨hruns, hnodes⟩ := hmet
      refine ⟨by simp [Table.find, hruns], fun name => by simp [Table.find, hnodes], ?_⟩
      intro ordered hordered
      exact (topologicalOrder_ok (sorts_smallExternals (by decide) (by decide)) hordered).1
    | mark => exact trivial
    | _ => exact absurd hmet id
  | step => exact hmet
  | drift => exact trivial

/-- A run that is submitted, worked and reported in turn has completed, and
stays completed or goes into a saga. -/
theorem reported_run_stays : ∃ p,
    Reaches (Pool.next (service (smallExternals ["a"]) sqliteHandle sqlJobs))
      (Pool.Orderly (discipline (smallExternals ["a"]) sqliteHandle sqlJobs)) ⟨emptyWorld, []⟩ p ∧
    p.world.store.stateOf "r" = some .completed ∧
    ∀ p', Reaches (Pool.next (service (smallExternals ["a"]) sqliteHandle sqlJobs))
      (Pool.Orderly (discipline (smallExternals ["a"]) sqliteHandle sqlJobs)) p p' →
      ∃ s', p'.world.store.stateOf "r" = some s' ∧ (s' = .completed ∨ s'.saga = true) := by
  obtain ⟨p, hp, hcompleted⟩ : ∃ p,
      Reaches (Pool.next (service (smallExternals ["a"]) sqliteHandle sqlJobs))
        (Pool.Orderly promptly) ⟨emptyWorld, []⟩ p ∧
      p.world.store.stateOf "r" = some .completed :=
    exists_reached
      ([.arrive (.submit (smallRequest ["a"]) smallMinted)] ++ List.replicate 6 (.step 0) ++
        [.drift (worked "j0" 1), .arrive (.mark "j0" true none false none 2)] ++
        List.replicate 5 (.step 1))
  have hp := hp.mono fun _ _ => orderly_of_promptly
  exact ⟨p, hp, hcompleted, (states_follow_machine _ _ _ _ hp hcompleted).2 rfl⟩

/-! ## The machine is not followed -/

/-- The outcome of the only node is handled between its row and the last
write of the submission: the run is completed, and then it is running. -/
theorem outcome_overtakes_submission : ∃ p p',
    Reaches (Pool.next (service (smallExternals ["a"]) sqliteHandle sqlJobs)) Terms.any.Met
      ⟨emptyWorld, []⟩ p ∧
    p.next (service (smallExternals ["a"]) sqliteHandle sqlJobs) (.step 0) = some p' ∧
    p.world.store.stateOf "r" = some .completed ∧
    p'.world.store.stateOf "r" = some .running := by
  obtain ⟨p, hp, hcompleted, hrunning⟩ : ∃ p,
      Reaches (Pool.next (service (smallExternals ["a"]) sqliteHandle sqlJobs)) Terms.any.Met
        ⟨emptyWorld, []⟩ p ∧
      p.world.store.stateOf "r" = some .completed ∧
      (p.next (service (smallExternals ["a"]) sqliteHandle sqlJobs) (.step 0)).map
        (fun p' => p'.world.store.stateOf "r") = some (some .running) :=
    exists_reached
      ([.arrive (.submit (smallRequest ["a"]) smallMinted)] ++ List.replicate 5 (.step 0) ++
        [.drift (worked "j0" 1), .arrive (.mark "j0" true none false none 2)] ++
        List.replicate 5 (.step 1))
  obtain ⟨p', hnext, hstate⟩ := Option.map_eq_some_iff.mp hrunning
  exact ⟨p, p', hp, hnext, hcompleted, hstate⟩

end FlexiQ.Workflow
