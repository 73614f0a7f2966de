/-
# `Workflow.Whole` — does a run complete only when its whole graph has?

A report finalizes a run if all the rows it finds are done.  While the
submission is still adding rows that says nothing about the graph: the report
of the first of two nodes, coming in before the second has a row, completes
the run.

If outcomes are reported only of runs whose submission has returned, it does
hold, for any number of reports and submissions side by side and on every
backend.
-/
import FlexiQ.Lib.Owner
import FlexiQ.Workflow.Effects
import FlexiQ.Workflow.Loop
import FlexiQ.Workflow.Snapshot

namespace FlexiQ.Workflow

open List Option FlexiQ.Lib FlexiQ.Resilience FlexiQ.Lib.Prog Table
open Function (update update_apply update_self update_of_ne)

variable {Q : Type} (ext : Externals) (h : Handle) (jobs : JobQueue Q)

variable {s s' : Store} {c : Call} {id n : String} {node : WorkflowNode}
  {ordered : List TopologicalNode} {st : JobStatus}

/-! ## The stores as a snapshot -/

def Store.graph (s : Store) (runId : String) : Option (List TopologicalNode) := do
  let run ← s.runs.find runId
  let definition ← s.definitions.find run.definitionId
  (ext.topologicalOrder definition.dagData).toOption

def jobAt (q : Q) (id : String) : Option ((String × String) × JobStatus) :=
  (jobs.find q id).bind fun job => (routing ext.serde job.metadata).map fun k => (k, job.status)

/-- The stores, and the first failures as an observer has noted them. -/
abbrev Watched (Q : Type) := World Q × (String → Option String)

def snapshot (x : Watched Q) : Snapshot where
  state := x.1.store.stateOf
  graph := x.1.store.graph ext
  row k := (x.1.store.nodes.find k).map WorkflowNode.status
  job := jobAt ext jobs x.1.queue
  first := x.2

/-- The observer that notes the first node of each run to be set failed. -/
def failures : Observer Request (Q → Q) Call Call.Answer (World Q) (String → Option String) where
  call c _ w _ first :=
    match c with
    | .setNode runId nodeName (.failed _) =>
      if (getWorkflowNode h runId nodeName w.store).isSome then
        Function.update first runId (first runId <|> some nodeName)
      else first
    | _ => first

/-- Every run is in the handle's namespace, and has its definition. -/
structure Filed (s : Store) : Prop where
  named : ∀ {r run}, s.runs.find r = some run → run.namespace = h.namespace
  defined : ∀ {r run}, s.runs.find r = some run → s.definitions.find run.definitionId ≠ none

/-- The submission of the run is over. -/
def Submitted (w : World Q) (runId : String) : Prop :=
  ∃ state, w.store.stateOf runId = some state ∧ state ≠ .pending

/-! ## The terms -/

/-- What workers do to the job store: the jobs of the nodes stay, and stay as
they are once they are over; none comes in otherwise. -/
structure Worked (q q' : Q) : Prop where
  kept : ∀ {id k st}, jobAt ext jobs q id = some (k, st) →
    ∃ st', jobAt ext jobs q' id = some (k, st') ∧ (st.finished = true → st' = st)
  old : ∀ {id k st'}, jobAt ext jobs q' id = some (k, st') →
    ∃ st, jobAt ext jobs q id = some (k, st)

/-- Submissions, reports and finalizations.  A report says how the job of a
node ended, and comes after the submission of its run has returned; ids are
minted once, and the queue takes the jobs it is given. -/
def reporting : Terms Request (Q → Q) Call (World Q) where
  arrive w
    | .submit .. => True
    | .mark jobId succeeded .. => ∃ k st, jobAt ext jobs w.queue jobId = some (k, st) ∧
        st.finished = true ∧ (succeeded = true ↔ st = .complete) ∧ Submitted w k.1
    | .finalize runId _ => Submitted w runId
    | _ => False
  call w
    | .createDefinition definition => w.store.definitions.find definition.id = none
    | .createRun run => w.store.runs.find run.id = none
    | .enqueue new id now =>
      jobs.find w.queue id = none ∧ ∃ job, (jobs.enqueue new id now w.queue).1 = .ok job
    | _ => True
  drift w f := Worked ext jobs w.queue (f w.queue)

/-- The run is whole: every node of its graph has a row, no row is open, and
no job of the run is. -/
structure Whole (w : World Q) (runId : String) : Prop where
  rowed : ∃ ordered, w.store.graph ext runId = some ordered ∧
    ∀ topo ∈ ordered, (w.store.nodes.find (runId, topo.name)).isSome = true
  ended : ∀ node ∈ w.store.nodesOf runId,
    node.status ≠ .pending ∧ node.status ≠ .running ∧ node.status ≠ .waitingApproval
  jobs : ∀ id job nodeName, jobs.find w.queue id = some job →
    routing ext.serde job.metadata = some (runId, nodeName) →
    job.status ≠ .pending ∧ job.status ≠ .running

/-! ## The covenant -/

/-- What a client holds after a call: a submission holds the run it created
until it sets it running. -/
def holds (t : Option String) (c : Call) (x : Watched Q) : Option String :=
  match c with
  | .createRun run =>
    match (createWorkflowRun h run x.1.store).1 with
    | .ok _ => some run.id
    | .error _ => t
  | .updateRunState _ .running _ => none
  | _ => t

def after (c : Call) (x : Watched Q) : Watched Q :=
  (((service ext h jobs).watched (failures h)).exec c x).2

/-- The call is a move, keeps the stores in order, and completes only a whole
run. -/
structure Proper (t : Option String) (x : Watched Q) (c : Call) : Prop where
  move : Snapshot.Move t (snapshot ext jobs x) (snapshot ext jobs (after ext h jobs c x))
    (holds h t c x)
  filed : Filed h (after ext h jobs c x).1.store
  kept : ∀ id definition, x.1.store.definitions.find id = some definition →
    (after ext h jobs c x).1.store.definitions.find id = some definition
  whole : ∀ runId error, c = .updateRunState runId .completed error →
    (snapshot ext jobs x).Whole runId

def wholesome : Covenant Request Call Response (Watched Q) (Option String) where
  start _ := none
  retag t c x := holds h t c x
  inv x := (snapshot ext jobs x).Sane ∧ Filed h x.1.store
  stands x t := (snapshot ext jobs x).Stands t
  apart := Snapshot.Apart
  rely t x x' := Snapshot.Rely t (snapshot ext jobs x) (snapshot ext jobs x') ∧
    ∀ id definition, x.1.store.definitions.find id = some definition →
      x'.1.store.definitions.find id = some definition
  asks t x c := Proper ext h jobs t x c
  post _ _ _ := True

/-! ## The calls -/

section Calls

variable {ext h jobs} {t : Option String} {x : Watched Q}

/-- What the graph and the filing of a run go by. -/
def Store.file (s : Store) (runId : String) : Option (Option String × String) :=
  (s.runs.find runId).map fun run => (run.namespace, run.definitionId)

theorem graph_eq (s : Store) (runId : String) :
    s.graph ext runId = ((s.file runId).bind fun file => s.definitions.find file.2).bind
      fun definition => (ext.topologicalOrder definition.dagData).toOption := by
  unfold Store.graph Store.file
  cases s.runs.find runId <;> rfl

theorem Filed.congr (hs : Filed h s) (hfile : ∀ r, s'.file r = s.file r)
    (hdefs : ∀ id, s.definitions.find id ≠ none → s'.definitions.find id ≠ none) : Filed h s' := by
  have hold : ∀ {r run}, s'.runs.find r = some run → ∃ run', s.runs.find r = some run' ∧
      run'.namespace = run.namespace ∧ run'.definitionId = run.definitionId := by
    intro r run hrun
    have hsame := (hfile r).symm
    unfold Store.file at hsame
    rw [hrun] at hsame
    obtain ⟨run', hrun', hpair⟩ := map_eq_some_iff.mp hsame
    exact ⟨run', hrun', (Prod.mk.inj hpair).1, (Prod.mk.inj hpair).2⟩
  refine ⟨fun {r run} hrun => ?_, fun {r run} hrun => ?_⟩
  · obtain ⟨run', hrun', hns, -⟩ := hold hrun
    rw [← hns]
    exact hs.named hrun'
  · obtain ⟨run', hrun', -, hdef⟩ := hold hrun
    rw [← hdef]
    exact hdefs _ (hs.defined hrun')

theorem Filed.sees (hs : Filed h s) {r : String} (hr : s.stateOf r ≠ none) : h.sees s r = true := by
  obtain ⟨run, hrun⟩ : ∃ run, s.runs.find r = some run := by
    cases hrun : s.runs.find r with
    | none => exact absurd (by rw [Store.stateOf, hrun]; rfl) hr
    | some run => exact ⟨run, rfl⟩
  have hns := hs.named hrun
  unfold Handle.sees
  rw [hrun]
  cases hname : h.namespace with
  | none => rfl
  | some ns =>
    rw [hname] at hns
    simp [hns]

theorem proper_read (hc : c.reads = true) (hfiled : Filed h x.1.store) :
    Proper ext h jobs t x c := by
  have hafter : after ext h jobs c x = x := by
    cases c <;> first | rfl | cases hc
  have hholds : holds h t c x = t := by
    cases c <;> first | rfl | cases hc
  refine ⟨?_, ?_, ?_, ?_⟩
  · rw [hafter, hholds]
    exact .idle
  · rw [hafter]
    exact hfiled
  · rw [hafter]
    exact fun _ _ hd => hd
  · rintro runId error rfl
    cases hc

theorem Proper.of_move {t' : Option String} (hfiled : Filed h x.1.store)
    (hdefs : (after ext h jobs c x).1.store.definitions = x.1.store.definitions)
    (hfile : ∀ r, (after ext h jobs c x).1.store.file r = x.1.store.file r)
    (hholds : holds h t c x = t')
    (hmove : Snapshot.Move t (snapshot ext jobs x) (snapshot ext jobs (after ext h jobs c x)) t')
    (hwhole : ∀ runId error, c = .updateRunState runId .completed error →
      (snapshot ext jobs x).Whole runId) : Proper ext h jobs t x c where
  move := by
    rw [hholds]
    exact hmove
  filed := hfiled.congr hfile fun id hid => by rwa [hdefs]
  kept id definition hd := by rwa [hdefs]
  whole := hwhole

theorem graph_congr (hdefs : s'.definitions = s.definitions)
    (hfile : ∀ r, s'.file r = s.file r) : s'.graph ext = s.graph ext := by
  funext r
  rw [graph_eq, graph_eq, hfile, hdefs]

theorem file_of_runs (hruns : s'.runs = s.runs) (r : String) : s'.file r = s.file r := by
  unfold Store.file
  rw [hruns]

theorem state_of_runs (hruns : s'.runs = s.runs) : s'.stateOf = s.stateOf := by
  funext r
  unfold Store.stateOf
  rw [hruns]

theorem proper_updateRun {runId : String} {f : WorkflowRun → WorkflowRun}
    {hf : ∀ run, (f run).id = run.id} {t' : Option String} (hfiled : Filed h x.1.store)
    (hafter : after ext h jobs c x = (⟨updateRun h runId f hf x.1.store, x.1.queue⟩, x.2))
    (hkeep : ∀ run, ((f run).namespace, (f run).definitionId) = (run.namespace, run.definitionId))
    (hholds : holds h t c x = t') (state : String → Option WorkflowState)
    (hstate : ∀ r, (updateRun h runId f hf x.1.store).stateOf r = state r)
    (hmove : Snapshot.Move t (snapshot ext jobs x) { snapshot ext jobs x with state := state } t')
    (hwhole : ∀ runId error, c = .updateRunState runId .completed error →
      (snapshot ext jobs x).Whole runId) : Proper ext h jobs t x c := by
  have hdefs := updateRun_definitions (h := h) runId f hf x.1.store
  have hfile : ∀ r, (updateRun h runId f hf x.1.store).file r = x.1.store.file r :=
    updateRun_map hkeep x.1.store
  refine .of_move hfiled ?_ (fun r => ?_) hholds ?_ hwhole <;> rw [hafter]
  · exact hdefs
  · exact hfile r
  · convert hmove using 1
    refine Snapshot.ext (funext hstate) (graph_congr hdefs hfile) ?_ rfl rfl
    funext k
    show ((updateRun h runId f hf x.1.store).nodes.find k).map _ = _
    rw [updateRun_nodes]
    rfl

theorem proper_setRunCompleted (runId : String) (completedAt : Int) (hfiled : Filed h x.1.store) :
    Proper ext h jobs t x (.setRunCompleted runId completedAt) := by
  refine proper_updateRun hfiled rfl (fun _ => rfl) rfl x.1.store.stateOf (fun r => ?_) .idle
    fun _ _ hc => by cases hc
  exact updateRun_map (f := fun run => { run with completedAt := some completedAt })
    (fun _ => rfl) x.1.store r

theorem proper_updateRunState {runId : String} {state : WorkflowState} (error : Option String)
    {t' : Option String} (hfiled : Filed h x.1.store)
    (hrun : (snapshot ext jobs x).state runId ≠ none)
    (hholds : holds h t (.updateRunState runId state error) x = t')
    (hmove : Snapshot.Move t (snapshot ext jobs x) { snapshot ext jobs x with
      state := update (snapshot ext jobs x).state runId (some state) } t')
    (hwhole : state = .completed → (snapshot ext jobs x).Whole runId) :
    Proper ext h jobs t x (.updateRunState runId state error) := by
  refine proper_updateRun hfiled rfl (fun _ => rfl) hholds _ (fun r => ?_) hmove fun r e hc => ?_
  · show _ = update x.1.store.stateOf runId (some state) r
    rw [update_apply]
    unfold Store.stateOf
    rw [find_updateRun]
    by_cases hr : r = runId
    · subst hr
      rw [if_pos ⟨hfiled.sees hrun, rfl⟩, if_pos rfl, Option.map_map]
      cases hfound : x.1.store.runs.find r with
      | none => exact absurd (by show (x.1.store.runs.find r).map _ = none; rw [hfound]; rfl) hrun
      | some run => rfl
    · rw [if_neg (fun hboth => hr hboth.2), if_neg hr]
  · cases hc
    exact hwhole rfl

theorem proper_createDefinition {definition : WorkflowDefinition} (hfiled : Filed h x.1.store)
    (hfresh : x.1.store.definitions.find definition.id = none) :
    Proper ext h jobs t x (.createDefinition definition) := by
  have hafter : (after ext h jobs (.createDefinition definition) x).1.store =
      (createWorkflowDefinition h definition x.1.store).2 := rfl
  have hruns := (createWorkflowDefinition_frame (h := h) definition x.1.store).1
  have hnodes := (createWorkflowDefinition_frame (h := h) definition x.1.store).2
  have hkept : ∀ id d, x.1.store.definitions.find id = some d →
      (createWorkflowDefinition h definition x.1.store).2.definitions.find id = some d := by
    intro id d hd
    unfold createWorkflowDefinition
    dsimp only
    split
    · exact hd
    · rw [find_upsert, if_neg]
      · exact hd
      · rintro rfl
        rw [hfresh] at hd
        cases hd
  have hsame : snapshot ext jobs (after ext h jobs (.createDefinition definition) x) =
      snapshot ext jobs x := by
    refine Snapshot.ext ?_ ?_ ?_ rfl rfl
    · exact state_of_runs hruns
    · funext r
      show (after ext h jobs (.createDefinition definition) x).1.store.graph ext r =
        x.1.store.graph ext r
      rw [hafter, graph_eq, graph_eq, file_of_runs hruns]
      cases hfile : x.1.store.file r with
      | none => rfl
      | some file =>
        obtain ⟨run, hrun, rfl⟩ := map_eq_some_iff.mp hfile
        obtain ⟨d, hd⟩ := ne_none_iff_exists'.mp (hfiled.defined hrun)
        rw [bind_some, bind_some, hd, hkept _ d hd]
    · funext k
      show ((createWorkflowDefinition h definition x.1.store).2.nodes.find k).map _ = _
      rw [hnodes]
      rfl
  refine ⟨?_, ?_, ?_, fun _ _ hc => by cases hc⟩
  · rw [hsame]
    exact .idle
  · rw [hafter]
    refine hfiled.congr (file_of_runs hruns) fun id hid => ?_
    obtain ⟨d, hd⟩ := ne_none_iff_exists'.mp hid
    rw [hkept id d hd]
    exact some_ne_none d
  · rw [hafter]
    exact hkept

theorem proper_createRun {run : WorkflowRun} (hfiled : Filed h x.1.store)
    (hfresh : x.1.store.runs.find run.id = none) (hstate : run.state = .pending)
    (hdefined : x.1.store.definitions.find run.definitionId ≠ none) :
    Proper ext h jobs none x (.createRun run) ∧
      ((answer h jobs (.createRun run) x.1).1 = .ok () →
        holds h none (.createRun run) x = some run.id ∧
        snapshot ext jobs (after ext h jobs (.createRun run) x) = { snapshot ext jobs x with
          state := update (snapshot ext jobs x).state run.id (some .pending)
          graph := update (snapshot ext jobs x).graph run.id
            ((x.1.store.definitions.find run.definitionId).bind fun definition =>
              (ext.topologicalOrder definition.dagData).toOption) }) := by
  have hafter : after ext h jobs (.createRun run) x =
      ((x.1.write (createWorkflowRun h run x.1.store)).2, x.2) := rfl
  rcases createWorkflowRun_fresh hfresh with ⟨e, hcreate⟩ | ⟨runs, hcreate, hfind⟩
  all_goals rw [hcreate] at hafter
  · have hholds : holds h none (.createRun run) x = none := by
      unfold holds
      dsimp only
      rw [hcreate]
    refine ⟨⟨?_, ?_, ?_, fun _ _ hc => by cases hc⟩, fun hok => ?_⟩
    · rw [hafter, hholds]
      exact .idle
    · rw [hafter]
      exact hfiled
    · rw [hafter]
      exact fun _ _ hd => hd
    · have hok : (createWorkflowRun h run x.1.store).1 = .ok () := hok
      rw [hcreate] at hok
      cases hok
  · have hholds : holds h none (.createRun run) x = some run.id := by
      unfold holds
      dsimp only
      rw [hcreate]
    have hnostate : x.1.store.stateOf run.id = none := by
      unfold Store.stateOf
      rw [hfresh]
      rfl
    have hnograph : x.1.store.graph ext run.id = none := by
      unfold Store.graph
      rw [hfresh]
      rfl
    have hsame : snapshot ext jobs (after ext h jobs (.createRun run) x) =
        { snapshot ext jobs x with
          state := update (snapshot ext jobs x).state run.id (some .pending)
          graph := update (snapshot ext jobs x).graph run.id
            ((x.1.store.definitions.find run.definitionId).bind fun definition =>
              (ext.topologicalOrder definition.dagData).toOption) } := by
      rw [hafter]
      refine Snapshot.ext ?_ ?_ ?_ rfl rfl
      · funext r
        show (runs.find r).map WorkflowRun.state =
          update x.1.store.stateOf run.id (some .pending) r
        rw [update_apply, hfind]
        unfold Store.stateOf
        by_cases hr : r = run.id
        · rw [if_pos hr.symm, if_pos hr, ← hstate]
          rfl
        · rw [if_neg (fun heq => hr heq.symm), if_neg hr]
      · funext r
        show Store.graph ext { x.1.store with runs := runs } r =
          update (x.1.store.graph ext) run.id _ r
        rw [update_apply]
        unfold Store.graph
        rw [hfind]
        split
        · next hr =>
          rw [if_pos hr.symm]
          rfl
        · next hr => rw [if_neg (fun heq => hr heq.symm)]
      · rfl
    refine ⟨⟨?_, ?_, ?_, fun _ _ hc => by cases hc⟩, fun _ => ⟨hholds, hsame⟩⟩
    · rw [hsame, hholds]
      exact .create run.id _ rfl hnostate hnograph
    · rw [hafter]
      refine ⟨fun {r run'} hrun' => ?_, fun {r run'} hrun' => ?_⟩
      · have hrun' : runs.find r = some run' := hrun'
        rw [hfind] at hrun'
        split at hrun'
        · cases hrun'
          rfl
        · exact hfiled.named hrun'
      · have hrun' : runs.find r = some run' := hrun'
        rw [hfind] at hrun'
        split at hrun'
        · cases hrun'
          exact hdefined
        · exact hfiled.defined hrun'
    · rw [hafter]
      exact fun _ _ hd => hd

theorem proper_queue (q' : Q) (hfiled : Filed h x.1.store)
    (hafter : after ext h jobs c x = (⟨x.1.store, q'⟩, x.2)) (hholds : holds h t c x = t)
    (hmove : Snapshot.Move t (snapshot ext jobs x)
      { snapshot ext jobs x with job := jobAt ext jobs q' } t)
    (hc : ∀ runId error, c ≠ .updateRunState runId .completed error) :
    Proper ext h jobs t x c := by
  refine .of_move hfiled ?_ (fun r => ?_) hholds ?_ fun runId error heq =>
    absurd heq (hc runId error)
  · rw [hafter]
  · rw [hafter]
  · rw [hafter]
    exact hmove

theorem proper_enqueue (hjobs : jobs.Lawful) {new : NewJob} {r : String} {now : Int}
    (hfiled : Filed h x.1.store) (ht : t = some r) (hid : jobs.find x.1.queue id = none)
    (hok : ∃ job, (jobs.enqueue new id now x.1.queue).1 = .ok job)
    (hroute : routing ext.serde new.metadata = some (r, n))
    (hnew : ∀ id' st', (snapshot ext jobs x).job id' ≠ some ((r, n), st'))
    (hrow : (snapshot ext jobs x).row (r, n) = none) :
    Proper ext h jobs t x (.enqueue new id now) ∧
      ∃ st, snapshot ext jobs (after ext h jobs (.enqueue new id now) x) =
        { snapshot ext jobs x with
          job := update (snapshot ext jobs x).job id (some ((r, n), st)) } := by
  obtain ⟨job, hok⟩ := hok
  obtain ⟨-, ⟨job', hjob', hmeta⟩, hothers⟩ := hjobs.enqueued (Prod.ext hok rfl) hid
  have hsame : jobAt ext jobs (jobs.enqueue new id now x.1.queue).2 =
      update (snapshot ext jobs x).job id (some ((r, n), job'.status)) := by
    funext id'
    rw [update_apply]
    unfold jobAt
    split
    · next heq => rw [heq, hjob', bind_some, hmeta, hroute, map_some]
    · next hne =>
      rw [hothers id' hne]
      rfl
  refine ⟨proper_queue (jobs.enqueue new id now x.1.queue).2 hfiled rfl rfl ?_
    (fun _ _ hc => by cases hc), job'.status, Snapshot.ext rfl rfl rfl hsame rfl⟩
  rw [hsame]
  refine .enqueue id r n job'.status ht ?_ hnew hrow
  show jobAt ext jobs x.1.queue id = none
  unfold jobAt
  rw [hid]
  rfl

theorem jobAt_eq_some {q : Q} {k : String × String} :
    jobAt ext jobs q id = some (k, st) ↔ ∃ job, jobs.find q id = some job ∧
      routing ext.serde job.metadata = some k ∧ job.status = st := by
  unfold jobAt
  rw [bind_eq_some_iff]
  constructor
  · rintro ⟨job, hjob, hk⟩
    obtain ⟨k', hroute, hpair⟩ := map_eq_some_iff.mp hk
    cases hpair
    exact ⟨job, hjob, hroute, rfl⟩
  · rintro ⟨job, hjob, hroute, rfl⟩
    exact ⟨job, hjob, by rw [hroute]; rfl⟩

theorem works_of_steady {q q' : Q} (hs : jobs.Steady q q') : Worked ext jobs q q' where
  kept {id k st} hid := by
    obtain ⟨job, hjob, hroute, rfl⟩ := jobAt_eq_some.mp hid
    obtain ⟨job', hjob', hmeta, hstatus⟩ := hs.kept id job hjob
    exact ⟨job'.status, jobAt_eq_some.mpr ⟨job', hjob', hmeta ▸ hroute, rfl⟩, hstatus⟩
  old {id k st'} hid := by
    obtain ⟨job', hjob', hroute, -⟩ := jobAt_eq_some.mp hid
    obtain ⟨job, hjob⟩ := hs.old id job' hjob'
    obtain ⟨job'', hjob'', hmeta, -⟩ := hs.kept id job hjob
    cases hjob'.symm.trans hjob''
    exact ⟨job.status, jobAt_eq_some.mpr ⟨job, hjob, hmeta ▸ hroute, rfl⟩⟩

theorem Worked.works {q' : Q} (hw : Worked ext jobs x.1.queue q') :
    Snapshot.Works (snapshot ext jobs x)
      { snapshot ext jobs x with job := jobAt ext jobs q' } where
  state := rfl
  graph := rfl
  row := rfl
  first := rfl
  jobs := hw.kept
  old := hw.old

theorem proper_cancelJob (hjobs : jobs.Lawful) (id : String) (now : Int)
    (hfiled : Filed h x.1.store) : Proper ext h jobs t x (.cancelJob id now) :=
  proper_queue (jobs.cancelJob id h.namespace now x.1.queue).2 hfiled rfl rfl
    (.work (works_of_steady (hjobs.cancelled id h.namespace now x.1.queue)).works)
    (fun _ _ hc => by cases hc)

theorem proper_nodes {first : String → Option String}
    (hfiled : Filed h x.1.store) (hafter : after ext h jobs c x = (⟨s', x.1.queue⟩, first))
    (hframe : s' = { x.1.store with nodes := s'.nodes }) (hholds : holds h t c x = t)
    (row : String × String → Option WorkflowNodeStatus)
    (hrow : ∀ k, (s'.nodes.find k).map WorkflowNode.status = row k)
    (hmove : Snapshot.Move t (snapshot ext jobs x)
      { snapshot ext jobs x with row := row, first := first } t)
    (hc : ∀ runId error, c ≠ .updateRunState runId .completed error) :
    Proper ext h jobs t x c ∧ snapshot ext jobs (after ext h jobs c x) =
      { snapshot ext jobs x with row := row, first := first } := by
  have hruns : s'.runs = x.1.store.runs := by rw [hframe]
  have hdefs : s'.definitions = x.1.store.definitions := by rw [hframe]
  have hsame : snapshot ext jobs (after ext h jobs c x) =
      { snapshot ext jobs x with row := row, first := first } := by
    rw [hafter]
    exact Snapshot.ext (state_of_runs hruns) (graph_congr hdefs (file_of_runs hruns))
      (funext hrow) rfl rfl
  refine ⟨.of_move hfiled ?_ (fun r => ?_) hholds ?_ fun runId error heq =>
    absurd heq (hc runId error), hsame⟩
  · rw [hafter]
    exact hdefs
  · rw [hafter]
    exact file_of_runs hruns r
  · rw [hsame]
    exact hmove

theorem proper_createNode {r : String} (hfiled : Filed h x.1.store)
    (hrun : node.runId = r) (hname : node.nodeName = n) (ht : t = some r)
    (hstate : (snapshot ext jobs x).state r ≠ none) (hrow : (snapshot ext jobs x).row (r, n) = none)
    (hstatus : node.status = .pending ∨ node.status = .cacheHit ∧
      (snapshot ext jobs x).Fine (r, n)) :
    (Proper ext h jobs t x (.createNodesBatch [node]) ∧
      snapshot ext jobs (after ext h jobs (.createNodesBatch [node]) x) =
        { snapshot ext jobs x with
          row := update (snapshot ext jobs x).row (r, n) (some node.status) }) ∧
      (answer h jobs (.createNodesBatch [node]) x.1).1 = .ok () := by
  obtain ⟨s', hok, hframe, hfind⟩ := createWorkflowNode_fresh (hfiled.sees hstate) hrun hname
    (map_eq_none_iff.mp hrow)
  have hafter : after ext h jobs (.createNodesBatch [node]) x = (⟨s', x.1.queue⟩, x.2) := by
    show ((x.1.write (createWorkflowNodesBatch h [node] x.1.store)).2, x.2) = _
    rw [hok]
    rfl
  refine ⟨proper_nodes hfiled hafter hframe rfl
    (update (snapshot ext jobs x).row (r, n) (some node.status)) (fun k => ?_) ?_
    (fun _ _ hc => by cases hc), ?_⟩
  · rw [update_apply, hfind]
    split <;> rfl
  · exact .insert r n node.status ht hrow hstatus
  · show (createWorkflowNodesBatch h [node] x.1.store).1 = _
    rw [hok]

theorem proper_setNode (write : NodeWrite) {status : WorkflowNodeStatus} {r : String}
    (hfiled : Filed h x.1.store) (hstatus : ∀ node, (write.apply h.backend node).status = status)
    (hstate : (snapshot ext jobs x).state r ≠ none)
    (hrow : (snapshot ext jobs x).row (r, n) ≠ none)
    (hmove : Snapshot.Move t (snapshot ext jobs x) { snapshot ext jobs x with
      row := update (snapshot ext jobs x).row (r, n) (some status)
      first := (after ext h jobs (.setNode r n write) x).2 } t) :
    Proper ext h jobs t x (.setNode r n write) ∧
      snapshot ext jobs (after ext h jobs (.setNode r n write) x) = { snapshot ext jobs x with
        row := update (snapshot ext jobs x).row (r, n) (some status)
        first := (after ext h jobs (.setNode r n write) x).2 } := by
  obtain ⟨node, hnode⟩ : ∃ node, x.1.store.nodes.find (r, n) = some node := by
    obtain ⟨st, hst⟩ := ne_none_iff_exists'.mp hrow
    obtain ⟨node, hnode, -⟩ := map_eq_some_iff.mp hst
    exact ⟨node, hnode⟩
  have hfound : getWorkflowNode h r n x.1.store = some node :=
    getWorkflowNode_eq_some.mpr ⟨hfiled.sees hstate, hnode⟩
  obtain ⟨-, hfind⟩ := setNode_find write hfound
  have hafter : after ext h jobs (.setNode r n write) x =
      (⟨(setNode h r n write x.1.store).2, x.1.queue⟩,
        (after ext h jobs (.setNode r n write) x).2) := Prod.ext rfl rfl
  refine proper_nodes hfiled hafter
    (setNode_frame r n write x.1.store) rfl _ (fun k => ?_) hmove (fun _ _ hc => by cases hc)
  rw [hfind, update_apply]
  split
  · rw [map_some, hstatus]
  · rfl

end Calls

/-! ## Programs on the covenant -/

/-- What a client that holds `t` finds after others have had their turns. -/
structure Later (t : Option String) (x x' : Watched Q) : Prop where
  rely : Snapshot.Rely t (snapshot ext jobs x) (snapshot ext jobs x')
  kept : ∀ id definition, x.1.store.definitions.find id = some definition →
    x'.1.store.definitions.find id = some definition
  sane : (snapshot ext jobs x').Sane
  filed : Filed h x'.1.store
  stands : (snapshot ext jobs x').Stands t

/-- The program makes only proper calls, and comes to `P`. -/
def Makes {ε α : Type} (prog : Act ε α)
    (P : Except ε α → Watched Q × Option String → Prop) (y : Watched Q × Option String) : Prop :=
  prog.run.Keeps ((wholesome ext h jobs).exec ((service ext h jobs).watched (failures h)))
    ((wholesome ext h jobs).guard (reporting ext jobs).watched) P y

section Rules

variable {ext h jobs} {ε α β : Type} {t : Option String} {x : Watched Q}

theorem makes_ask {P : c.Answer → Watched Q × Option String → Prop}
    (hstep : ∀ x', Later ext h jobs t x x' → (reporting ext jobs).call x'.1 c →
      Proper ext h jobs t x' c ∧
        P (answer h jobs c x'.1).1 (after ext h jobs c x', holds h t c x')) :
    Makes ext h jobs (ask c) P (x, t) := by
  rintro ⟨x', t'⟩ ⟨ht, ⟨hrely, hkept⟩, ⟨hsane, hfiled⟩, hstands⟩ hcall
  obtain rfl : t' = t := ht
  exact hstep x' ⟨hrely, hkept, hsane, hfiled, hstands⟩ hcall

theorem Makes.bind {prog : Act ε α} {f : α → Act ε β}
    {P : Except ε β → Watched Q × Option String → Prop} {y : Watched Q × Option String}
    (hprog : Makes ext h jobs prog (onOk P fun a y' => Makes ext h jobs (f a) P y') y) :
    Makes ext h jobs (prog >>= f) P y := Keeps.tryBind hprog

theorem Makes.mono {prog : Act ε α} {P P' : Except ε α → Watched Q × Option String → Prop}
    {y : Watched Q × Option String} (hprog : Makes ext h jobs prog P y)
    (hP : ∀ r y', P r y' → P' r y') : Makes ext h jobs prog P' y := Keeps.mono hprog hP

theorem Makes.tried {prog : Act ε α} {ε' : Type}
    {P : Except ε' (Except ε α) → Watched Q × Option String → Prop} {y : Watched Q × Option String}
    (hprog : Makes ext h jobs prog (fun r y' => P (.ok r) y') y) :
    Makes ext h jobs (prog.tried : Act ε' _) P y := Keeps.lift hprog

theorem makes_store
    {P : Except SubmitWorkflowError c.Reply → Watched Q × Option String → Prop}
    (hstep : ∀ x', Later ext h jobs t x x' → (reporting ext jobs).call x'.1 c →
      Proper ext h jobs t x' c ∧ P ((answer h jobs c x'.1).1.mapError .storage)
        (after ext h jobs c x', holds h t c x')) :
    Makes ext h jobs (store (ask c)) P (x, t) := Keeps.adapt (makes_ask hstep)

end Rules

/-! ## Submissions -/

/-- A submission that has got as far as `rows`, with jobs for the nodes
`held`. -/
structure Upto (s : Snapshot) (r : String) (g : List TopologicalNode) (rows held : List String) :
    Prop where
  graph : s.graph r = some g
  norow : ∀ n, n ∉ rows → s.row (r, n) = none
  row : ∀ n ∈ rows, s.row (r, n) ≠ none
  job : ∀ id n st, s.job id = some ((r, n), st) → n ∈ held

theorem Upto.later {s s' : Snapshot} {r : String} {g : List TopologicalNode}
    {rows held : List String} (hu : Upto s r g rows held) (hrely : Snapshot.Rely (some r) s s') :
    Upto s' r g rows held where
  graph := hrely.graph hu.graph
  norow n hn := hrely.norow (Or.inr rfl) (hu.norow n hn)
  row n hn := hrely.rows (hu.row n hn)
  job id n st' hid := by
    obtain ⟨st, hold⟩ := hrely.nojob (Or.inr rfl) hid
    exact hu.job id n st hold

section Submissions

variable {ext h jobs} {req : SubmitStaticWorkflowRequest} {minted : Minted} {x : Watched Q}

theorem definitionFor_makes (req : SubmitStaticWorkflowRequest) (minted : Minted) (x : Watched Q) :
    Makes ext h jobs (definitionFor req minted) (fun r y => ∀ id, r = .ok id →
      y.2 = none ∧ ∃ d, y.1.1.store.definitions.find id = some d ∧ d.dagData = req.dagBytes)
      (x, none) := by
  refine Makes.bind (makes_store fun x' hlater _ => ⟨proper_read rfl hlater.filed, ?_⟩)
  show onOk _ _ (.ok (getWorkflowDefinition req.name req.version x'.1.store)) (x', none)
  cases hfound : getWorkflowDefinition req.name req.version x'.1.store with
  | some existing =>
    dsimp only [onOk]
    split
    · intro _ hok
      cases hok
    · next hsame =>
      rintro id ⟨⟩
      have hmem := mem_filter.mp (mem_of_find?_eq_some hfound)
      refine ⟨rfl, existing, find_of_mem hmem.1, ?_⟩
      simp only [Bool.or_eq_true, decide_eq_true_eq, not_or, not_not] at hsame
      exact hsame.1
  | none =>
    refine Makes.bind (makes_store fun x₁ hlater₁ hfresh =>
      ⟨proper_createDefinition hlater₁.filed hfresh, ?_⟩)
    generalize hnew : (⟨minted.definitionId, req.name, req.version, req.dagBytes,
      req.stepMetadata, minted.now⟩ : WorkflowDefinition) = new at hfresh ⊢
    have hcreate : answer h jobs (.createDefinition new) x₁.1 =
      x₁.1.write (createWorkflowDefinition h new x₁.1.store) := rfl
    unfold createWorkflowDefinition at hcreate
    dsimp only at hcreate
    split at hcreate
    · rw [hcreate]
      intro _ hok
      cases hok
    · rw [hcreate]
      rintro id ⟨⟩
      refine ⟨rfl, new, ?_, by rw [← hnew]⟩
      show (answer h jobs (.createDefinition new) x₁.1).2.store.definitions.find _ = _
      rw [hcreate]
      exact (find_upsert _ _ _).trans (if_pos (by rw [← hnew]))

theorem createRun_makes {d : WorkflowDefinition}
    (horder : ext.topologicalOrder req.dagBytes = .ok ordered)
    (hd : x.1.store.definitions.find id = some d) (hdag : d.dagData = req.dagBytes) :
    Makes ext h jobs (store (ask (.createRun (newRun req minted id))))
      (fun r y => r = .ok () → y.2 = some minted.runId ∧
        Upto (snapshot ext jobs y.1) minted.runId ordered [] []) (x, none) := by
  refine makes_store fun x' hlater hfresh => ?_
  have hd' := hlater.kept id d hd
  have hdefined : x'.1.store.definitions.find (newRun req minted id).definitionId ≠ none := by
    show x'.1.store.definitions.find id ≠ none
    rw [hd']
    exact some_ne_none d
  obtain ⟨hproper, hbegun⟩ := proper_createRun (x := x') hlater.filed hfresh rfl hdefined
  have hnostate : (snapshot ext jobs x').state minted.runId = none := by
    have hfresh : x'.1.store.runs.find minted.runId = none := hfresh
    show (x'.1.store.runs.find minted.runId).map _ = none
    rw [hfresh]
    rfl
  refine ⟨hproper, fun hok => ?_⟩
  have hok : (answer h jobs (.createRun (newRun req minted id)) x'.1).1 = .ok () := by
    generalize (answer h jobs (.createRun (newRun req minted id)) x'.1).1 = r at hok
    cases r with
    | error e => cases hok
    | ok => rfl
  obtain ⟨hholds, hsnap⟩ := hbegun hok
  refine ⟨hholds, ?_⟩
  rw [hsnap]
  refine ⟨?_, fun n _ => ?_, fun n hn => absurd hn not_mem_nil, fun id' n st hid => ?_⟩
  · show update _ minted.runId _ minted.runId = _
    rw [update_self]
    show (x'.1.store.definitions.find id).bind _ = _
    rw [hd', bind_some, hdag, horder]
    rfl
  · by_contra hrow
    exact hlater.sane.rooted hrow hnostate
  · exact absurd hnostate (hlater.sane.owned hid)

theorem createNode_makes {seen held : List String}
        (hu : Upto (snapshot ext jobs x) minted.runId ordered seen held) (hnew : n ∉ seen)
    (hrun : node.runId = minted.runId) (hname : node.nodeName = n)
    (hstatus : node.status = .pending ∨ node.status = .cacheHit ∧ n ∉ held)
    (hheld : ∀ m ∈ held, m ∈ n :: seen) :
    Makes ext h jobs (store (createWorkflowNode node))
      (fun r y => r = .ok () ∧ y.2 = some minted.runId ∧
        Upto (snapshot ext jobs y.1) minted.runId ordered (n :: seen) (n :: seen))
      (x, some minted.runId) := by
  refine makes_store fun x' hlater _ => ?_
  have hu' := hu.later hlater.rely
  have hstate : (snapshot ext jobs x').state minted.runId ≠ none := by
    rw [hlater.stands minted.runId rfl]
    exact some_ne_none _
  have hstatus' : node.status = .pending ∨ node.status = .cacheHit ∧
      (snapshot ext jobs x').Fine (minted.runId, n) :=
    hstatus.imp_right fun hhit =>
      ⟨hhit.1, fun id st hid => absurd (hu'.job id n st hid) hhit.2⟩
  obtain ⟨⟨hproper, hsnap⟩, hok⟩ := proper_createNode hlater.filed hrun hname rfl hstate
    (hu'.norow n hnew) hstatus'
  refine ⟨hproper, ?_, rfl, ?_⟩
  · rw [hok]
    rfl
  · rw [hsnap]
    refine ⟨hu'.graph, fun m hm => ?_, fun m hm => ?_, fun id m st hid =>
      hheld m (hu'.job id m st hid)⟩
    · rw [mem_cons, not_or] at hm
      have hne : (minted.runId, m) ≠ (minted.runId, n) := fun heq => hm.1 (Prod.mk.inj heq).2
      exact (update_of_ne hne ..).trans (hu'.norow m hm.2)
    · show update (snapshot ext jobs x').row (minted.runId, n) (some node.status)
        (minted.runId, m) ≠ none
      rw [update_apply]
      split
      · exact some_ne_none _
      · next hne =>
        refine hu'.row m ((mem_cons.mp hm).resolve_left fun heq => hne ?_)
        rw [heq]

theorem enqueue_makes (hjobs : jobs.Lawful) {seen : List String} {new : NewJob} {now : Int}
    (hu : Upto (snapshot ext jobs x) minted.runId ordered seen seen) (hnew : n ∉ seen)
    (hroute : routing ext.serde new.metadata = some (minted.runId, n)) :
    Makes ext h jobs (store (ask (.enqueue new id now)))
      (fun r y => ∃ job, r = .ok job ∧ y.2 = some minted.runId ∧
        Upto (snapshot ext jobs y.1) minted.runId ordered seen (n :: seen))
      (x, some minted.runId) := by
  refine makes_store fun x' hlater hcall => ?_
  obtain ⟨hid, hok⟩ := hcall
  have hu' := hu.later hlater.rely
  obtain ⟨hproper, st, hsnap⟩ := proper_enqueue hjobs hlater.filed rfl hid hok hroute
    (fun id' st' hid' => hnew (hu'.job id' n st' hid')) (hu'.norow n hnew)
  obtain ⟨job, hok⟩ := hok
  refine ⟨hproper, job, ?_, rfl, ?_⟩
  · show (jobs.enqueue new id now x'.1.queue).1.mapError _ = _
    rw [hok]
    rfl
  · rw [hsnap]
    refine ⟨hu'.graph, hu'.norow, hu'.row, fun id' m st' hid' => ?_⟩
    have hid' : update (snapshot ext jobs x').job id (some ((minted.runId, n), st)) id' =
      some ((minted.runId, m), st') := hid'
    rw [update_apply] at hid'
    split at hid'
    · cases hid'
      exact mem_cons_self
    · exact mem_cons_of_mem _ (hu'.job id' m st' hid')

theorem submit_makes (hjobs : jobs.Lawful) (hroutes : ext.Routes)
    (hordered : ∀ bytes ordered, ext.topologicalOrder bytes = .ok ordered → Sorted ordered [])
    (req : SubmitStaticWorkflowRequest) (minted : Minted) (x : Watched Q) :
    Makes ext h jobs (submitWorkflow ext req minted) (fun _ _ => True) (x, none) := by
  cases horder : ext.topologicalOrder req.dagBytes with
  | error e =>
    unfold submitWorkflow
    rw [horder]
    exact trivial
  | ok ordered =>
  refine submitWorkflow_keeps
    (B := fun seen _ y => y.2 = some minted.runId ∧
      Upto (snapshot ext jobs y.1) minted.runId ordered seen seen)
    (D := fun seen _ n _ y => y.2 = some minted.runId ∧
      Upto (snapshot ext jobs y.1) minted.runId ordered seen (n :: seen))
    (hordered req.dagBytes) (definitionFor_makes req minted x) ?_ ?_ ?_
  · rintro id ⟨x₁, t₁⟩ ⟨ht, d, hd, hdag⟩
    obtain rfl : t₁ = none := ht
    exact createRun_makes horder hd hdag
  · intro ordered' _
    refine ⟨?_, ?_, ?_⟩
    · rintro seen jobIds ⟨x₁, t₁⟩ topo node - hnew - ⟨ht, hu⟩ - hrun hname - hstatus
      obtain rfl : t₁ = some minted.runId := ht
      refine createNode_makes hu hnew hrun hname ?_ fun m hm => mem_cons_of_mem _ hm
      split at hstatus
      · exact Or.inr ⟨hstatus, hnew⟩
      · exact Or.inl hstatus
    · rintro seen jobIds ⟨x₁, t₁⟩ topo step payload dependsOn - hnew - ⟨ht, hu⟩ - - - -
      obtain rfl : t₁ = some minted.runId := ht
      exact enqueue_makes hjobs hu hnew (hroutes minted.runId topo.name)
    · rintro seen jobIds ⟨x₁, t₁⟩ topo job - hnew ⟨ht, hu⟩
      obtain rfl : t₁ = some minted.runId := ht
      exact createNode_makes hu hnew rfl rfl (Or.inl rfl) fun m hm => hm
  · rintro ordered' seen jobIds ⟨x₁, t₁⟩ horder' ⟨ht, hu⟩ hall
    obtain rfl : t₁ = some minted.runId := ht
    rw [horder] at horder'
    cases horder'
    refine makes_store fun x' hlater _ => ⟨?_, trivial⟩
    have hu' := hu.later hlater.rely
    have hpending := hlater.stands minted.runId rfl
    refine proper_updateRunState none hlater.filed (by rw [hpending]; exact some_ne_none _)
      rfl (.launch minted.runId rfl ⟨ordered, hu'.graph, fun topo htopo =>
        hu'.row topo.name (hall topo htopo)⟩ fun id n st hid => hu'.row n (hu'.job id n st hid))
      fun heq => by cases heq

end Submissions

/-! ## Reading the rows of a run -/

structure Listed (s : Snapshot) (r : String) (known : Option String)
    (nodes : List WorkflowNode) : Prop where
  all : ∀ n, s.row (r, n) ≠ none → ∃ node ∈ nodes, node.nodeName = n
  rows : ∀ node ∈ nodes, s.row (r, node.nodeName) ≠ none
  noted : ∀ node ∈ nodes, s.Noted r known node.nodeName node.status

theorem Listed.later {s s' : Snapshot} {r : String} {known : Option String}
    {nodes : List WorkflowNode} (hl : Listed s r known nodes) (hrely : Snapshot.Rely none s s')
    (hopen : s.Open r) : Listed s' r known nodes where
  all n hn := by
    refine hl.all n fun hnone => hn ?_
    exact hrely.norow (Or.inl hopen) hnone
  rows node hnode := hrely.rows (hl.rows node hnode)
  noted node hnode := (hl.noted node hnode).later hrely hopen

/-- A client that holds nothing has gone on from `x` to `y`. -/
def Went (x : Watched Q) (y : Watched Q × Option String) : Prop :=
  y.2 = none ∧ Snapshot.Rely none (snapshot ext jobs x) (snapshot ext jobs y.1)

section Reports

variable {ext h jobs} {x : Watched Q} {r : String} {known : Option String}

theorem Went.of_later {x' : Watched Q} (hlater : Later ext h jobs none x x') :
    Went ext jobs x (x', none) := ⟨rfl, hlater.rely⟩

theorem Went.trans {x₁ : Watched Q} {y : Watched Q × Option String}
    (hfirst : Went ext jobs x (x₁, none)) (hnext : Went ext jobs x₁ y) : Went ext jobs x y :=
  ⟨hnext.1, hfirst.2.trans hnext.2⟩

theorem Went.of_proper {x' : Watched Q} (hlater : Later ext h jobs none x x')
    (hproper : Proper ext h jobs none x' c) (hholds : holds h none c x' = none) :
    Went ext jobs x (after ext h jobs c x', holds h none c x') :=
  ⟨hholds, hlater.rely.trans (hproper.move.rely hlater.stands hlater.stands
    fun _ hr => nomatch hr)⟩

theorem row_of_node (hnode : x.1.store.nodes.find (r, n) = some node) :
    (snapshot ext jobs x).row (r, n) = some node.status := by
  show (x.1.store.nodes.find (r, n)).map _ = _
  rw [hnode]
  rfl

theorem node_of_row (hrow : (snapshot ext jobs x).row (r, n) ≠ none) :
    ∃ node, x.1.store.nodes.find (r, n) = some node ∧ node.runId = r ∧ node.nodeName = n := by
  obtain ⟨st, hst⟩ := ne_none_iff_exists'.mp hrow
  obtain ⟨node, hnode, -⟩ := map_eq_some_iff.mp hst
  have hkey : node.key = (r, n) := key_of_find hnode
  exact ⟨node, hnode, (Prod.mk.inj hkey).1, (Prod.mk.inj hkey).2⟩

theorem readNodes_makes : ∀ {names : List String} {x : Watched Q},
    (snapshot ext jobs x).Open r → (∀ f, known = some f → (snapshot ext jobs x).first r = some f) →
    (∀ n ∈ names, (snapshot ext jobs x).row (r, n) ≠ none) →
    Makes ext h jobs (readNodes r names)
      (fun res y => ∃ nodes, res = .ok nodes ∧ Went ext jobs x y ∧
        (∀ n ∈ names, ∃ node ∈ nodes, node.nodeName = n) ∧
        ∀ node ∈ nodes, (snapshot ext jobs y.1).row (r, node.nodeName) ≠ none ∧
          (snapshot ext jobs y.1).Noted r known node.nodeName node.status) (x, none)
  | [], x, _, _, _ =>
    ⟨[], rfl, ⟨rfl, .refl none _⟩, fun _ hn => absurd hn not_mem_nil,
      fun _ hnode => absurd hnode not_mem_nil⟩
  | name :: names, x, hopen, hknown, hrows => by
    refine Makes.bind (makes_ask fun x₁ hlater _ => ⟨proper_read rfl hlater.filed, ?_⟩)
    have hopen₁ := hlater.rely.opened hopen
    have hrow := hlater.rely.rows (hrows name mem_cons_self)
    obtain ⟨node, hnode, -, hname⟩ := node_of_row hrow
    have hread : getWorkflowNode h r name x₁.1.store = some node :=
      getWorkflowNode_eq_some.mpr ⟨hlater.filed.sees hopen₁.state_ne, hnode⟩
    show Makes ext h jobs (readNodes r names >>= fun nodes =>
      pure ((getWorkflowNode h r name x₁.1.store).toList ++ nodes)) _ (x₁, none)
    rw [hread]
    have hknown₁ : ∀ f, known = some f → (snapshot ext jobs x₁).first r = some f :=
      fun f hf => hlater.rely.first (hknown f hf)
    refine Makes.bind ((readNodes_makes hopen₁ hknown₁ fun n hn =>
      hlater.rely.rows (hrows n (mem_cons_of_mem _ hn))).mono ?_)
    rintro res y ⟨nodes, rfl, hwent, hall, hnoted⟩
    refine ⟨node :: nodes, rfl, (Went.of_later hlater).trans hwent, ?_, ?_⟩
    · intro n hn
      rcases mem_cons.mp hn with rfl | hn
      · exact ⟨node, mem_cons_self, hname⟩
      · obtain ⟨other, hother, hon⟩ := hall n hn
        exact ⟨other, mem_cons_of_mem _ hother, hon⟩
    · intro other hother
      rcases mem_cons.mp hother with rfl | hother
      · rw [hname]
        exact ⟨hwent.2.rows hrow,
          (hlater.sane.noted (row_of_node hnode) hknown₁).later hwent.2 hopen₁⟩
      · exact hnoted other hother

theorem nodesOf_spec : node ∈ s.nodesOf r ↔ s.nodes.find (r, node.nodeName) = some node := by
  unfold Store.nodesOf
  rw [mem_filter, decide_eq_true_eq]
  constructor
  · rintro ⟨hmem, hrun⟩
    have hfind := find_of_mem hmem
    unfold WorkflowNode.key at hfind
    rwa [hrun] at hfind
  · intro hfind
    have hkey : node.key = (r, node.nodeName) := key_of_find hfind
    exact ⟨(find_eq_some.mp hfind).1, (Prod.mk.inj hkey).1⟩

theorem getWorkflowNodes_makes (known : Option String) (hopen : (snapshot ext jobs x).Open r)
    (hknown : ∀ f, known = some f → (snapshot ext jobs x).first r = some f) :
    Makes ext h jobs (getWorkflowNodes h.backend r)
      (fun res y => ∃ nodes, res = .ok nodes ∧ Went ext jobs x y ∧
        Listed (snapshot ext jobs y.1) r known nodes) (x, none) := by
  have hselect : ∀ {x' : Watched Q}, Later ext h jobs none x x' →
      selectNodes h r x'.1.store = x'.1.store.nodesOf r := by
    intro x' hlater
    unfold selectNodes
    rw [if_pos (hlater.filed.sees (hlater.rely.opened hopen).state_ne)]
  have hmem : ∀ {x' : Watched Q} {n}, (snapshot ext jobs x').row (r, n) ≠ none →
      ∃ node ∈ x'.1.store.nodesOf r, node.nodeName = n := by
    intro x' n hrow
    obtain ⟨node, hnode, -, rfl⟩ := node_of_row hrow
    exact ⟨node, nodesOf_spec.mpr hnode, rfl⟩
  have hsql : Makes ext h jobs (ask (.selectNodes r))
      (fun res y => ∃ nodes, res = .ok nodes ∧ Went ext jobs x y ∧
        Listed (snapshot ext jobs y.1) r known nodes) (x, none) := by
    refine makes_ask fun x' hlater _ => ⟨proper_read rfl hlater.filed, x'.1.store.nodesOf r, ?_,
      .of_later hlater, fun n hn => hmem hn, fun node hnode => ?_, fun node hnode => ?_⟩
    · show Except.ok (selectNodes h r x'.1.store) = _
      rw [hselect hlater]
    · show (snapshot ext jobs x').row _ ≠ none
      rw [row_of_node (nodesOf_spec.mp hnode)]
      exact some_ne_none _
    · exact hlater.sane.noted (row_of_node (nodesOf_spec.mp hnode))
        fun f hf => hlater.rely.first (hknown f hf)
  unfold getWorkflowNodes
  split
  · refine Makes.bind (makes_ask fun x' hlater _ => ⟨proper_read rfl hlater.filed, ?_⟩)
    have hopen' := hlater.rely.opened hopen
    show Makes ext h jobs (readNodes r (nodeNames h r x'.1.store)) _ (x', none)
    have hnames : nodeNames h r x'.1.store =
        (x'.1.store.nodesOf r).map WorkflowNode.nodeName := by
      unfold nodeNames
      rw [hselect hlater]
    rw [hnames]
    refine (readNodes_makes hopen' (fun f hf => hlater.rely.first (hknown f hf))
      fun n hn => ?_).mono ?_
    · obtain ⟨node, hnode, rfl⟩ := mem_map.mp hn
      rw [row_of_node (nodesOf_spec.mp hnode)]
      exact some_ne_none _
    · rintro res y ⟨nodes, rfl, hwent, hall, hnoted⟩
      refine ⟨nodes, rfl, (Went.of_later hlater).trans hwent, fun n hn => ?_,
        fun node hnode => (hnoted node hnode).1, fun node hnode => (hnoted node hnode).2⟩
      have hn' : (snapshot ext jobs x').row (r, n) ≠ none := fun hnone =>
        hn (hwent.2.norow (Or.inl hopen') hnone)
      obtain ⟨node, hnode, rfl⟩ := hmem hn'
      exact hall _ (mem_map.mpr ⟨node, hnode, rfl⟩)
  · exact hsql

theorem cascadeSkip_makes (hjobs : jobs.Lawful) {f : String} (now : Int)
    (hopen : (snapshot ext jobs x).Open r) (hfirst : (snapshot ext jobs x).first r = some f)
    (hrow : (snapshot ext jobs x).row (r, node.nodeName) ≠ none)
    (hne : node.status = .pending → f ≠ node.nodeName) :
    Makes ext h jobs (cascadeSkip r now node) (fun _ y => Went ext jobs x y) (x, none) := by
  have hskip : ∀ {x' : Watched Q}, Went ext jobs x (x', none) → node.status = .pending →
      Makes ext h jobs (do
        let _ ← ((ask (.setNode r node.nodeName (.status .skipped))).tried : Act QueueError _))
        (fun _ y => Went ext jobs x y) (x', none) := by
    intro x' hwent hpending
    refine Makes.bind (Makes.tried (makes_ask fun x₁ hlater _ => ?_))
    have hopen₁ := hlater.rely.opened (hwent.2.opened hopen)
    have hrow₁ := hlater.rely.rows (hwent.2.rows hrow)
    have hproper : Proper ext h jobs none x₁ (.setNode r node.nodeName (.status .skipped)) :=
      (proper_setNode _ hlater.filed (fun _ => rfl) hopen₁.state_ne hrow₁
        (.skip r node.nodeName f hopen₁ hrow₁ (hlater.rely.first (hwent.2.first hfirst))
          (hne hpending))).1
    exact ⟨hproper, hwent.trans (.of_proper hlater hproper rfl)⟩
  unfold cascadeSkip
  split
  · next hpending =>
    split
    · next jobId _ =>
      refine Makes.bind (Makes.tried (makes_ask fun x' hlater _ => ?_))
      have hproper : Proper ext h jobs none x' (.cancelJob jobId now) :=
        proper_cancelJob hjobs jobId now hlater.filed
      exact ⟨hproper, hskip (.of_proper hlater hproper rfl) hpending⟩
    · exact hskip ⟨rfl, .refl none _⟩ hpending
  · exact ⟨rfl, .refl none _⟩

theorem cascade_makes (hjobs : jobs.Lawful) {f : String} (now : Int) :
    ∀ {nodes : List WorkflowNode} {x : Watched Q}, (snapshot ext jobs x).Open r →
      (snapshot ext jobs x).first r = some f →
      (∀ node ∈ nodes, (snapshot ext jobs x).row (r, node.nodeName) ≠ none ∧
        (node.status = .pending → f ≠ node.nodeName)) →
      Makes ext h jobs (cascadeSkipPendingNodes r now nodes) (fun _ y => Went ext jobs x y)
        (x, none)
  | [], _, _, _, _ => ⟨rfl, .refl none _⟩
  | node :: nodes, x, hopen, hfirst, hnodes => by
    obtain ⟨hrow, hne⟩ := hnodes node mem_cons_self
    refine Makes.bind ((cascadeSkip_makes hjobs now hopen hfirst hrow hne).mono ?_)
    rintro (e | ⟨⟩) ⟨x₁, t₁⟩ hwent
    · exact hwent
    · obtain rfl : t₁ = none := hwent.1
      refine (cascade_makes hjobs now (hwent.2.opened hopen) (hwent.2.first hfirst)
        fun other hother => ?_).mono fun _ y hnext => hwent.trans hnext
      obtain ⟨hrow', hne'⟩ := hnodes other (mem_cons_of_mem _ hother)
      exact ⟨hwent.2.rows hrow', hne'⟩

theorem failFast_makes (hjobs : jobs.Lawful) (succeeded skipCascade : Bool) (now : Int)
    (hopen : (snapshot ext jobs x).Open r)
    (hfailed : succeeded = false → (snapshot ext jobs x).first r ≠ none) :
    Makes ext h jobs (failFast h.backend r succeeded skipCascade now)
      (fun _ y => Went ext jobs x y) (x, none) := by
  unfold failFast
  split
  · next hcond =>
    have hlost : succeeded = false := by
      cases succeeded with
      | false => rfl
      | true => cases hcond
    obtain ⟨f, hf⟩ := ne_none_iff_exists'.mp (hfailed hlost)
    refine Makes.bind ((getWorkflowNodes_makes (some f) hopen
      (fun f' hf' => by cases hf'; exact hf)).mono ?_)
    rintro res ⟨x₁, t₁⟩ ⟨nodes, rfl, hwent, hlisted⟩
    obtain rfl : t₁ = none := hwent.1
    refine (cascade_makes hjobs now (hwent.2.opened hopen) (hwent.2.first hf)
      fun node hnode => ⟨hlisted.rows node hnode, fun hpending => ?_⟩).mono
        fun _ y hnext => hwent.trans hnext
    refine fun heq => (hlisted.noted node hnode).known f rfl ?_ heq.symm
    rw [hpending]
    decide
  · exact ⟨rfl, .refl none _⟩

theorem finalizeIfDone_makes (succeeded : Bool) (error : Option String) (now : Int)
    (hopen : (snapshot ext jobs x).Open r) :
    Makes ext h jobs (finalizeIfDone h.backend r succeeded error now) (fun _ _ => True)
      (x, none) := by
  refine Makes.bind ((getWorkflowNodes_makes none hopen
    (fun f hf => nomatch hf)).mono ?_)
  rintro res ⟨x₁, t₁⟩ ⟨nodes, rfl, hwent, hlisted⟩
  obtain rfl : t₁ = none := hwent.1
  have hopen₁ := hwent.2.opened hopen
  dsimp only [onOk]
  split
  · next hterminal =>
    refine Makes.bind (makes_ask fun x₂ hlater _ => ?_)
    have hopen₂ := hlater.rely.opened hopen₁
    have hlisted₂ := hlisted.later hlater.rely hopen₁
    have hne : finalState nodes succeeded ≠ .pending := by
      unfold finalState
      split <;> decide
    have hwhole : finalState nodes succeeded = .completed →
        (snapshot ext jobs x₂).Whole r := by
      intro hcompleted
      have hnofailed : ∀ node ∈ nodes, node.status ≠ .failed := by
        intro node hnode hfailed
        unfold finalState at hcompleted
        rw [if_pos] at hcompleted
        · cases hcompleted
        · rw [Bool.or_eq_true]
          exact Or.inl (any_eq_true.mpr ⟨node, hnode, decide_eq_true hfailed⟩)
      refine Snapshot.whole_of_noted none hlater.sane hopen₂ fun n hn => ?_
      obtain ⟨node, hnode, rfl⟩ := hlisted₂.all n hn
      exact ⟨node.status, hlisted₂.noted node hnode, all_eq_true.mp hterminal node hnode,
        hnofailed node hnode⟩
    have hholds : ∀ e, holds h none (.updateRunState r (finalState nodes succeeded) e) x₂ =
        none := by
      intro e
      unfold finalState
      split <;> rfl
    have hproper : ∀ e, Proper ext h jobs none x₂
        (.updateRunState r (finalState nodes succeeded) e) := fun e =>
      proper_updateRunState e hlater.filed hopen₂.state_ne (hholds e)
        (.finish r _ hopen₂ hne) hwhole
    refine ⟨hproper _, ?_⟩
    show Makes ext h jobs (ask (.setRunCompleted r now) >>= fun _ =>
      pure (some (finalState nodes succeeded))) _ (_, holds h none _ x₂)
    rw [hholds]
    exact Makes.bind (makes_ask fun x₃ hlater₃ _ =>
      ⟨proper_setRunCompleted r now hlater₃.filed, trivial⟩)
  · exact trivial

theorem outcome_makes {jobId : String} {succeeded : Bool}
    (error resultHash : Option String) (now : Int)
    (hjob : (snapshot ext jobs x).job jobId = some ((r, n), st)) (hover : st.finished = true)
    (htruth : succeeded = true ↔ st = .complete) (hopen : (snapshot ext jobs x).Open r) :
    Makes ext h jobs (ask (.setNode r n (outcomeWrite succeeded error resultHash now)))
      (fun _ y => Went ext jobs x y ∧
        (succeeded = false → (snapshot ext jobs y.1).first r ≠ none)) (x, none) := by
  refine makes_ask fun x' hlater _ => ?_
  have hopen' := hlater.rely.opened hopen
  obtain ⟨st', hjob', hsame⟩ := hlater.rely.jobs hjob
  obtain rfl := hsame hover
  have hrow := hlater.sane.homed hopen' jobId n st' hjob'
  cases succeeded with
  | true =>
    obtain rfl := htruth.mp rfl
    have hfine : (snapshot ext jobs x').Fine (r, n) := by
      intro id st hid
      obtain rfl := hlater.sane.unique hid hjob'
      rw [hjob'] at hid
      cases hid
      rfl
    obtain ⟨hproper, -⟩ := proper_setNode (h := h) (t := none) (.completed now resultHash)
      hlater.filed (fun _ => rfl) hopen'.state_ne hrow
      (.complete r n hopen' hrow hfine ⟨jobId, hjob'⟩)
    exact ⟨hproper, .of_proper hlater hproper rfl, fun hfalse => nomatch hfalse⟩
  | false =>
    have hlost : (snapshot ext jobs x').Lost (r, n) :=
      ⟨jobId, st', hjob', hover, fun hcomplete => nomatch htruth.mpr hcomplete⟩
    have hseen : (getWorkflowNode h r n x'.1.store).isSome = true := by
      obtain ⟨node, hnode, -⟩ := node_of_row hrow
      rw [getWorkflowNode_eq_some.mpr ⟨hlater.filed.sees hopen'.state_ne, hnode⟩]
      rfl
    have hfirst : (after ext h jobs (.setNode r n (.failed (error.getD "failed"))) x').2 =
        update (snapshot ext jobs x').first r
          ((snapshot ext jobs x').first r <|> some n) := if_pos hseen
    obtain ⟨hproper, hsnap⟩ := proper_setNode (t := none) (.failed (error.getD "failed"))
      hlater.filed (fun _ => rfl) hopen'.state_ne hrow (by
        rw [hfirst]
        exact .fail r n hopen' hrow hlost)
    refine ⟨hproper, .of_proper hlater hproper rfl, fun _ => ?_⟩
    show (snapshot ext jobs (after ext h jobs (.setNode r n (.failed (error.getD "failed")))
      x')).first r ≠ none
    rw [hsnap]
    show (after ext h jobs (.setNode r n (.failed (error.getD "failed"))) x').2 r ≠ none
    rw [hfirst, update_self]
    cases (snapshot ext jobs x').first r <;> exact some_ne_none _

theorem mark_makes (hjobs : jobs.Lawful) {jobId : String} {k : String × String}
    {succeeded : Bool} (error : Option String) (skipCascade : Bool) (resultHash : Option String)
    (now : Int) (hjob : (snapshot ext jobs x).job jobId = some (k, st))
    (hover : st.finished = true) (htruth : succeeded = true ↔ st = .complete)
    (hopen : (snapshot ext jobs x).Open k.1) :
    Makes ext h jobs
      (markWorkflowNodeResult ext h.backend jobId succeeded error skipCascade resultHash now)
      (fun _ _ => True) (x, none) := by
  refine Makes.bind (makes_ask fun x₁ hlater _ => ⟨proper_read rfl hlater.filed, ?_⟩)
  show onOk _ _ (.ok (jobs.getJob jobId h.namespace x₁.1.queue)) (x₁, none)
  cases hread : jobs.getJob jobId h.namespace x₁.1.queue with
  | none => exact trivial
  | some job =>
    obtain ⟨r, n⟩ := k
    have hopen₁ := hlater.rely.opened hopen
    obtain ⟨st', hjob₁, hsame⟩ := hlater.rely.jobs hjob
    obtain rfl := hsame hover
    have hroute : routing ext.serde job.metadata = some (r, n) := by
      obtain ⟨job', hfind, hroute, -⟩ := jobAt_eq_some.mp hjob₁
      rw [hjobs.found hread] at hfind
      cases hfind
      exact hroute
    dsimp only [onOk]
    rw [hroute]
    refine Makes.bind ((outcome_makes error resultHash now hjob₁ hover htruth hopen₁).mono ?_)
    rintro (e | ⟨⟩) ⟨x₂, t₂⟩ ⟨hwent, hfailed⟩
    · exact trivial
    obtain rfl : t₂ = none := hwent.1
    have hopen₂ := hwent.2.opened hopen₁
    refine Makes.bind ((failFast_makes hjobs succeeded skipCascade now hopen₂ hfailed).mono ?_)
    rintro (e | ⟨⟩) ⟨x₃, t₃⟩ hwent₃
    · exact trivial
    obtain rfl : t₃ = none := hwent₃.1
    refine Makes.bind ((finalizeIfDone_makes succeeded error now
      (hwent₃.2.opened hopen₂)).mono ?_)
    rintro (e | state) y - <;> exact trivial

end Reports

/-! ## The covenant is held -/

theorem wholesome_held (hjobs : jobs.Lawful) (hroutes : ext.Routes)
    (hordered : ∀ bytes ordered, ext.topologicalOrder bytes = .ok ordered → Sorted ordered []) :
    (wholesome ext h jobs).Held ((service ext h jobs).watched (failures h))
      (reporting ext jobs).watched where
  refl t x := ⟨.refl t _, fun _ _ hd => hd⟩
  trans h₁ h₂ := ⟨h₁.1.trans h₂.1, fun id d hd => h₂.2 id d (h₁.2 id d hd)⟩
  symm hapart := fun r hu ht => hapart r ht hu
  fresh _ _ := fun _ hr => nomatch hr
  kept hstands hrely := hrely.1.stands hstands
  settled _ _ _ := trivial
  arrive {x request prog x'} hinv hterms harrive := by
    cases harrive
    have hstart : (snapshot ext jobs x).Stands none := fun _ hr => nomatch hr
    refine ⟨hinv, hstart, fun u => ⟨.refl u _, fun _ _ hd => hd⟩, ?_⟩
    have hanswering : ∀ {ε α : Type} {prog : Act ε α} (f : Except ε α → Response),
        Makes ext h jobs prog (fun _ _ => True) (x, none) →
        (wholesome ext h jobs).Delivers ((service ext h jobs).watched (failures h))
          (reporting ext jobs).watched (prog.answering f) x none :=
      fun f hprog => Keeps.bind (Keeps.mono hprog fun _ _ _ => trivial)
    cases request with
    | submit req minted => exact hanswering _ (submit_makes hjobs hroutes hordered req minted x)
    | mark jobId succeeded error skipCascade resultHash now =>
      obtain ⟨k, st, hjob, hover, htruth, hopen⟩ := hterms
      exact hanswering _ (mark_makes hjobs error skipCascade resultHash now hjob hover htruth hopen)
    | finalize runId now => exact hanswering _ (finalizeIfDone_makes true _ now hterms)
    | _ => exact absurd hterms id
  call {x c t} hinv hcall hstands hproper := by
    have hheld := hproper.move.held hstands
    exact ⟨⟨hproper.move.sane hinv.1 hstands, hproper.filed⟩, hheld.1, fun u hu hapart =>
      ⟨⟨hproper.move.rely hstands hu hapart, hproper.kept⟩, hheld.2 u hu hapart⟩⟩
  drift {x f} hinv hworked := by
    have hw : Worked ext jobs x.1.queue (f x.1.queue) := hworked
    exact ⟨⟨hinv.1.works hw.works, hinv.2⟩, fun u =>
      ⟨Snapshot.rely_works hw.works, fun _ _ hd => hd⟩⟩

theorem sane_empty {q₀ : Q} (hq₀ : ∀ id, jobAt ext jobs q₀ id = none) :
    (snapshot ext jobs (⟨⟨.empty, q₀⟩, fun _ => none⟩ : Watched Q)).Sane := by
  have hjob : ∀ {id k st}, (snapshot ext jobs (⟨⟨.empty, q₀⟩, fun _ => none⟩ : Watched Q)).job id =
      some (k, st) → False := by
    intro id k st hid
    have hid : jobAt ext jobs q₀ id = some (k, st) := hid
    rw [hq₀] at hid
    cases hid
  have hopen : ∀ {r}, (snapshot ext jobs (⟨⟨.empty, q₀⟩, fun _ => none⟩ : Watched Q)).Open r →
      False := by
    rintro r ⟨st, hst, -⟩
    cases hst
  refine ⟨fun hid _ => (hjob hid).elim, fun hid => (hjob hid).elim, fun hr => (hopen hr).elim, ?_,
    ?_, fun hr => (hopen hr).elim, ?_, ?_, ?_⟩
  · exact fun hrow => absurd rfl hrow
  · intro k st hrow
    cases hrow
  · intro k st hrow
    cases hrow
  · intro r n st _ hrow
    cases hrow
  · intro r f hf
    cases hf

variable {ext jobs} in
theorem Snapshot.Whole.whole {x : Watched Q} {r : String}
    (hwhole : (snapshot ext jobs x).Whole r) : Workflow.Whole ext jobs x.1 r := by
  refine ⟨?_, fun node hnode => ?_, fun id job n hjob hroute => ?_⟩
  · obtain ⟨ordered, hgraph, hall⟩ := hwhole.rowed
    refine ⟨ordered, hgraph, fun topo htopo => ?_⟩
    obtain ⟨node, hnode, -⟩ := node_of_row (hall topo htopo)
    rw [hnode]
    rfl
  · have hend : node.status.isTerminal = true :=
      hwhole.ended (row_of_node (nodesOf_spec.mp hnode))
    revert hend
    cases node.status <;> decide
  · rw [hwhole.jobs (jobAt_eq_some.mpr ⟨job, hjob, hroute, rfl⟩)]
    decide

/-- **A run is set completed only when it is whole**, if outcomes are reported
only of runs whose submission has returned. -/
theorem completed_run_whole (hjobs : jobs.Lawful) (hroutes : ext.Routes)
    (hordered : ∀ bytes ordered, ext.topologicalOrder bytes = .ok ordered → Sorted ordered [])
    {q₀ : Q} (hq₀ : ∀ id, jobAt ext jobs q₀ id = none)
    {p : Pool Call Call.Answer Response (World Q)}
    (hp : Reaches (Pool.next (service ext h jobs)) (reporting ext jobs).Met ⟨⟨.empty, q₀⟩, []⟩ p)
    {i : Nat} {runId : String} {error : Option String}
    (hi : p.head i = some (.updateRunState runId .completed error)) :
    Whole ext jobs p.world runId := by
  obtain ⟨first, hwatched⟩ := hp.watched (failures h) fun _ => none
  have hheld := wholesome_held ext h jobs hjobs hroutes hordered
  obtain ⟨tags, htagged⟩ := hheld.sound (Pool.tagged_start
    ⟨sane_empty ext jobs hq₀, ⟨fun hrun => (by cases hrun), fun hrun => (by cases hrun)⟩⟩) hwatched
  obtain ⟨t, -, hproper⟩ := htagged.asked hheld (i := i) hi trivial
  exact (hproper.whole runId error rfl).whole

/-! ## One node, in time and too early -/

section Small

instance decidableFound {α β : Type} (found : Option (α × β)) (P : α → β → Prop)
    [∀ a b, Decidable (P a b)] :
    Decidable (∃ a b, found = some (a, b) ∧ P a b) :=
  match found with
  | none => isFalse (by rintro ⟨_, _, ⟨⟩, _⟩)
  | some (a, b) => decidable_of_iff (P a b)
      ⟨fun h => ⟨a, b, rfl, h⟩, fun ⟨_, _, heq, h⟩ => by cases heq; exact h⟩

instance (w : World Q) (runId : String) : Decidable (Submitted w runId) :=
  inferInstanceAs (Decidable (∃ state ∈ w.store.stateOf runId, state ≠ .pending))

instance (w : World Q) (request : Request) : Decidable ((reporting ext jobs).arrive w request) := by
  apply @Request.casesOn _ request <;> intros <;> unfold reporting <;> infer_instance
instance (w : World Q) (c : Call) : Decidable ((reporting ext jobs).call w c) := by
  apply @Call.casesOn _ c <;> intros <;> unfold reporting <;> infer_instance

/-- Terms, where all that goes on by itself is workers that take a job and
finish it. -/
abbrev workers (terms : Terms Request (Sql.Store → Sql.Store) Call (World Sql.Store)) :
    Terms Request (String × Int) Call (World Sql.Store) where
  arrive := terms.arrive
  call := terms.call
  drift _ _ := True

section Workers

variable (terms : Terms Request (Sql.Store → Sql.Store) Call (World Sql.Store))

def workersNext (p : Pool Call Call.Answer Response (World Sql.Store))
    (t : Turn Request (String × Int)) :
    Option (Pool Call Call.Answer Response (World Sql.Store)) :=
  Pool.next (service ext h sqlJobs) p (Turn.named (fun job => worked job.1 job.2) t)

variable {ext h terms}

theorem reaches_of_workers
    (hdrift : ∀ (w : World Sql.Store) f, Worked ext sqlJobs w.queue (f w.queue) → terms.drift w f)
    {p p' : Pool Call Call.Answer Response (World Sql.Store)}
    (hr : Reaches (workersNext ext h) (workers terms).Met p p') :
    Reaches (Pool.next (service ext h sqlJobs)) terms.Met p p' :=
  hr.relabel _ fun q t hmet => by
    cases t with
    | arrive request => exact hmet
    | step i => exact hmet
    | drift job => exact hdrift _ _ (works_of_steady (worked_steady job.1 job.2 q.world.queue))

end Workers

/-- A submission, a worker and a report, one after the other: the run is whole
when it is set completed. -/
theorem reported_run_whole : ∃ p,
    Reaches (Pool.next (service (smallExternals ["a"]) sqliteHandle sqlJobs))
      (reporting (smallExternals ["a"]) sqlJobs).Met ⟨emptyWorld, []⟩ p ∧
    p.head 1 = some (.updateRunState "r" .completed none) ∧
    Whole (smallExternals ["a"]) sqlJobs p.world "r" := by
  obtain ⟨p, hp, hhead⟩ : ∃ p,
      Reaches (workersNext (smallExternals ["a"]) sqliteHandle)
        (workers (reporting (smallExternals ["a"]) sqlJobs)).Met ⟨emptyWorld, []⟩ p ∧
      p.head 1 = some (.updateRunState "r" .completed none) :=
    exists_reached
      ([.arrive (.submit (smallRequest ["a"]) smallMinted)] ++ List.replicate 6 (.step 0) ++
        [.drift ("j0", 1), .arrive (.mark "j0" true none false none 2)] ++
        List.replicate 3 (.step 1))
  have hp := reaches_of_workers (fun _ _ hworked => hworked) hp
  refine ⟨p, hp, hhead, completed_run_whole _ _ _ sqlJobs_lawful
    (.of_lawful FlatJson.lawful_flatJson) ?_ (fun _ => rfl) hp hhead⟩
  intro bytes ordered hordered
  exact (topologicalOrder_ok (sorts_smallExternals (by decide) (by decide)) hordered).1

/-- The report of the first of two nodes comes in before the second has a
row: the run is set completed, and half its graph is missing. -/
theorem half_a_graph_completes : ∃ p,
    Reaches (Pool.next (service (smallExternals ["a", "b"]) sqliteHandle sqlJobs)) Terms.any.Met
      ⟨emptyWorld, []⟩ p ∧
    p.head 1 = some (.updateRunState "r" .completed none) ∧
    ¬ Whole (smallExternals ["a", "b"]) sqlJobs p.world "r" := by
  refine exists_reached_imp (P := fun p =>
      p.head 1 = some (.updateRunState "r" .completed none) ∧
      p.world.store.graph (smallExternals ["a", "b"]) "r" = some [⟨"a", []⟩, ⟨"b", ["a"]⟩] ∧
      p.world.store.nodes.find ("r", "b") = none)
    ([.arrive (.submit (smallRequest ["a", "b"]) smallMinted)] ++ List.replicate 5 (.step 0) ++
      [.drift (worked "j0" 1), .arrive (.mark "j0" true none false none 2)] ++
      List.replicate 3 (.step 1)) ?_
  rintro p - ⟨hhead, hgraph, hrow⟩
  refine ⟨hhead, fun hwhole => ?_⟩
  obtain ⟨ordered, hordered, hall⟩ := hwhole.rowed
  rw [hgraph] at hordered
  cases hordered
  have hsome := hall ⟨"b", ["a"]⟩ (by simp)
  rw [hrow] at hsome
  cases hsome

end Small

end FlexiQ.Workflow
