/-
# `Workflow.Store` — the workflow tables, and the calls made on them

The `WorkflowStorage` trait as the three backends implement it: the shared
Diesel statements (`diesel_common.rs`) for SQLite and Postgres, hashes and an
index set (`redis_store.rs`) for Redis.  A `Handle` is a store bound to one
backend and one namespace; every call is one atomic statement, pipeline or
script.  The check that a run is in scope is part of the call: the namespace
of a run is written once and no run is ever deleted.

Where the backends differ, they differ here.
-/
import FlexiQ.Lib.Pool
import FlexiQ.Resilience.RateLimit
import FlexiQ.Workflow.State

namespace FlexiQ.Workflow

open FlexiQ.Lib FlexiQ.Resilience

/-! ## The tables -/

/-- A workflow store: its backend, and the tenant it is bound to. -/
structure Handle where
  backend : Backend
  «namespace» : Scope
  deriving DecidableEq, Repr

/-- `workflow_definitions`, `workflow_runs` and `workflow_nodes`. -/
structure Store where
  definitions : Table String WorkflowDefinition WorkflowDefinition.id
  runs : Table String WorkflowRun WorkflowRun.id
  nodes : Table (String × String) WorkflowNode WorkflowNode.key

namespace Store

def empty : Store := ⟨.empty, .empty, .empty⟩

def nodesOf (s : Store) (runId : String) : List WorkflowNode :=
  s.nodes.rows.filter fun node => node.runId = runId

def stateOf (s : Store) (runId : String) : Option WorkflowState :=
  (s.runs.find runId).map WorkflowRun.state

end Store

/-- Not `run_out_of_scope`. -/
def Handle.sees (h : Handle) (s : Store) (runId : String) : Bool :=
  h.namespace.all fun ns => (s.runs.find runId).any fun run => run.namespace == some ns

/-! ## Definitions -/

/-- `get_workflow_definition` at a version.  Only Redis can hold two; it takes
the one with the first id. -/
def getWorkflowDefinition (name : String) (version : Int) (s : Store) : Option WorkflowDefinition :=
  let found := s.definitions.rows.filter fun d => d.name = name && d.version = version
  found.find? fun d => found.all fun d' => d.id ≤ d'.id

/-- `create_workflow_definition`: `UNIQUE(name, version)` in SQL, nothing of
the kind in Redis. -/
def createWorkflowDefinition (h : Handle) (definition : WorkflowDefinition) (s : Store) :
    Result Unit × Store :=
  let taken := s.definitions.rows.any fun d =>
    d.id = definition.id || (d.name = definition.name && d.version = definition.version)
  if h.backend ≠ .redis && taken then (.error .storage, s)
  else (.ok (), { s with definitions := s.definitions.upsert definition })

/-! ## Runs -/

/-- The row a Redis `HSET` of the present fields leaves over an older one. -/
def WorkflowRun.over (run old : WorkflowRun) : WorkflowRun :=
  { run with
    startedAt := run.startedAt <|> old.startedAt
    completedAt := run.completedAt <|> old.completedAt
    error := run.error <|> old.error
    parentRunId := run.parentRunId <|> old.parentRunId
    parentNodeName := run.parentNodeName <|> old.parentNodeName
    «namespace» := run.namespace <|> old.namespace }

/-- `create_workflow_run`.  The namespace is the store's. -/
def createWorkflowRun (h : Handle) (run : WorkflowRun) (s : Store) : Result Unit × Store :=
  let run := { run with «namespace» := h.namespace }
  if run.parentRunId.any fun parent => !h.sees s parent then
    (.error (.other ("parent workflow run not found: " ++ run.parentRunId.getD "")), s)
  else
    match h.backend with
    | .redis =>
      match s.runs.find run.id with
      | none => (.ok (), { s with runs := s.runs.upsert run })
      | some old =>
        if h.sees s run.id then (.ok (), { s with runs := s.runs.upsert (run.over old) })
        else (.error (.other ("workflow run id already taken: " ++ run.id)), s)
    | _ =>
      match s.runs.insert run with
      | some runs => (.ok (), { s with runs := runs })
      | none => (.error .storage, s)

section

variable (h : Handle) (runId : String)

def getWorkflowRun (s : Store) : Option WorkflowRun :=
  if h.sees s runId then s.runs.find runId else none

def updateRun (f : WorkflowRun → WorkflowRun)
    (hf : ∀ run, (f run).id = run.id) (s : Store) : Store :=
  if h.sees s runId then { s with runs := s.runs.update (fun run => run.id = runId) f hf } else s

/-- `update_workflow_run_state`: whatever the state was. -/
def updateWorkflowRunState (state : WorkflowState) (error : Option String) (s : Store) : Store :=
  updateRun h runId (fun run => { run with state := state, error := error }) (fun _ => rfl) s

def setWorkflowRunCompleted (completedAt : Int) (s : Store) : Store :=
  updateRun h runId (fun run => { run with completedAt := some completedAt }) (fun _ => rfl) s

end

def getChildWorkflowRuns (h : Handle) (parentRunId : String) (s : Store) : List WorkflowRun :=
  s.runs.rows.filter fun run => run.parentRunId = some parentRunId && h.sees s run.id

/-! ## Nodes -/

/-- The row a Redis `HSET` of the present fields leaves over an older one. -/
def WorkflowNode.over (node old : WorkflowNode) : WorkflowNode :=
  { node with
    jobId := node.jobId <|> old.jobId
    resultHash := node.resultHash <|> old.resultHash
    fanOutCount := node.fanOutCount <|> old.fanOutCount
    startedAt := node.startedAt <|> old.startedAt
    completedAt := node.completedAt <|> old.completedAt
    error := node.error <|> old.error
    compensationJobId := node.compensationJobId <|> old.compensationJobId
    compensationStartedAt := node.compensationStartedAt <|> old.compensationStartedAt
    compensationCompletedAt := node.compensationCompletedAt <|> old.compensationCompletedAt
    compensationError := node.compensationError <|> old.compensationError }

/-- One row written: refused by SQL if there is one, merged by Redis. -/
def insertNode (b : Backend) (node : WorkflowNode) (s : Store) : Result Store :=
  match b with
  | .redis =>
    match s.nodes.find node.key with
    | none => .ok { s with nodes := s.nodes.upsert node }
    | some old => .ok { s with nodes := s.nodes.upsert (node.over old) }
  | _ =>
    match s.nodes.insert node with
    | some nodes => .ok { s with nodes := nodes }
    | none => .error .storage

/-- The loop of `create_workflow_nodes_batch`, inside its transaction. -/
def insertNodes (b : Backend) : List WorkflowNode → Store → Result Store
  | [], s => .ok s
  | node :: nodes, s => do
    let s ← insertNode b node s
    insertNodes b nodes s

/-- `create_workflow_nodes_batch`: all rows or none. -/
def createWorkflowNodesBatch (h : Handle) (nodes : List WorkflowNode) (s : Store) :
    Result Unit × Store :=
  match nodes.find? fun node => !h.sees s node.runId with
  | some node => (.error (runNotFound node.runId), s)
  | none =>
    match insertNodes h.backend nodes s with
    | .ok s' => (.ok (), s')
    | .error e => (.error e, s)

def getWorkflowNode (h : Handle) (runId nodeName : String) (s : Store) : Option WorkflowNode :=
  if h.sees s runId then s.nodes.find (runId, nodeName) else none

def selectNodes (h : Handle) (runId : String) (s : Store) : List WorkflowNode :=
  if h.sees s runId then s.nodesOf runId else []

/-- `SMEMBERS wf:run_nodes:…`. -/
def nodeNames (h : Handle) (runId : String) (s : Store) : List String :=
  (selectNodes h runId s).map WorkflowNode.nodeName

/-- SQL's `LIKE`: `%` is any text and `_` any character; `escapes` if a
backslash takes the next character literally. -/
def like (fold : Char → Char) (escapes : Bool) : List Char → List Char → Bool
  | [], text => text.isEmpty
  | '%' :: pattern, text => text.tails.any (like fold escapes pattern)
  | '_' :: pattern, text =>
    match text with
    | [] => false
    | _ :: text => like fold escapes pattern text
  | c :: pattern, text =>
    if escapes && c = '\\' then
      match pattern, text with
      | p :: pattern, t :: text => fold p = fold t && like fold escapes pattern text
      | _, _ => false
    else
      match text with
      | [] => false
      | t :: text => fold c = fold t && like fold escapes pattern text

/-- Which names a backend takes to start with `stem`.  SQLite's `LIKE` ignores
the case of ASCII letters; a backslash escapes in Postgres only. -/
def matchesStem (b : Backend) (stem name : String) : Bool :=
  match b with
  | .sqlite => like Char.toLower false (stem ++ "%").toList name.toList
  | .postgres => like id true (stem ++ "%").toList name.toList
  | .redis => stem.toList.isPrefixOf name.toList

/-- `get_workflow_nodes_by_prefix` of the SQL backends. -/
def selectNodesLike (h : Handle) (runId stem : String) (s : Store) : List WorkflowNode :=
  (selectNodes h runId s).filter fun node => matchesStem h.backend stem node.nodeName

/-- The setters of a node: what each writes. -/
inductive NodeWrite
  | status (written : WorkflowNodeStatus)
  | job (jobId : String)
  | running (startedAt : Int)
  | completed (completedAt : Int) (resultHash : Option String)
  | failed (error : String)
  | fanOutCount (count : Int)
  | compensationJob (jobId : String) (startedAt : Int)
  | compensated (completedAt : Int)
  | compensationFailed (error : String) (completedAt : Int)
  deriving DecidableEq, Repr

/-- The row a setter leaves.  A missing `result_hash` resets the column in
SQL and is not written by Redis. -/
def NodeWrite.apply (b : Backend) (node : WorkflowNode) : NodeWrite → WorkflowNode
  | .status written => { node with status := written }
  | .job jobId => { node with jobId := some jobId }
  | .running startedAt => { node with status := .running, startedAt := some startedAt }
  | .completed completedAt resultHash =>
    { node with
      status := .completed
      completedAt := some completedAt
      resultHash := if b = .redis then resultHash <|> node.resultHash else resultHash }
  | .failed error => { node with status := .failed, error := some error }
  | .fanOutCount count => { node with status := .running, fanOutCount := some count }
  | .compensationJob jobId startedAt =>
    { node with
      status := .compensating
      compensationJobId := some jobId
      compensationStartedAt := some startedAt }
  | .compensated completedAt =>
    { node with status := .compensated, compensationCompletedAt := some completedAt }
  | .compensationFailed error completedAt =>
    { node with
      status := .compensationFailed
      compensationCompletedAt := some completedAt
      compensationError := some error }

theorem NodeWrite.key_apply (b : Backend) (node : WorkflowNode) (write : NodeWrite) :
    (write.apply b node).key = node.key := by
  cases write <;> rfl

/-- A setter: `NodeNotFound` where there is nothing to set. -/
def setNode (h : Handle) (runId nodeName : String) (write : NodeWrite) (s : Store) :
    Result Unit × Store :=
  match getWorkflowNode h runId nodeName s with
  | none => (.error (nodeNotFound runId nodeName), s)
  | some _ =>
    (.ok (), { s with
      nodes := s.nodes.update (fun node => node.key = (runId, nodeName))
        (fun node => write.apply h.backend node) fun node => write.key_apply h.backend node })

/-- The statuses a fan-out parent is not finalized from. -/
def finalizedStatus : WorkflowNodeStatus → Bool
  | .completed | .failed | .skipped | .cacheHit => true
  | _ => false

section

variable (b : Backend) (succeeded : Bool) (error : Option String) (completedAt : Int)
  (node : WorkflowNode)

/-- The row `finalize_fan_out_parent` leaves.  Redis drops the error of a
parent that succeeded. -/
def WorkflowNode.finalized : WorkflowNode :=
  if succeeded then
    { node with
      status := .completed
      completedAt := some completedAt
      error := if b = .redis then none else node.error }
  else { node with status := .failed, error := some (error.getD "fan-out child failed") }

theorem WorkflowNode.key_finalized :
    (node.finalized b succeeded error completedAt).key = node.key := by
  unfold finalized
  split <;> rfl

end

/-- `finalize_fan_out_parent`: the conditional `UPDATE`, or the script
`FINALIZE_FAN_OUT`.  The script finds no status on a node that does not exist
and answers that it wrote one. -/
def finalizeFanOutParent (h : Handle) (runId nodeName : String) (succeeded : Bool)
    (error : Option String) (completedAt : Int) (s : Store) : Bool × Store :=
  if !h.sees s runId then (false, s)
  else
    match s.nodes.find (runId, nodeName) with
    | none => (h.backend = .redis, s)
    | some node =>
      if finalizedStatus node.status then (false, s)
      else
        (true, { s with
          nodes := s.nodes.update (fun node => node.key = (runId, nodeName))
            (fun node => node.finalized h.backend succeeded error completedAt)
            fun node => node.key_finalized h.backend succeeded error completedAt })

/-! ## The calls -/

/-- The job store, as the workflow code calls it.  The minted id and the
clock are arguments. -/
structure JobQueue (Q : Type) where
  enqueue : NewJob → String → Int → Q → Result Job × Q
  getJob : String → Option String → Q → Option Job
  cancelJob : String → Option String → Int → Q → Result Bool × Q

structure World (Q : Type) where
  store : Store
  queue : Q

/-- One round trip to either store. -/
inductive Call
  | getDefinition (name : String) (version : Int)
  | createDefinition (definition : WorkflowDefinition)
  | createRun (run : WorkflowRun)
  | getRun (runId : String)
  | updateRunState (runId : String) (state : WorkflowState) (error : Option String)
  | setRunCompleted (runId : String) (completedAt : Int)
  | getChildRuns (parentRunId : String)
  | createNodesBatch (nodes : List WorkflowNode)
  | getNode (runId nodeName : String)
  | selectNodes (runId : String)
  | selectNodesLike (runId stem : String)
  | nodeNames (runId : String)
  | setNode (runId nodeName : String) (write : NodeWrite)
  | finalizeFanOutParent (runId nodeName : String) (succeeded : Bool) (error : Option String)
      (completedAt : Int)
  | enqueue (new : NewJob) (id : String) (now : Int)
  | getJob (id : String)
  | cancelJob (id : String) (now : Int)
  deriving DecidableEq

/-- What a call answers if it succeeds. -/
@[reducible] def Call.Reply : Call → Type
  | .getDefinition .. => Option WorkflowDefinition
  | .getRun _ => Option WorkflowRun
  | .getChildRuns _ => List WorkflowRun
  | .getNode .. => Option WorkflowNode
  | .selectNodes _ | .selectNodesLike .. => List WorkflowNode
  | .nodeNames _ => List String
  | .finalizeFanOutParent .. => Bool
  | .enqueue .. => Job
  | .getJob _ => Option Job
  | .cancelJob .. => Bool
  | .createDefinition _ | .createRun _ | .updateRunState .. | .setRunCompleted ..
  | .createNodesBatch _ | .setNode .. => Unit

abbrev Call.Answer (c : Call) : Type := Result c.Reply

variable {Q : Type}

def World.write {α : Type} (w : World Q) (r : α × Store) : α × World Q :=
  (r.1, { w with store := r.2 })

def World.queued {α : Type} (w : World Q) (r : α × Q) : α × World Q :=
  (r.1, { w with queue := r.2 })

def answer (h : Handle) (jobs : JobQueue Q) : (c : Call) → World Q → c.Answer × World Q
  | .getDefinition name version, w => (.ok (getWorkflowDefinition name version w.store), w)
  | .createDefinition definition, w =>
    w.write (createWorkflowDefinition h definition w.store)
  | .createRun run, w => w.write (createWorkflowRun h run w.store)
  | .getRun runId, w => (.ok (getWorkflowRun h runId w.store), w)
  | .updateRunState runId state error, w =>
    w.write (.ok (), updateWorkflowRunState h runId state error w.store)
  | .setRunCompleted runId completedAt, w =>
    w.write (.ok (), setWorkflowRunCompleted h runId completedAt w.store)
  | .getChildRuns parentRunId, w => (.ok (getChildWorkflowRuns h parentRunId w.store), w)
  | .createNodesBatch nodes, w => w.write (createWorkflowNodesBatch h nodes w.store)
  | .getNode runId nodeName, w => (.ok (getWorkflowNode h runId nodeName w.store), w)
  | .selectNodes runId, w => (.ok (selectNodes h runId w.store), w)
  | .selectNodesLike runId stem, w => (.ok (selectNodesLike h runId stem w.store), w)
  | .nodeNames runId, w => (.ok (nodeNames h runId w.store), w)
  | .setNode runId nodeName write, w => w.write (setNode h runId nodeName write w.store)
  | .finalizeFanOutParent runId nodeName succeeded error completedAt, w =>
    let (won, s) := finalizeFanOutParent h runId nodeName succeeded error completedAt w.store
    w.write (.ok won, s)
  | .enqueue new id now, w => w.queued (jobs.enqueue new id now w.queue)
  | .getJob id, w => (.ok (jobs.getJob id h.namespace w.queue), w)
  | .cancelJob id now, w => w.queued (jobs.cancelJob id h.namespace now w.queue)

end FlexiQ.Workflow
