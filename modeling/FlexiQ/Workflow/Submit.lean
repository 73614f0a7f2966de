/-
# `Workflow.Submit` — submitting a workflow

`topology.rs` and `lifecycle.rs`: the stored graph is read into an order, a
definition is found or written, a run is written as `Pending`, every node gets
its row and, unless it is deferred or a cache hit, its job, and the run is
written as `Running`.  The calls go to two stores that share no transaction, so
a submission is a program over single calls (`Lib.Prog`) and not one step.

The graph library and the JSON library are arguments (`Externals`), as are
the minted ids and the clock (`Minted`).  The trace context a run may carry is
left out.
-/
import FlexiQ.Core.Json
import FlexiQ.Workflow.Store

namespace FlexiQ.Workflow

open FlexiQ.Lib

abbrev Act (ε α : Type) := ExceptT ε (Prog Call Call.Answer) α

/-- One call, and `?` on its answer. -/
def ask (c : Call) : Act QueueError c.Reply := ExceptT.mk (Prog.call c)

/-- What a program came to, as a value. -/
def Act.tried {ε ε' α : Type} (x : Act ε α) : Act ε' (Except ε α) := ExceptT.lift x.run

/-- What is computed without a call. -/
def Act.of {ε α : Type} (x : Except ε α) : Act ε α := ExceptT.mk (pure x)

structure SerializableEdge where
  «from» : String
  «to» : String
  deriving DecidableEq, Repr

/-- `dagron_core::SerializableGraph`, as far as it is read here: the names of
its nodes, and its edges. -/
structure SerializableGraph where
  nodes : List String
  edges : List SerializableEdge
  deriving DecidableEq, Repr

/-- Third-party code: `str::from_utf8`, `serde_json`, `dagron_core`'s graph and
its sort, and how an error reads.  A built graph stands as the document it is
built from. -/
structure Externals where
  fromUtf8 : Bytes → Except String String
  graphFromStr : String → Except String SerializableGraph
  fromSerializable : SerializableGraph → Except String SerializableGraph
  topologicalSort : SerializableGraph → Except String (List String)
  serde : Serde
  display : QueueError → String

/-- An error of a library, as `topological_order` hands it on. -/
def wrapped {α : Type} (what : String) (r : Except String α) : Result α :=
  r.mapError fun e => .serialization (what ++ e)

/-- The map from a node to the sources of its edges, after one more edge.  A
name without an entry reads as one without sources. -/
def pushEdge (preds : String → List String) (e : SerializableEdge) : String → List String :=
  Function.update preds e.«to» (preds e.«to» ++ [e.«from»])

/-- Each name takes its entry out of the map. -/
def takePredecessors : List String → (String → List String) → List TopologicalNode
  | [], _ => []
  | name :: rest, preds =>
    ⟨name, preds name⟩ :: takePredecessors rest (Function.update preds name [])

def Externals.topologicalOrder (ext : Externals) (dagBytes : Bytes) :
    Result (List TopologicalNode) := do
  let dagJson ← wrapped "workflow DAG is not valid UTF-8: " (ext.fromUtf8 dagBytes)
  let graph ← wrapped "failed to deserialize workflow DAG: " (ext.graphFromStr dagJson)
  let predecessors := graph.edges.foldl pushEdge fun _ => []
  let dag ← wrapped "failed to build DAG: " (ext.fromSerializable graph)
  let sorted ← wrapped "topological sort failed: " (ext.topologicalSort dag)
  return takePredecessors sorted predecessors

/-- The ids a submission mints, and the clock it reads. -/
structure Minted where
  runId : String
  definitionId : String
  jobId : Nat → String
  now : Int

inductive SubmitWorkflowError
  | invalidStepMetadata (message : String)
  | storage (error : QueueError)
  deriving DecidableEq, Repr

/-- Its `Display`. -/
def SubmitWorkflowError.text (ext : Externals) : SubmitWorkflowError → String
  | .invalidStepMetadata message => message
  | .storage error => ext.display error

/-- `?` on a store call inside `submit_workflow`. -/
def store {α : Type} (x : Act QueueError α) : Act SubmitWorkflowError α :=
  ExceptT.adapt .storage x

/-- `SubmitStaticWorkflowRequest`; the maps are association lists without
repeated names. -/
structure SubmitStaticWorkflowRequest where
  name : String
  version : Int
  dagBytes : Bytes
  stepMetadata : List (String × StepMetadata)
  nodePayloads : List (String × Bytes)
  queueDefault : String
  deferredNodeNames : List String
  cacheHitNodes : List (String × String)
  parentRunId : Option String
  parentNodeName : Option String
  defaultTimeoutMs : Int
  defaultPriority : Int
  defaultMaxRetries : Int
  resultTtlMs : Option Int
  «namespace» : Scope
  enqueuedBy : Option String

structure WorkflowRunHandle where
  runId : String
  definitionId : String
  deriving DecidableEq, Repr

/-- The nodes that get no job at submission. -/
def SubmitStaticWorkflowRequest.jobless (req : SubmitStaticWorkflowRequest)
    (name : String) : Bool :=
  (req.cacheHitNodes.lookup name).isSome || req.deferredNodeNames.contains name

def buildMetadataJson (serde : Serde) (runId nodeName : String) : String :=
  serde.print (JsonMap.put (JsonMap.put .empty "workflow_run_id" (.str runId))
    "workflow_node_name" (.str nodeName))

/-- A step that is not in a map it has to be in. -/
def missingFrom (map name : String) : SubmitWorkflowError :=
  .invalidStepMetadata ("step '" ++ name ++ "' missing from " ++ map)

def entry {α : Type} (map name : String) (entries : List (String × α)) :
    Except SubmitWorkflowError α :=
  match entries.lookup name with
  | some a => .ok a
  | none => .error (missingFrom map name)

def checkSteps (req : SubmitStaticWorkflowRequest) :
    List TopologicalNode → Except SubmitWorkflowError Unit
  | [] => .ok ()
  | topo :: rest =>
    if req.jobless topo.name then checkSteps req rest
    else do
      let _ ← entry "step_metadata" topo.name req.stepMetadata
      let _ ← entry "node_payloads" topo.name req.nodePayloads
      checkSteps req rest

def sameMap {α : Type} [DecidableEq α] (a b : List (String × α)) : Bool :=
  a.all (fun e => b.lookup e.1 = some e.2) && b.all (fun e => a.lookup e.1 = some e.2)

/-- The definition a run is submitted against: the one there is, if it is the
same graph, or a new one. -/
def definitionFor (req : SubmitStaticWorkflowRequest) (minted : Minted) :
    Act SubmitWorkflowError String := do
  match ← store (ask (.getDefinition req.name req.version)) with
  | some existing =>
    if existing.dagData ≠ req.dagBytes || !sameMap existing.stepMetadata req.stepMetadata then
      throw (.invalidStepMetadata ("workflow '" ++ req.name ++ "' version " ++
        toString req.version ++ " already exists with a different graph; " ++
        "submit under a new version instead of reusing this one"))
    return existing.id
  | none =>
    store (ask (.createDefinition
      ⟨minted.definitionId, req.name, req.version, req.dagBytes, req.stepMetadata, minted.now⟩))
    return minted.definitionId

/-- The job ids of a node's predecessors, but for the deferred ones and the
cache hits. -/
def dependsOnOf (req : SubmitStaticWorkflowRequest) (topo : TopologicalNode)
    (jobIds : List (String × String)) : Except SubmitWorkflowError (List String) :=
  (topo.predecessors.filter fun p => !req.jobless p).mapM fun p =>
    match jobIds.lookup p with
    | some id => .ok id
    | none => .error (.invalidStepMetadata ("predecessor '" ++ p ++ "' of step '" ++ topo.name ++
        "' has no job id"))

def nodeJob (ext : Externals) (req : SubmitStaticWorkflowRequest) (runId : String)
    (topo : TopologicalNode) (step : StepMetadata) (payload : Bytes) (dependsOn : List String)
    (now : Int) : NewJob where
  queue := step.queue.getD req.queueDefault
  taskName := step.taskName
  payload := payload
  priority := step.priority.getD req.defaultPriority
  scheduledAt := now
  maxRetries := step.maxRetries.getD req.defaultMaxRetries
  timeoutMs := step.timeoutMs.getD req.defaultTimeoutMs
  uniqueKey := none
  metadata := some (buildMetadataJson ext.serde runId topo.name)
  notes := none
  dependsOn := dependsOn
  expiresAt := none
  resultTtlMs := req.resultTtlMs
  «namespace» := req.namespace
  debounceKey := none
  enqueuedBy := req.enqueuedBy

def createWorkflowNode (node : WorkflowNode) : Act QueueError Unit := ask (.createNodesBatch [node])

/-- One turn of the loop of `submit_nodes`: the job id map, with the node's
job if it got one. -/
def submitNode (ext : Externals) (req : SubmitStaticWorkflowRequest) (minted : Minted)
    (topo : TopologicalNode) (jobIds : List (String × String)) :
    Act SubmitWorkflowError (List (String × String)) := do
  match req.cacheHitNodes.lookup topo.name with
  | some resultHash =>
    store (createWorkflowNode
      { WorkflowNode.fresh minted.runId topo.name none .cacheHit with
        resultHash := some resultHash, completedAt := some minted.now })
    return jobIds
  | none =>
    if req.deferredNodeNames.contains topo.name then
      store (createWorkflowNode (.fresh minted.runId topo.name none .pending))
      return jobIds
    let step ← Act.of (entry "step_metadata" topo.name req.stepMetadata)
    let payload ← Act.of (entry "node_payloads" topo.name req.nodePayloads)
    let dependsOn ← Act.of (dependsOnOf req topo jobIds)
    -- The job can be claimed from here on; its node has no row yet.
    let job ← store (ask (.enqueue
      (nodeJob ext req minted.runId topo step payload dependsOn minted.now)
      (minted.jobId jobIds.length) minted.now))
    store (createWorkflowNode (.fresh minted.runId topo.name (some job.id) .pending))
    return (topo.name, job.id) :: jobIds

def submitNodes (ext : Externals) (req : SubmitStaticWorkflowRequest) (minted : Minted) :
    List TopologicalNode → List (String × String) → Act SubmitWorkflowError Unit
  | [], _ => pure ()
  | topo :: rest, jobIds => do
    let jobIds ← submitNode ext req minted topo jobIds
    submitNodes ext req minted rest jobIds

def newRun (req : SubmitStaticWorkflowRequest) (minted : Minted) (definitionId : String) :
    WorkflowRun :=
  ⟨minted.runId, definitionId, .pending, some minted.now, none, none, req.parentRunId,
    req.parentNodeName, minted.now, none⟩

def submitWorkflow (ext : Externals) (req : SubmitStaticWorkflowRequest) (minted : Minted) :
    Act SubmitWorkflowError WorkflowRunHandle := do
  let ordered ← store (Act.of (ext.topologicalOrder req.dagBytes))
  Act.of (checkSteps req ordered)
  let definitionId ← definitionFor req minted
  store (ask (.createRun (newRun req minted definitionId)))
  match ← (submitNodes ext req minted ordered []).tried with
  | .error err =>
    -- Both answers are dropped, whatever they are.
    let _ ← (ask (.updateRunState minted.runId .failed (some (err.text ext)))).tried
    let _ ← (ask (.setRunCompleted minted.runId minted.now)).tried
    throw err
  | .ok () =>
    store (ask (.updateRunState minted.runId .running none))
    return ⟨minted.runId, definitionId⟩

end FlexiQ.Workflow
