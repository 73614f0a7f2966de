/-
# `Workflow.Ops` — what the tracker calls

`workflow_ops/`: the entry points through which the outcome of a job reaches
its node and its run, a run is cancelled or finalized, a fan-out is expanded
and checked, and a saga moves a run along.  Each is a program over single
store calls, in the order the source makes them.

`cancel_workflow_run` walks the tree of sub-workflows with a stack; `rounds`
bounds how many runs it takes off.
-/
import FlexiQ.Workflow.Submit

namespace FlexiQ.Workflow

open FlexiQ.Lib FlexiQ.Resilience

/-! ## Reading the nodes of a run -/

def readNodes (runId : String) : List String → Act QueueError (List WorkflowNode)
  | [] => pure []
  | name :: names => do
    let node ← ask (.getNode runId name)
    let nodes ← readNodes runId names
    return node.toList ++ nodes

/-- `get_workflow_nodes`: one query, or the names and then each hash. -/
def getWorkflowNodes (b : Backend) (runId : String) : Act QueueError (List WorkflowNode) :=
  match b with
  | .redis => do
    let names ← ask (.nodeNames runId)
    readNodes runId names
  | _ => ask (.selectNodes runId)

/-- `get_workflow_nodes_by_prefix`. -/
def getWorkflowNodesByStem (b : Backend) (runId stem : String) :
    Act QueueError (List WorkflowNode) :=
  match b with
  | .redis => do
    let nodes ← getWorkflowNodes .redis runId
    return nodes.filter fun node => matchesStem .redis stem node.nodeName
  | _ => ask (.selectNodesLike runId stem)

/-! ## Outcomes -/

/-- One node of the cascade; what fails is logged. -/
def cascadeSkip (runId : String) (now : Int) (node : WorkflowNode) : Act QueueError Unit := do
  if node.status = .pending then
    match node.jobId with
    | some jobId => let _ ← (ask (.cancelJob jobId now)).tried
    | none => pure ()
    let _ ← (ask (.setNode runId node.nodeName (.status .skipped))).tried

def cascadeSkipPendingNodes (runId : String) (now : Int) : List WorkflowNode → Act QueueError Unit
  | [] => pure ()
  | node :: nodes => do
    cascadeSkip runId now node
    cascadeSkipPendingNodes runId now nodes

/-- What `mark_workflow_node_result` came to. -/
inductive MarkOutcome
  | notFound
  | noWorkflowMetadata
  | settled (runId nodeName : String) (finalState : Option WorkflowState)
  deriving DecidableEq, Repr

/-- The run and the node a job's metadata names. -/
def routing (serde : Serde) (metadata : Option String) : Option (String × String) := do
  let document ← serde.parse (← metadata)
  let runId ← (← document.get "workflow_run_id").asStr
  let nodeName ← (← document.get "workflow_node_name").asStr
  return (runId, nodeName)

def outcomeWrite (succeeded : Bool) (error resultHash : Option String) (now : Int) : NodeWrite :=
  if succeeded then .completed now resultHash else .failed (error.getD "failed")

/-- The state a run whose nodes are all terminal ends in. -/
def finalState (nodes : List WorkflowNode) (succeeded : Bool) : WorkflowState :=
  if (nodes.any fun node => node.status = .failed) || !succeeded then .failed else .completed

def allTerminal (nodes : List WorkflowNode) : Bool :=
  nodes.all fun node => node.status.isTerminal

/-- Fail-fast: the pending nodes of a run one of whose nodes failed are
skipped, unless the tracker sees to that. -/
def failFast (b : Backend) (runId : String) (succeeded skipCascade : Bool) (now : Int) :
    Act QueueError Unit :=
  if !succeeded && !skipCascade then do
    let nodes ← getWorkflowNodes b runId
    cascadeSkipPendingNodes runId now nodes
  else pure ()

/-- The run is finalized if all its nodes, as they are read now, are done. -/
def finalizeIfDone (b : Backend) (runId : String) (succeeded : Bool) (error : Option String)
    (now : Int) : Act QueueError (Option WorkflowState) := do
  let nodes ← getWorkflowNodes b runId
  if allTerminal nodes then
    let state := finalState nodes succeeded
    ask (.updateRunState runId state (if state = .failed then error else none))
    ask (.setRunCompleted runId now)
    return some state
  else return none

def markWorkflowNodeResult (ext : Externals) (b : Backend) (jobId : String) (succeeded : Bool)
    (error : Option String) (skipCascade : Bool) (resultHash : Option String) (now : Int) :
    Act QueueError MarkOutcome := do
  match ← ask (.getJob jobId) with
  | none => return .notFound
  | some job =>
    match routing ext.serde job.metadata with
    | none => return .noWorkflowMetadata
    | some (runId, nodeName) =>
      ask (.setNode runId nodeName (outcomeWrite succeeded error resultHash now))
      failFast b runId succeeded skipCascade now
      let state ← finalizeIfDone b runId succeeded error now
      return .settled runId nodeName state

def finalizeRunIfTerminal (b : Backend) (runId : String) (now : Int) :
    Act QueueError (Option WorkflowState) :=
  finalizeIfDone b runId true (some "fan-out child failed") now

/-! ## Cancelling -/

/-- The loop of `cancel_workflow_run`; the stack's top is its head. -/
def cancelLoop (b : Backend) (now : Int) : Nat → List String → List String → Act QueueError Unit
  | 0, _, _ | _ + 1, [], _ => pure ()
  | rounds + 1, runId :: stack, visited =>
    if visited.contains runId then cancelLoop b now rounds stack visited
    else do
      let nodes ← getWorkflowNodes b runId
      cascadeSkipPendingNodes runId now nodes
      ask (.updateRunState runId .cancelled none)
      ask (.setRunCompleted runId now)
      let children ← ((ask (.getChildRuns runId)).tried : Act QueueError _)
      let open' := (children.toOption.getD []).filter fun child =>
        !child.state.isTerminal && !(runId :: visited).contains child.id
      cancelLoop b now rounds ((open'.map WorkflowRun.id).reverse ++ stack) (runId :: visited)

def cancelWorkflowRun (b : Backend) (runId : String) (now : Int) (rounds : Nat) :
    Act QueueError Unit :=
  cancelLoop b now rounds [runId] []

/-! ## Single nodes -/

def skipWorkflowNode (runId nodeName : String) (now : Int) : Act QueueError Unit := do
  match ← ask (.getNode runId nodeName) with
  | none => return ()
  | some node =>
    match node.jobId with
    | some jobId => let _ ← (ask (.cancelJob jobId now)).tried
    | none => pure ()
    ask (.setNode runId nodeName (.status .skipped))

def resolveWorkflowGate (runId nodeName : String) (approved : Bool) (error : Option String)
    (now : Int) : Act QueueError Unit :=
  ask (.setNode runId nodeName
    (if approved then .completed now none else .failed (error.getD "rejected")))

/-! ## Fan-outs -/

def maxFanOut : Nat := 10000

/-- How the jobs of a step created at runtime are placed. -/
structure Placement where
  taskName : String
  queue : String
  maxRetries : Int
  timeoutMs : Int
  priority : Int
  resultTtlMs : Option Int
  deriving DecidableEq, Repr

/-- A job created at runtime, for a node of a run. -/
def runtimeJob (ext : Externals) (h : Handle) (runId nodeName : String) (payload : Bytes)
    (place : Placement) (now : Int) : NewJob where
  queue := place.queue
  taskName := place.taskName
  payload := payload
  priority := place.priority
  scheduledAt := now
  maxRetries := place.maxRetries
  timeoutMs := place.timeoutMs
  uniqueKey := none
  metadata := some (buildMetadataJson ext.serde runId nodeName)
  notes := none
  dependsOn := []
  expiresAt := none
  resultTtlMs := place.resultTtlMs
  «namespace» := h.namespace
  debounceKey := none
  enqueuedBy := none

def requireVisibleRun (runId : String) : Act QueueError WorkflowRun := do
  match ← ask (.getRun runId) with
  | some run => return run
  | none => throw (runNotFound runId)

/-- The first loop of `expand_fan_out`: the children's jobs, and their rows
to be. -/
def enqueueChildren (ext : Externals) (h : Handle) (runId : String) (place : Placement)
    (jobId : Nat → String) (now : Int) :
    Nat → List (String × Bytes) → Act QueueError (List WorkflowNode)
  | _, [] => pure []
  | i, (child, payload) :: rest => do
    let job ← ask (.enqueue (runtimeJob ext h runId child payload place now) (jobId i) now)
    let nodes ← enqueueChildren ext h runId place jobId now (i + 1) rest
    return .fresh runId child (some job.id) .pending :: nodes

/-- `expand_fan_out`; a `ValueError` comes before any call. -/
def expandFanOut (ext : Externals) (h : Handle) (runId parent : String)
    (childNames : List String) (childPayloads : List Bytes) (place : Placement)
    (jobId : Nat → String) (now : Int) : Act QueueError (List String) :=
  if childNames.length ≠ childPayloads.length then
    throw (.other "child_names and child_payloads must have the same length")
  else if childNames.length > maxFanOut then
    throw (.other ("fan-out of " ++ toString childNames.length ++
      " children exceeds the limit of " ++ toString maxFanOut))
  else do
    let _ ← requireVisibleRun runId
    if childNames = [] then
      ask (.setNode runId parent (.fanOutCount 0))
      ask (.setNode runId parent (.completed now none))
      return []
    else
      let nodes ← enqueueChildren ext h runId place jobId now 0 (childNames.zip childPayloads)
      ask (.createNodesBatch nodes)
      -- The children have rows, and may be done, before the parent is running.
      ask (.setNode runId parent (.fanOutCount childNames.length))
      return nodes.filterMap WorkflowNode.jobId

def createDeferredJob (ext : Externals) (h : Handle) (runId nodeName : String) (payload : Bytes)
    (place : Placement) (jobId : String) (now : Int) : Act QueueError String := do
  let _ ← requireVisibleRun runId
  let job ← ask (.enqueue (runtimeJob ext h runId nodeName payload place now) jobId now)
  ask (.setNode runId nodeName (.job job.id))
  return job.id

/-- `check_fan_out_completion`: the verdict, to the caller that finalized the
parent. -/
def checkFanOutCompletion (b : Backend) (runId parent : String) (now : Int) :
    Act QueueError (Option (Bool × List String)) := do
  let children ← getWorkflowNodesByStem b runId (parent ++ "[")
  if children.isEmpty || !allTerminal children then return none
  let anyFailed := children.any fun node => node.status = .failed
  let transitioned ← ask (.finalizeFanOutParent runId parent (!anyFailed)
    (if anyFailed then some "fan-out child failed" else none) now)
  if !transitioned then return none
  return some (!anyFailed, children.filterMap WorkflowNode.jobId)

/-! ## The entry points together -/

/-- A call of the workflow API. -/
inductive Request
  | submit (req : SubmitStaticWorkflowRequest) (minted : Minted)
  | mark (jobId : String) (succeeded : Bool) (error : Option String) (skipCascade : Bool)
      (resultHash : Option String) (now : Int)
  | cancel (runId : String) (now : Int) (rounds : Nat)
  | finalize (runId : String) (now : Int)
  | completedWithFailures (runId : String)
  | compensating (runId : String)
  | compensated (runId : String) (completedAt : Int)
  | compensationFailed (runId : String) (completedAt : Int) (error : Option String)
  | setNode (runId nodeName : String) (write : NodeWrite)
  | skipNode (runId nodeName : String) (now : Int)
  | resolveGate (runId nodeName : String) (approved : Bool) (error : Option String) (now : Int)
  | expand (runId parent : String) (childNames : List String) (childPayloads : List Bytes)
      (place : Placement) (jobId : Nat → String) (now : Int)
  | defer (runId nodeName : String) (payload : Bytes) (place : Placement) (jobId : String)
      (now : Int)
  | check (runId parent : String) (now : Int)

inductive Response
  | submitted (result : Except SubmitWorkflowError WorkflowRunHandle)
  | marked (result : Result MarkOutcome)
  | finalized (result : Result (Option WorkflowState))
  | verdict (result : Result (Option (Bool × List String)))
  | expanded (result : Result (List String))
  | deferred (result : Result String)
  | done (result : Result Unit)
  deriving DecidableEq

/-- A program of the API, with what it came to. -/
def Act.answering {ε α : Type} (x : Act ε α) (f : Except ε α → Response) :
    Prog Call Call.Answer Response := do
  let result ← x.run
  return f result

def endSaga (runId : String) (state : WorkflowState) (error : Option String) (completedAt : Int) :
    Act QueueError Unit := do
  ask (.updateRunState runId state error)
  ask (.setRunCompleted runId completedAt)

def Request.prog (ext : Externals) (h : Handle) : Request → Prog Call Call.Answer Response
  | .submit req minted => (submitWorkflow ext req minted).answering .submitted
  | .mark jobId succeeded error skipCascade resultHash now =>
    (markWorkflowNodeResult ext h.backend jobId succeeded error skipCascade resultHash
      now).answering .marked
  | .cancel runId now rounds => (cancelWorkflowRun h.backend runId now rounds).answering .done
  | .finalize runId now => (finalizeRunIfTerminal h.backend runId now).answering .finalized
  | .completedWithFailures runId =>
    (ask (.updateRunState runId .completedWithFailures none)).answering .done
  | .compensating runId => (ask (.updateRunState runId .compensating none)).answering .done
  | .compensated runId completedAt => (endSaga runId .compensated none completedAt).answering .done
  | .compensationFailed runId completedAt error =>
    (endSaga runId .compensationFailed error completedAt).answering .done
  | .setNode runId nodeName write => (ask (.setNode runId nodeName write)).answering .done
  | .skipNode runId nodeName now => (skipWorkflowNode runId nodeName now).answering .done
  | .resolveGate runId nodeName approved error now =>
    (resolveWorkflowGate runId nodeName approved error now).answering .done
  | .expand runId parent childNames childPayloads place jobId now =>
    (expandFanOut ext h runId parent childNames childPayloads place jobId now).answering
      .expanded
  | .defer runId nodeName payload place jobId now =>
    (createDeferredJob ext h runId nodeName payload place jobId now).answering .deferred
  | .check runId parent now => (checkFanOutCompletion h.backend runId parent now).answering .verdict

/-- The two stores under any number of API calls.  What the rest of the
queue does to the job store is a drift. -/
def service {Q : Type} (ext : Externals) (h : Handle) (jobs : JobQueue Q) :
    Service Request (Q → Q) Call Call.Answer Response (World Q) where
  arrive request w := some (request.prog ext h, w)
  exec := answer h jobs
  drift f w := { w with queue := f w.queue }

end FlexiQ.Workflow
