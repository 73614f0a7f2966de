/-
# `Workflow.State` — the records of a workflow run

`state.rs`, `node.rs`, `run.rs` and `definition.rs` of the workflow crate: the
states of a run and the machine they are meant to follow, the statuses of a
node, and the rows the two tables hold.  A row is kept without the columns no
modelled call reads: the surrogate id of a node, a run's parameters and its
trace context.
-/
import FlexiQ.Core.Job

namespace FlexiQ.Workflow

inductive WorkflowState
  | pending
  | running
  | paused
  | completed
  | completedWithFailures
  | failed
  | cancelled
  | compensating
  | compensated
  | compensationFailed
  deriving DecidableEq, Repr

namespace WorkflowState

def isTerminal : WorkflowState → Bool
  | .completed | .completedWithFailures | .failed | .cancelled | .compensated
  | .compensationFailed => true
  | _ => false

def canTransitionTo : WorkflowState → WorkflowState → Bool
  | .pending, .running
  | .running, .completed
  | .running, .completedWithFailures
  | .running, .failed
  | .running, .cancelled
  | .running, .paused
  | .running, .compensating
  | .paused, .running
  | .paused, .cancelled
  | .completedWithFailures, .compensating
  | .completed, .compensating
  | .failed, .compensating
  | .compensating, .compensated
  | .compensating, .compensationFailed => true
  | _, _ => false

end WorkflowState

inductive WorkflowNodeStatus
  | pending
  | running
  | completed
  | failed
  | skipped
  | waitingApproval
  | cacheHit
  | compensating
  | compensated
  | compensationFailed
  deriving DecidableEq, Repr

namespace WorkflowNodeStatus

def isTerminal : WorkflowNodeStatus → Bool
  | .completed | .failed | .skipped | .cacheHit | .compensated | .compensationFailed => true
  | _ => false

end WorkflowNodeStatus

/-- `WorkflowRun`, with the namespace its store stamps it with. -/
structure WorkflowRun where
  id : String
  definitionId : String
  state : WorkflowState
  startedAt : Option Int
  completedAt : Option Int
  error : Option String
  parentRunId : Option String
  parentNodeName : Option String
  createdAt : Int
  «namespace» : Scope
  deriving DecidableEq, Repr

structure WorkflowNode where
  runId : String
  nodeName : String
  jobId : Option String
  status : WorkflowNodeStatus
  resultHash : Option String
  fanOutCount : Option Int
  startedAt : Option Int
  completedAt : Option Int
  error : Option String
  compensationJobId : Option String
  compensationStartedAt : Option Int
  compensationCompletedAt : Option Int
  compensationError : Option String
  deriving DecidableEq, Repr

/-- `UNIQUE(run_id, node_name)`. -/
def WorkflowNode.key (node : WorkflowNode) : String × String := (node.runId, node.nodeName)

def WorkflowNode.fresh (runId nodeName : String) (jobId : Option String)
    (status : WorkflowNodeStatus) : WorkflowNode :=
  ⟨runId, nodeName, jobId, status, none, none, none, none, none, none, none, none, none⟩

/-- `StepMetadata`, as far as a submission and the tracker read it. -/
structure StepMetadata where
  taskName : String
  queue : Option String
  maxRetries : Option Int
  timeoutMs : Option Int
  priority : Option Int
  fanOut : Option String
  fanIn : Option String
  condition : Option String
  deriving DecidableEq, Repr

/-- `WorkflowDefinition`: `step_metadata` is the map as an association list
without repeated names. -/
structure WorkflowDefinition where
  id : String
  name : String
  version : Int
  dagData : Bytes
  stepMetadata : List (String × StepMetadata)
  createdAt : Int
  deriving DecidableEq, Repr

/-- `TopologicalNode`: a node with the names of its direct predecessors. -/
structure TopologicalNode where
  name : String
  predecessors : List String
  deriving DecidableEq, Repr

def nodeNotFound (runId nodeName : String) : QueueError :=
  .other ("node '" ++ nodeName ++ "' not found in workflow run " ++ runId)

def runNotFound (runId : String) : QueueError :=
  .other ("workflow run not found: " ++ runId)

end FlexiQ.Workflow
