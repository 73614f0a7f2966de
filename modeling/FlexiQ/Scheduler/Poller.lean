/-
# `Scheduler.Poller` — from a pending row to a job in a worker's hands

The single-job path of `scheduler/poller.rs`: dequeue, admission, the soft
gates, the claim, the concurrency caps, the hand-off.  The gates look at
rate limits, breakers, quotas and the worker channel, none of which this
development models; their verdicts are the fields of `Gates`.
-/
import FlexiQ.Scheduler.Results

namespace FlexiQ.Scheduler

open FlexiQ.Lib FlexiQ.Sql

inductive GateDecision
  | proceed
  | defer
  | shed (reason : String)
  deriving DecidableEq, Repr

/-- What the gates say about one job, and when a job they turn away comes
back. -/
structure Gates where
  codelDrop : Option String
  preClaim : GateDecision
  admitted : Bool
  channelOpen : Bool
  deferUntil : Int
  deriving DecidableEq, Repr

inductive Dispatched
  | idle
  | shed
  | sent (job : Job) (epoch : Option Int)
  deriving DecidableEq, Repr

def rateLimitShedMetadata : String := "\x7b\"shed\":\"rate_limit\"\x7d"

def codelShedMetadata : String := "\x7b\"codel\":true\x7d"

/-- `shed_to_dlq_reporting`. -/
def shedToDlq (job : Job) (reason metadata : String) : Code (Result Dispatched) := do
  match ← Code.deadLetter job reason (some metadata) true with
  | .error e => return .error e
  | .ok () =>
    match ← Code.cascadeCancel job.id dependencyFailed job.namespace with
    | .error e => return .error e
    | .ok _ => return .ok .shed

def rescheduleDeferred (jobId : String) (nextAt : Int) : Code (Result Dispatched) := do
  match ← Code.reschedule jobId nextAt with
  | .error e => return .error e
  | .ok () => return .ok .idle

def rollbackClaimAndReschedule (jobId : String) (nextAt : Int) : Code (Result Dispatched) := do
  Code.completeExecution jobId
  rescheduleDeferred jobId nextAt

/-- `finish_dispatch`: the record is filed BEFORE the job is sent. -/
def finishDispatch (job : Job) (epoch : Option Int) (gates : Gates) : Code (Result Dispatched) := do
  if !gates.admitted then rollbackClaimAndReschedule job.id gates.deferUntil
  else
    Code.trackInFlight job.id job.taskName job.queue job.retryCount epoch
    if gates.channelOpen then return .ok (.sent job epoch)
    else
      Code.untrackInFlight job.id
      rollbackClaimAndReschedule job.id gates.deferUntil

def gateAndDispatch (job : Job) (gates : Gates) : Code (Result Dispatched) := do
  match gates.preClaim with
  | .defer => rescheduleDeferred job.id gates.deferUntil
  | .shed reason => shedToDlq job reason rateLimitShedMetadata
  | .proceed =>
    match ← Code.claimExecution job.id with
    | none => return .ok .idle
    | some epoch => finishDispatch job (some epoch) gates

/-- `try_dispatch` on one queue. -/
def tryDispatch (queue : String) (order : DispatchOrder) (gates : Gates) :
    Code (Result Dispatched) := do
  let now ← Code.nowMillis
  match ← Code.dequeue queue now order with
  | .error e => return .error e
  | .ok dequeued =>
    match dequeued.claimed.head? with
    | none => return .ok .idle
    | some job =>
      match gates.codelDrop with
      | some reason => shedToDlq job reason codelShedMetadata
      | none => gateAndDispatch job gates

end FlexiQ.Scheduler
