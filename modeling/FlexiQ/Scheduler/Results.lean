/-
# `Scheduler.Results` — what a scheduler does with a result

`scheduler/result_handler.rs`.  `settleResult` frees the job's slot and
takes the record the job was LAST dispatched under, asks the fence whether
that record still speaks for the job, and writes the transition the result
asks for.  A sleep skips the fence: `sleep_job` already released the claim
when it committed.

Errors, metrics and breaker samples are side tables nothing here reads back;
they are left out.
-/
import FlexiQ.Scheduler.Calls

namespace FlexiQ.Scheduler

open FlexiQ.Lib FlexiQ.Sql

inductive JobResult
  | success (jobId : String) (result : Option Bytes) (taskName : String)
  | failure (jobId error : String) (retryCount maxRetries : Int) (taskName : String)
      (shouldRetry timedOut : Bool)
  | cancelled (jobId taskName : String)
  | slept (jobId taskName : String) (wakeAt : Int)
  deriving DecidableEq, Repr

def JobResult.jobId : JobResult → String
  | .success jobId .. => jobId
  | .failure jobId .. => jobId
  | .cancelled jobId _ => jobId
  | .slept jobId .. => jobId

def JobResult.isSlept : JobResult → Bool
  | .slept .. => true
  | _ => false

inductive ResultOutcome
  | success (jobId taskName : String)
  | retry (jobId taskName queue error : String) (retryCount : Int) (timedOut : Bool)
  | deadLettered (jobId taskName queue error : String) (timedOut : Bool)
  | cancelled (jobId taskName queue : String)
  | superseded (jobId : String)
  | slept (jobId taskName queue : String) (wakeAt : Int)
  deriving DecidableEq, Repr

/-- `Finished`: what the fence decided. -/
inductive Finished
  | current (record : Option DispatchRecord)
  | superseded
  deriving DecidableEq, Repr

structure Settled where
  outcome : ResultOutcome
  record : Option DispatchRecord
  cascaded : List Job
  deriving DecidableEq, Repr

def retryBudgetExhausted : String := "retry_budget_exhausted"

/-- `release_dispatch`: free the slot; the record it was dispatched under,
live or already retired. -/
def releaseDispatch (jobId : String) : Code (Option DispatchRecord) := do
  match ← Code.releaseInFlight jobId with
  | some record => return some record
  | none => Code.lastDispatch jobId

/-- `authorize_finished`.  The fence fails open. -/
def authorizeFinished (jobId : String) : Code Finished := do
  match ← releaseDispatch jobId with
  | none => return .current none
  | some record =>
    match ← Code.authorizeAttempt jobId record with
    | .ok .superseded => return .superseded
    | .ok .authorized => return .current (some record)
    | .error _ => return .current (some record)

def finalizeSuccess (jobId : String) (result : Option Bytes) (taskName : String) :
    Code (Result ResultOutcome) := do
  match ← Code.complete jobId result with
  | .error e => return .error e
  | .ok () =>
    Code.completeExecution jobId
    return .ok (.success jobId taskName)

/-- The closure `move_to_dlq` of the failure arm. -/
def moveToDlq (jobId : String) (job : Option Job) (error : String) (metadata : Option String) :
    Code (Result (List Job)) := do
  match job with
  | some job =>
    match ← Code.deadLetter job error metadata false with
    | .error e => return .error e
    | .ok () => Code.cascadeCancel job.id dependencyFailed job.namespace
  | none =>
    Code.completeExecution jobId
    return .ok []

def deadLettered (jobId error taskName : String) (timedOut : Bool) (job : Option Job)
    (metadata : Option String) : Code (Result (ResultOutcome × List Job)) := do
  let queue := (job.map Job.queue).getD ""
  match ← moveToDlq jobId job error metadata with
  | .error e => return .error e
  | .ok cascaded => return .ok (.deadLettered jobId taskName queue error timedOut, cascaded)

/-- The failure arm of `transition`. -/
def transitionFailure (jobId error : String) (retryCount maxRetries : Int) (taskName : String)
    (shouldRetry timedOut : Bool) : Code (Result (ResultOutcome × List Job)) := do
  let job ← Code.getJob jobId
  if !shouldRetry then deadLettered jobId error taskName timedOut job none
  else if retryCount < maxRetries then
    if !(← Code.retryBudgetAllows taskName) then
      deadLettered jobId error taskName timedOut job (some retryBudgetExhausted)
    else
      let nextAt ← Code.nextRetryAt taskName retryCount
      match ← Code.retry jobId nextAt with
      | .error e => return .error e
      | .ok () =>
        let queue := (job.map Job.queue).getD ""
        return .ok (.retry jobId taskName queue error retryCount timedOut, [])
  else deadLettered jobId error taskName timedOut job none

def transition : JobResult → Code (Result (ResultOutcome × List Job))
  | .success jobId result taskName => do
    match ← finalizeSuccess jobId result taskName with
    | .error e => return .error e
    | .ok outcome => return .ok (outcome, [])
  | .failure jobId error retryCount maxRetries taskName shouldRetry timedOut =>
    transitionFailure jobId error retryCount maxRetries taskName shouldRetry timedOut
  | .cancelled jobId taskName => do
    -- An error is logged and the outcome reported all the same.
    let _ ← Code.markCancelled jobId
    let job ← Code.getJob jobId
    return .ok (.cancelled jobId taskName ((job.map Job.queue).getD ""), [])
  | .slept jobId taskName wakeAt => do
    let job ← Code.getJob jobId
    return .ok (.slept jobId taskName ((job.map Job.queue).getD "") wakeAt, [])

/-- Write the transition under the record the result was checked against. -/
def applyTransition (record : Option DispatchRecord) (result : JobResult) :
    Code (Result Settled) := do
  let written ← transition result
  return written.map fun (outcome, cascaded) => ⟨outcome, record, cascaded⟩

def settleResult (result : JobResult) : Code (Result Settled) := do
  if result.isSlept then
    let record ← releaseDispatch result.jobId
    applyTransition record result
  else
    match ← authorizeFinished result.jobId with
    | .superseded => return .ok ⟨.superseded result.jobId, none, []⟩
    | .current record => applyTransition record result

/-- `handle_result`, without the events it emits. -/
def handleResult (result : JobResult) : Code (Result ResultOutcome) := do
  let settled ← settleResult result
  return settled.map Settled.outcome

end FlexiQ.Scheduler
