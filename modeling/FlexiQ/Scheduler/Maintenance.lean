/-
# `Scheduler.Maintenance` — the sweep that settles what no worker will

`reap_stale` of `scheduler/maintenance.rs`.  It reads a list of jobs first
and then settles them one by one, by handing the result handler a failure
synthesised from the row it READ.
-/
import FlexiQ.Scheduler.Results

namespace FlexiQ.Scheduler

open FlexiQ.Lib FlexiQ.Sql

def acceptedNotSettled : String := "push.accepted_not_settled"

def sweptFailure (job : Job) (error : String) (timedOut : Bool) : JobResult :=
  .failure job.id error job.retryCount job.maxRetries job.taskName true timedOut

def timeoutError (stale : StaleJob) : String :=
  if stale.awaitingSettle then
    acceptedNotSettled ++ ": the target accepted this job and never settled it within " ++
      toString stale.job.timeoutMs ++ "ms"
  else "job timed out after " ++ toString stale.job.timeoutMs ++ "ms"

/-- One turn of the stale sweep.  A settle marker has to be won first. -/
def reapStaleJob (now : Int) (stale : StaleJob) : Code (Result Unit) := do
  let won ← if stale.awaitingSettle then Code.claimSettle stale.job.id (.expired now)
    else pure true
  if !won then return .ok ()
  else
    match ← handleResult (sweptFailure stale.job (timeoutError stale) true) with
    | .error e => return .error e
    | .ok _ => return .ok ()

end FlexiQ.Scheduler
