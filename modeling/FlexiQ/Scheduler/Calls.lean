/-
# `Scheduler.Calls` — the atomic steps a scheduler is made of

Scheduler code runs on several threads and shares its database with other
schedulers.  What is atomic is one storage call, or one critical section on
the scheduler's own `InFlight`.  `Call` lists them; `perform` says what each
does to a `Node`, which is one scheduler's bookkeeping next to the store.

The clock, a minted epoch or id, the backoff, the retry budget and the set of
live workers come from outside, in `Env`.
-/
import FlexiQ.Lib.Prog
import FlexiQ.Scheduler.InFlight
import FlexiQ.Sql.DeadLetter
import FlexiQ.Sql.Dequeue
import FlexiQ.Sql.Locks

namespace FlexiQ.Scheduler

open FlexiQ.Lib FlexiQ.Sql

structure Config where
  claimOwner : String
  «namespace» : Scope
  serde : Serde

/-- What the world outside supplies to one call. -/
structure Env where
  now : Int
  epoch : Int
  deadId : String
  budget : Bool
  nextRetryAt : Int
  liveWorkers : List String
  deriving DecidableEq, Repr

structure Node where
  inFlight : InFlight
  store : Store
  deriving DecidableEq

inductive Call
  | nowMillis
  | releaseInFlight (jobId : String)
  | lastDispatch (jobId : String)
  | trackInFlight (jobId taskName queue : String) (attempt : Int) (epoch : Option Int)
  | untrackInFlight (jobId : String)
  | retryBudgetAllows (taskName : String)
  | nextRetryAt (taskName : String) (retryCount : Int)
  | authorizeAttempt (jobId : String) (record : DispatchRecord)
  | getJob (jobId : String)
  | complete (jobId : String) (result : Option Bytes)
  | completeExecution (jobId : String)
  | markCancelled (jobId : String)
  | retry (jobId : String) (nextAt : Int)
  | reschedule (jobId : String) (nextAt : Int)
  | deadLetter (job : Job) (error : String) (metadata : Option String) (shed : Bool)
  | cascadeCancel (jobId reason : String) (scope : Scope)
  | expirePendingJobs (now : Int)
  | purgeExecutionClaims (olderThanMs : Int)
  | reapStaleJobs (now : Int)
  | claimSettle (jobId : String) (claimant : SettleClaimant)
  | listLiveWorkerIds
  | reapOrphanedJobs (live : List String)
  | reclaimExecution (jobId deadOwner : String)
  | dequeue (queue : String) (now : Int) (order : DispatchOrder)
  | claimExecution (jobId : String)
  deriving DecidableEq, Repr

@[reducible] def Resp : Call → Type
  | .nowMillis => Int
  | .releaseInFlight _ => Option DispatchRecord
  | .lastDispatch _ => Option DispatchRecord
  | .trackInFlight .. => Unit
  | .untrackInFlight _ => Unit
  | .retryBudgetAllows _ => Bool
  | .nextRetryAt .. => Int
  | .authorizeAttempt .. => Result AttemptFence
  | .getJob _ => Option Job
  | .complete .. => Result Unit
  | .completeExecution _ => Unit
  | .markCancelled _ => Result Unit
  | .retry .. => Result Unit
  | .reschedule .. => Result Unit
  | .deadLetter .. => Result Unit
  | .cascadeCancel .. => Result (List Job)
  | .expirePendingJobs _ => Result (List Job)
  | .purgeExecutionClaims _ => Unit
  | .reapStaleJobs _ => List StaleJob
  | .claimSettle .. => Bool
  | .listLiveWorkerIds => List String
  | .reapOrphanedJobs _ => List (Job × String)
  | .reclaimExecution .. => Option Int
  | .dequeue .. => Result Dequeued
  | .claimExecution _ => Option Int

abbrev Code (α : Type) := Prog Call Resp α

/-! One call as a program, under its own name and with its answer spelled out. -/

namespace Code

def nowMillis : Code Int :=
  .call Call.nowMillis

def releaseInFlight (jobId : String) : Code (Option DispatchRecord) :=
  .call (Call.releaseInFlight jobId)

def lastDispatch (jobId : String) : Code (Option DispatchRecord) :=
  .call (Call.lastDispatch jobId)

def trackInFlight (jobId taskName queue : String) (attempt : Int) (epoch : Option Int) :
    Code Unit :=
  .call (Call.trackInFlight jobId taskName queue attempt epoch)

def untrackInFlight (jobId : String) : Code Unit :=
  .call (Call.untrackInFlight jobId)

def retryBudgetAllows (taskName : String) : Code Bool :=
  .call (Call.retryBudgetAllows taskName)

def nextRetryAt (taskName : String) (retryCount : Int) : Code Int :=
  .call (Call.nextRetryAt taskName retryCount)

section

variable (jobId : String)

def authorizeAttempt (record : DispatchRecord) : Code (Result AttemptFence) :=
  .call (Call.authorizeAttempt jobId record)

def getJob : Code (Option Job) :=
  .call (Call.getJob jobId)

def complete (result : Option Bytes) : Code (Result Unit) :=
  .call (Call.complete jobId result)

def completeExecution : Code Unit :=
  .call (Call.completeExecution jobId)

def markCancelled : Code (Result Unit) :=
  .call (Call.markCancelled jobId)

def retry (nextAt : Int) : Code (Result Unit) :=
  .call (Call.retry jobId nextAt)

def reschedule (nextAt : Int) : Code (Result Unit) :=
  .call (Call.reschedule jobId nextAt)

end

def deadLetter (job : Job) (error : String) (metadata : Option String) (shed : Bool) :
    Code (Result Unit) :=
  .call (Call.deadLetter job error metadata shed)

def cascadeCancel (jobId reason : String) (scope : Scope) : Code (Result (List Job)) :=
  .call (Call.cascadeCancel jobId reason scope)

def expirePendingJobs (now : Int) : Code (Result (List Job)) :=
  .call (Call.expirePendingJobs now)

def purgeExecutionClaims (olderThanMs : Int) : Code Unit :=
  .call (Call.purgeExecutionClaims olderThanMs)

def claimSettle (jobId : String) (claimant : SettleClaimant) : Code Bool :=
  .call (Call.claimSettle jobId claimant)

def dequeue (queue : String) (now : Int) (order : DispatchOrder) : Code (Result Dequeued) :=
  .call (Call.dequeue queue now order)

def claimExecution (jobId : String) : Code (Option Int) :=
  .call (Call.claimExecution jobId)

end Code

namespace Node

def commit {α : Type} (n : Node) : Result (α × Store) → Result α × Node
  | .ok (a, s) => (.ok a, { n with store := s })
  | .error e => (.error e, n)

/-- The same for a transaction that answers nothing. -/
def commit_ (n : Node) : Result Store → Result Unit × Node
  | .ok s => (.ok (), { n with store := s })
  | .error e => (.error e, n)

end Node

def Config.record (cfg : Config) (taskName queue : String) (attempt : Int)
    (epoch : Option Int) : DispatchRecord :=
  ⟨taskName, queue, cfg.claimOwner, attempt, epoch⟩

def perform (cfg : Config) (env : Env) : (c : Call) → Node → Resp c × Node
  | .nowMillis, n => (env.now, n)
  | .releaseInFlight jobId, n =>
    let (record, inFlight) := n.inFlight.remove jobId
    (record, { n with inFlight := inFlight })
  | .lastDispatch jobId, n => (n.inFlight.lastDispatch jobId, n)
  | .trackInFlight jobId taskName queue attempt epoch, n =>
    ((), { n with
      inFlight := n.inFlight.insert jobId (cfg.record taskName queue attempt epoch) })
  | .untrackInFlight jobId, n => ((), { n with inFlight := n.inFlight.forget jobId })
  | .retryBudgetAllows _, n => (env.budget, n)
  | .nextRetryAt .., n => (env.nextRetryAt, n)
  | .authorizeAttempt jobId record, n =>
    (Sql.authorizeAttempt n.store jobId record.owner record.attempt record.epoch cfg.namespace, n)
  | .getJob jobId, n => (Sql.getJob n.store jobId cfg.namespace, n)
  | .complete jobId result, n =>
    n.commit_ (Sql.complete n.store jobId result cfg.namespace env.now)
  | .completeExecution jobId, n =>
    ((), { n with store := Sql.completeExecution n.store jobId cfg.namespace })
  | .markCancelled jobId, n => n.commit_ (Sql.markCancelled n.store jobId cfg.namespace env.now)
  | .retry jobId nextAt, n => n.commit_ (Sql.retry n.store jobId nextAt cfg.namespace)
  | .reschedule jobId nextAt, n => n.commit_ (Sql.reschedule n.store jobId nextAt cfg.namespace)
  | .deadLetter job error metadata shed, n =>
    n.commit_ (deadLetterIn cfg.serde n.store job error metadata shed env.deadId env.now)
  | .cascadeCancel jobId reason scope, n =>
    n.commit (Sql.cascadeCancel n.store jobId reason scope env.now)
  | .expirePendingJobs now, n => n.commit (Sql.expirePendingJobs n.store now)
  | .purgeExecutionClaims olderThanMs, n =>
    ((), { n with store := Sql.purgeExecutionClaims n.store olderThanMs env.now })
  | .reapStaleJobs now, n => (Sql.reapStaleJobs n.store now cfg.namespace, n)
  | .claimSettle jobId claimant, n =>
    let (granted, s) := Sql.claimSettle n.store jobId claimant cfg.namespace
    (granted, { n with store := s })
  | .listLiveWorkerIds, n => (env.liveWorkers, n)
  | .reapOrphanedJobs live, n => (Sql.reapOrphanedJobs n.store live cfg.namespace, n)
  | .reclaimExecution jobId deadOwner, n =>
    let (epoch, s) :=
      Sql.reclaimExecution n.store jobId deadOwner cfg.claimOwner env.now env.epoch
    (epoch, { n with store := s })
  | .dequeue queue now order, n =>
    n.commit (dequeueOrdered n.store queue now cfg.namespace order)
  | .claimExecution jobId, n =>
    let (epoch, s) := Sql.claimExecution n.store jobId cfg.claimOwner env.now env.epoch
    (epoch, { n with store := s })

end FlexiQ.Scheduler
