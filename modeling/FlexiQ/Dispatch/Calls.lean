/-
# `Dispatch.Calls` — what one dispatch round asks for, and what it is told

A round of `scheduler/poller.rs` is a program over the calls of this module:
the storage calls, each one transaction, each of which may FAIL, and the
calls on the scheduler's own state, which may not.  `World` is what they act
on.  A storage call that fails leaves it as it was.

What comes from outside — the clock, jitter, a minted epoch or id, the
paused queues, CoDel's verdict, the worker channel, and which storage call
fails — is in `Outside`, one value for each call.
-/
import FlexiQ.Resilience.Breaker
import FlexiQ.Scheduler.Calls

namespace FlexiQ

open FlexiQ.Lib

/-! ## The storage calls only a dispatch makes -/

namespace Sql

/-- `claim_execution_batch`: one epoch for each claim, all claims in one
transaction. -/
def claimExecutionBatch (workerId : String) (now : Int) (mint : Nat → Int) :
    Store → List String → List (Option Int) × Store
  | s, [] => ([], s)
  | s, jobId :: rest =>
    let (won, s) := claimExecution s jobId workerId now (mint rest.length)
    let (others, s) := claimExecutionBatch workerId now mint s rest
    (won :: others, s)

def countJobs (s : Store) (p : Job → Bool) : Int := (s.jobs.rows.filter p).length

def countRunningByTask (s : Store) (taskName : String) (scope : Scope) : Int :=
  countJobs s fun row =>
    row.taskName = taskName && row.status = .running && visibleIn scope row.namespace

/-- `stats_by_queue`, the field `running`: the archive holds no running
row. -/
def runningByQueue (s : Store) (queue : String) (scope : Scope) : Int :=
  countJobs s fun row =>
    row.queue = queue && row.status = .running && visibleIn scope row.namespace

/-- `count_by_namespace`: `none` is the default namespace, not every one. -/
def countByNamespace (s : Store) (ns : Scope) (status : JobStatus) : Int :=
  countJobs s fun row => row.status = status && row.namespace = ns

end Sql

/-! ## Configuration -/

namespace Quota

inductive QuotaOverflow
  | reject
  | drop
  deriving DecidableEq, Repr

/-- `NamespaceQuota`, decoded and validated, with its rate parsed. -/
structure NamespaceQuota where
  maxPending : Option Int
  onExcess : QuotaOverflow
  enqueueRate : Option Resilience.RateLimitConfig
  maxRunning : Option Int

end Quota

namespace Dispatch

open FlexiQ.Sql FlexiQ.Resilience FlexiQ.Quota
open FlexiQ.Scheduler (InFlight DispatchRecord)

inductive OnExcess
  | defer
  | drop
  deriving DecidableEq, Repr

structure QueueConfig where
  rateLimit : Option RateLimitConfig
  maxConcurrent : Option Int

/-- `TaskConfig`, what dispatch reads of it. -/
structure TaskConfig where
  rateLimit : Option RateLimitConfig
  onExcess : OnExcess
  circuitBreaker : Bool
  maxConcurrent : Option Int
  maxInFlightPerTask : Option Nat

/-- What is fixed for a scheduler: its configuration, and the quota document
of each namespace, if it can be read. -/
structure Settings extends Scheduler.Config where
  backend : Backend
  batchSize : Nat
  maxInFlight : Option Nat
  queueConfigs : String → Option QueueConfig
  taskConfigs : String → Option TaskConfig
  codelTargetMs : String → Option Int
  dispatchOrders : String → DispatchOrder
  quotas : Option String → Result (Option NamespaceQuota)

/-! ## Calls -/

inductive SendOutcome
  | sent
  | full
  | closed
  deriving DecidableEq, Repr

inductive Query
  | dequeue (queue : String) (now : Int) (order : DispatchOrder)
  | dequeueBatch (queue : String) (now : Int) (max : Nat) (order : DispatchOrder)
  | deadLetter (job : Job) (error : String) (metadata : Option String)
  | cascadeCancel (jobId reason : String) (scope : Scope)
  | tryAcquireToken (key : String) (config : RateLimitConfig)
  | getCircuitBreaker (taskName : String)
  | upsertCircuitBreaker (row : CircuitBreakerState)
  | claimExecution (jobId : String)
  | claimExecutionBatch (jobIds : List String)
  | completeExecution (jobId : String)
  | reschedule (jobId : String) (nextAt : Int)
  | quota («namespace» : Scope)
  | countRunningByTask (taskName : String)
  | runningByQueue (queue : String)
  | countByNamespace («namespace» : Scope)

/-- What a storage call answers if it does not fail. -/
def Query.Answer : Query → Type
  | .dequeue .. | .dequeueBatch .. => Dequeued
  | .deadLetter .. => Unit
  | .cascadeCancel .. => List Job
  | .tryAcquireToken .. => Bool
  | .getCircuitBreaker _ => Option CircuitBreakerState
  | .upsertCircuitBreaker _ => Unit
  | .claimExecution _ => Option Int
  | .claimExecutionBatch _ => List (Option Int)
  | .completeExecution _ => Unit
  | .reschedule .. => Unit
  | .quota _ => Option NamespaceQuota
  | .countRunningByTask _ | .runningByQueue _ | .countByNamespace _ => Int

inductive Call
  | query (q : Query)
  | nowMillis
  | desyncDelay (baseMs : Nat)
  | activeQueues
  | inFlightRemaining
  | channelCapacity
  | shouldDrop (queue : String) (sojourn now : Int)
  | taskInFlight (taskName : String)
  | trackInFlight (jobId taskName queue : String) (attempt : Int) (epoch : Option Int)
  | untrackInFlight (jobId : String)
  | trySend (job : Job)

def Resp : Call → Type
  | .query q => Result q.Answer
  | .nowMillis => Int
  | .desyncDelay _ => Int
  | .activeQueues => List String
  | .inFlightRemaining => Option Nat
  | .channelCapacity => Nat
  | .shouldDrop .. => Bool
  | .taskInFlight _ => Nat
  | .trackInFlight .. => Unit
  | .untrackInFlight _ => Unit
  | .trySend _ => SendOutcome

abbrev Code (α : Type) := Prog Call Resp α

/-! One call as a program, under its own name and with its answer spelled out. -/

namespace Code

def ask (q : Query) : Code (Result q.Answer) := .call (Call.query q)

def dequeue (queue : String) (now : Int) (order : DispatchOrder) : Code (Result Dequeued) :=
  ask (.dequeue queue now order)

def dequeueBatch (queue : String) (now : Int) (max : Nat) (order : DispatchOrder) :
    Code (Result Dequeued) :=
  ask (.dequeueBatch queue now max order)

def deadLetter (job : Job) (error : String) (metadata : Option String) : Code (Result Unit) :=
  ask (.deadLetter job error metadata)

def cascadeCancel (jobId reason : String) (scope : Scope) : Code (Result (List Job)) :=
  ask (.cascadeCancel jobId reason scope)

def tryAcquireToken (key : String) (config : RateLimitConfig) : Code (Result Bool) :=
  ask (.tryAcquireToken key config)

def getCircuitBreaker (taskName : String) : Code (Result (Option CircuitBreakerState)) :=
  ask (.getCircuitBreaker taskName)

def upsertCircuitBreaker (row : CircuitBreakerState) : Code (Result Unit) :=
  ask (.upsertCircuitBreaker row)

def claimExecution (jobId : String) : Code (Result (Option Int)) :=
  ask (.claimExecution jobId)

def claimExecutionBatch (jobIds : List String) : Code (Result (List (Option Int))) :=
  ask (.claimExecutionBatch jobIds)

def completeExecution (jobId : String) : Code (Result Unit) :=
  ask (.completeExecution jobId)

def reschedule (jobId : String) (nextAt : Int) : Code (Result Unit) :=
  ask (.reschedule jobId nextAt)

def quota (ns : Scope) : Code (Result (Option NamespaceQuota)) :=
  ask (.quota ns)

def countRunningByTask (taskName : String) : Code (Result Int) :=
  ask (.countRunningByTask taskName)

def runningByQueue (queue : String) : Code (Result Int) :=
  ask (.runningByQueue queue)

def countByNamespace (ns : Scope) : Code (Result Int) :=
  ask (.countByNamespace ns)

def nowMillis : Code Int := .call Call.nowMillis

def desyncDelay (baseMs : Nat) : Code Int := .call (Call.desyncDelay baseMs)

def activeQueues : Code (List String) := .call Call.activeQueues

def inFlightRemaining : Code (Option Nat) := .call Call.inFlightRemaining

def channelCapacity : Code Nat := .call Call.channelCapacity

def shouldDrop (queue : String) (sojourn now : Int) : Code Bool :=
  .call (Call.shouldDrop queue sojourn now)

def taskInFlight (taskName : String) : Code Nat := .call (Call.taskInFlight taskName)

def trackInFlight (jobId taskName queue : String) (attempt : Int) (epoch : Option Int) :
    Code Unit :=
  .call (Call.trackInFlight jobId taskName queue attempt epoch)

def untrackInFlight (jobId : String) : Code Unit := .call (Call.untrackInFlight jobId)

def trySend (job : Job) : Code SendOutcome := .call (Call.trySend job)

end Code

/-! ## What the calls do -/

/-- The database, the scheduler's own bookkeeping, and two records of the
round: the jobs it dequeued and the jobs it handed to workers. -/
structure World where
  store : Store
  buckets : Buckets
  breakers : Breakers
  inFlight : InFlight
  picked : List Job
  sent : List Job

/-- What comes from outside to one call.  `fault` is the error a storage
call fails with; `mint k` is the epoch minted `k` claims before the last. -/
structure Outside where
  fault : Option QueueError
  now : Int
  jitter : Nat
  activeQueues : List String
  capacity : Nat
  codelDrop : Bool
  mint : Nat → Int
  deadId : String
  send : SendOutcome

namespace World

def commit {α : Type} (w : World) : Result (α × Store) → Result α × World
  | .ok (a, s) => (.ok a, { w with store := s })
  | .error e => (.error e, w)

def pick (w : World) : Result (Dequeued × Store) → Result Dequeued × World
  | .ok (dequeued, s) =>
    (.ok dequeued, { w with store := s, picked := w.picked ++ dequeued.claimed })
  | .error e => (.error e, w)

end World

variable (cfg : Settings) (out : Outside)

/-- A storage call that goes through. -/
def answer (q : Query) (w : World) : Result q.Answer × World :=
  match q with
  | .dequeue queue now order =>
    w.pick (dequeueOrdered w.store queue now cfg.namespace order)
  | .dequeueBatch queue now max order =>
    w.pick (dequeueBatchOrdered w.store queue now cfg.namespace max order)
  | .deadLetter job error metadata =>
    w.commit ((deadLetterIn cfg.serde w.store job error metadata true out.deadId out.now).map
      fun s => ((), s))
  | .cascadeCancel jobId reason scope =>
    w.commit (Sql.cascadeCancel w.store jobId reason scope out.now)
  | .tryAcquireToken key config =>
    let (acquired, buckets) := cfg.backend.tryAcquireTokens w.buckets key 1 config.maxTokens
      config.refillRate out.now
    (.ok acquired, { w with buckets := buckets })
  | .getCircuitBreaker taskName => (.ok (w.breakers.find taskName), w)
  | .upsertCircuitBreaker row =>
    (.ok (), { w with breakers := cfg.backend.upsertCircuitBreaker w.breakers row })
  | .claimExecution jobId =>
    w.commit (.ok (Sql.claimExecution w.store jobId cfg.claimOwner out.now (out.mint 0)))
  | .claimExecutionBatch jobIds =>
    w.commit (.ok (Sql.claimExecutionBatch cfg.claimOwner out.now out.mint w.store jobIds))
  | .completeExecution jobId =>
    w.commit (.ok ((), Sql.completeExecution w.store jobId cfg.namespace))
  | .reschedule jobId nextAt =>
    w.commit ((Sql.reschedule w.store jobId nextAt cfg.namespace).map fun s => ((), s))
  | .quota ns => (cfg.quotas ns, w)
  | .countRunningByTask taskName => (.ok (Sql.countRunningByTask w.store taskName cfg.namespace), w)
  | .runningByQueue queue => (.ok (Sql.runningByQueue w.store queue cfg.namespace), w)
  | .countByNamespace ns => (.ok (Sql.countByNamespace w.store ns .running), w)

def perform : (c : Call) → World → Resp c × World
  | .query q, w =>
    match out.fault with
    | some e => (.error e, w)
    | none => answer cfg out q w
  | .nowMillis, w => (out.now, w)
  | .desyncDelay baseMs, w => (((baseMs + out.jitter % (baseMs / 2 + 1) : Nat) : Int), w)
  | .activeQueues, w => (out.activeQueues, w)
  | .inFlightRemaining, w => (cfg.maxInFlight.map (· - w.inFlight.byJob.rows.length), w)
  | .channelCapacity, w => (out.capacity, w)
  | .shouldDrop .., w => (out.codelDrop, w)
  | .taskInFlight taskName, w => (w.inFlight.countFor taskName, w)
  | .trackInFlight jobId taskName queue attempt epoch, w =>
    ((), { w with
      inFlight := w.inFlight.insert jobId (cfg.record taskName queue attempt epoch) })
  | .untrackInFlight jobId, w => ((), { w with inFlight := w.inFlight.forget jobId })
  | .trySend job, w =>
    match out.send with
    | .sent => (.sent, { w with sent := w.sent ++ [job] })
    | outcome => (outcome, w)

end Dispatch

end FlexiQ
