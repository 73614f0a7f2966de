/-
# `Dispatch.Poller` — one dispatch round, single or batch

`scheduler/poller.rs`, every call and every early return: dequeue, CoDel,
the soft gates, the claim, the caps with their per-round cache, the hand-off,
and the ways back.  A `?` of the source is `okThen`; an error that is only
logged is a result that is dropped.

The counts travel beside the result, since what a call did to them stays
done when it returns an error.
-/
import FlexiQ.Dispatch.Calls

namespace FlexiQ.Dispatch

open FlexiQ.Lib FlexiQ.Sql FlexiQ.Resilience FlexiQ.Quota

/-- `?`: go on with the value, or return the error. -/
def Code.okThen {α β : Type} (p : Code (Result α)) (f : α → Code (Result β)) : Code (Result β) := do
  match ← p with
  | .ok a => f a
  | .error e => return .error e

/-! ## Counts -/

/-- `GateCounts`: the running counts a round has read, and adjusted since. -/
structure GateCounts where
  taskRunning : String → Option Int
  queueRunning : String → Option Int
  namespaceRunning : Option String → Option Int

namespace GateCounts

def default : GateCounts := ⟨fun _ => none, fun _ => none, fun _ => none⟩

def release (counts : GateCounts) (job : Job) : GateCounts where
  taskRunning t := (counts.taskRunning t).map fun n => if t = job.taskName then n - 1 else n
  queueRunning q := (counts.queueRunning q).map fun n => if q = job.queue then n - 1 else n
  namespaceRunning ns :=
    (counts.namespaceRunning ns).map fun n => if ns = job.namespace then n - 1 else n

end GateCounts

/-- A result, and the counts it leaves. -/
abbrev Counted (α : Type) := Result α × GateCounts

/-- A count: as the round has it, or loaded and kept. -/
def cached (known : Option Int) (load : Code (Result Int)) (keep : Int → GateCounts)
    (counts : GateCounts) : Code (Counted Int) := do
  match known with
  | some n => return (.ok n, counts)
  | none =>
    match ← load with
    | .error e => return (.error e, counts)
    | .ok n => return (.ok n, keep n)

def cachedTaskRunning (counts : GateCounts) (taskName : String) : Code (Counted Int) :=
  cached (counts.taskRunning taskName) (Code.countRunningByTask taskName)
    (fun n => { counts with taskRunning := Function.update counts.taskRunning taskName (some n) })
    counts

def cachedNamespaceRunning (counts : GateCounts) (ns : Scope) : Code (Counted Int) :=
  cached (counts.namespaceRunning ns) (Code.countByNamespace ns)
    (fun n => { counts with
      namespaceRunning := Function.update counts.namespaceRunning ns (some n) })
    counts

def cachedQueueRunning (counts : GateCounts) (queue : String) : Code (Counted Int) :=
  cached (counts.queueRunning queue) (Code.runningByQueue queue)
    (fun n => { counts with queueRunning := Function.update counts.queueRunning queue (some n) })
    counts

/-! ## The soft gates -/

inductive GateDecision
  | proceed
  | defer (delayMs : Nat)
  | shed (reason : String)
  deriving DecidableEq, Repr

def circuitBreakerRetryDelayMs : Nat := 5000

def rateLimitRetryDelayMs : Nat := 1000

def concurrencyRetryDelayMs : Nat := 500

def channelBackpressureRetryDelayMs : Nat := 100

def claimErrorRetryDelayMs : Nat := 250

def rateLimitShedReason (scope : String) : String :=
  "rate_limit: " ++ scope ++ " is over its dispatch rate limit, and its on_excess is drop"

def rateLimitShedMetadata : String := "\x7b\"shed\":\"rate_limit\"\x7d"

def codelShedMetadata : String := "\x7b\"codel\":true\x7d"

def rateLimited (onExcess : OnExcess) (scope : String) : GateDecision :=
  match onExcess with
  | .defer => .defer rateLimitRetryDelayMs
  | .drop => .shed (rateLimitShedReason scope)

/-- The gate of a rate limit, where there is one. -/
def limitGate (limit : Option RateLimitConfig) (key : String) (refused : GateDecision) :
    Code (Result GateDecision) :=
  match limit with
  | none => pure (.ok .proceed)
  | some config => (Code.tryAcquireToken key config).okThen fun acquired =>
    pure (.ok (if acquired then .proceed else refused))

def allow (taskName : String) : Code (Result Bool) :=
  (Code.getCircuitBreaker taskName).okThen fun found =>
    match found with
    | none => pure (.ok true)
    | some row => do
      let now ← Code.nowMillis
      let (allowed, updated) := row.allow now
      match updated with
      | none => return .ok allowed
      | some row => (Code.upsertCircuitBreaker row).okThen fun _ => pure (.ok allowed)

/-- The gate of a breaker, where there is one: always a deferral. -/
def breakerGate (configured : Bool) (taskName : String) : Code (Result GateDecision) :=
  if configured then
    (allow taskName).okThen fun allowed =>
      pure (.ok (if allowed then .proceed else .defer circuitBreakerRetryDelayMs))
  else pure (.ok .proceed)

/-- One gate after another: the next is asked only if this one has nothing
against the job. -/
def thenGate (gate next : Code (Result GateDecision)) : Code (Result GateDecision) :=
  gate.okThen fun decision =>
    match decision with
    | .proceed => next
    | refused => pure (.ok refused)

variable (cfg : Settings)

def checkPreClaimGates (job : Job) : Code (Result GateDecision) :=
  let taskConfig := cfg.taskConfigs job.taskName
  let onExcess := taskConfig.elim .defer TaskConfig.onExcess
  thenGate
    (limitGate ((cfg.queueConfigs job.queue).bind QueueConfig.rateLimit) ("queue:" ++ job.queue)
      (rateLimited onExcess ("queue '" ++ job.queue ++ "'")))
    (thenGate
      (breakerGate (taskConfig.any TaskConfig.circuitBreaker) job.taskName)
      (limitGate (taskConfig.bind TaskConfig.rateLimit) job.taskName
        (rateLimited onExcess ("task '" ++ job.taskName ++ "'"))))

/-! ## The caps -/

/-- One cap, where there is one: whether the count is within it. -/
def capGate (cap : Option Int) (count : Code (Counted Int)) (counts : GateCounts) :
    Code (Counted Bool) := do
  match cap with
  | none => return (.ok true, counts)
  | some max =>
    let (n, counts) ← count
    return (n.map (· ≤ max), counts)

/-- One cap after another: the next is asked only if the job is within this
one. -/
def thenCap (gate : Code (Counted Bool)) (next : GateCounts → Code (Counted Bool)) :
    Code (Counted Bool) := do
  match ← gate with
  | (.ok true, counts) => next counts
  | refused => return refused

section

variable (job : Job) (counts : GateCounts)

def namespaceCap : Code (Counted Bool) := do
  match ← Code.quota job.namespace with
  | .error e => return (.error e, counts)
  | .ok quota =>
    capGate (quota.bind NamespaceQuota.maxRunning) (cachedNamespaceRunning counts job.namespace)
      counts

def queueCap : Code (Counted Bool) :=
  capGate ((cfg.queueConfigs job.queue).bind QueueConfig.maxConcurrent)
    (cachedQueueRunning counts job.queue) counts

def taskCap : Code (Counted Bool) :=
  capGate ((cfg.taskConfigs job.taskName).bind TaskConfig.maxConcurrent)
    (cachedTaskRunning counts job.taskName) counts

/-- `max_in_flight_per_task`, of this scheduler alone. -/
def bulkhead : Code (Counted Bool) := do
  match (cfg.taskConfigs job.taskName).bind TaskConfig.maxInFlightPerTask with
  | none => return (.ok true, counts)
  | some max =>
    let n ← Code.taskInFlight job.taskName
    return (.ok (n < max), counts)

def checkPostClaimConcurrency : Code (Counted Bool) :=
  thenCap (namespaceCap job counts) fun counts =>
    thenCap (queueCap cfg job counts) fun counts =>
      thenCap (taskCap cfg job counts) fun counts => bulkhead cfg job counts

end

/-! ## The ways back -/

def rescheduleDeferred (jobId : String) (nextAt : Int) : Code (Result Unit) :=
  Code.reschedule jobId nextAt

def rollbackClaimAndReschedule (jobId : String) (nextAt : Int) : Code (Result Unit) :=
  (Code.completeExecution jobId).okThen fun _ => rescheduleDeferred jobId nextAt

def putBack (job : Job) (now : Int) (delayMs : Nat) (counts : GateCounts)
    (done : Result Bool) : Code (Counted Bool) := do
  let counts := counts.release job
  let delay ← Code.desyncDelay delayMs
  match ← rollbackClaimAndReschedule job.id (now + delay) with
  | .error e => return (.error e, counts)
  | .ok () => return (done, counts)

def shedToDlq (job : Job) (reason metadata : String) : Code (Result Unit) :=
  (Code.deadLetter job reason (some metadata)).okThen fun _ =>
    (Code.cascadeCancel job.id dependencyFailed job.namespace).okThen fun _ => pure (.ok ())

def shedRateLimited (job : Job) (reason : String) (claimed : Bool) : Code (Result Unit) := do
  if claimed then
    -- A claim that stays is only logged.
    let _ ← Code.completeExecution job.id
    shedToDlq job reason rateLimitShedMetadata
  else shedToDlq job reason rateLimitShedMetadata

/-! ## One job -/

/-- `finish_dispatch`: the record is filed BEFORE the job is sent. -/
def finishDispatch (job : Job) (now : Int) (epoch : Option Int) (counts : GateCounts) :
    Code (Counted Bool) := do
  match ← checkPostClaimConcurrency cfg job counts with
  | (.error e, counts) => putBack job now concurrencyRetryDelayMs counts (.error e)
  | (.ok false, counts) => putBack job now concurrencyRetryDelayMs counts (.ok false)
  | (.ok true, counts) =>
    Code.trackInFlight job.id job.taskName job.queue job.retryCount epoch
    match ← Code.trySend job with
    | .sent => return (.ok true, counts)
    | .full | .closed =>
      Code.untrackInFlight job.id
      putBack job now channelBackpressureRetryDelayMs counts (.ok false)

/-- `dispatch_claimed`: every rejection clears the claim. -/
def dispatchClaimed (job : Job) (now : Int) (epoch : Option Int) (counts : GateCounts) :
    Code (Counted Bool) := do
  match ← checkPreClaimGates cfg job with
  | .error e => return (.error e, counts)
  | .ok .proceed => finishDispatch cfg job now epoch counts
  | .ok (.defer delayMs) => putBack job now delayMs counts (.ok false)
  | .ok (.shed reason) =>
    let counts := counts.release job
    match ← shedRateLimited job reason true with
    | .error e => return (.error e, counts)
    | .ok () => return (.ok true, counts)

/-- `gate_and_dispatch`: there is no claim before the gates. -/
def gateAndDispatch (job : Job) (now : Int) (counts : GateCounts) : Code (Counted Bool) := do
  match ← checkPreClaimGates cfg job with
  | .error e => return (.error e, counts)
  | .ok (.defer delayMs) =>
    let delay ← Code.desyncDelay delayMs
    match ← rescheduleDeferred job.id (now + delay) with
    | .error e => return (.error e, counts)
    | .ok () => return (.ok false, counts.release job)
  | .ok (.shed reason) =>
    match ← shedRateLimited job reason false with
    | .error e => return (.error e, counts)
    | .ok () => return (.ok true, counts.release job)
  | .ok .proceed =>
    match ← Code.claimExecution job.id with
    | .error _ => putBack job now claimErrorRetryDelayMs counts (.ok false)
    | .ok none => return (.ok false, counts)
    | .ok (some epoch) => finishDispatch cfg job now (some epoch) counts

/-! ## The round -/

def codelShedReason (sojourn targetMs : Int) : String :=
  "codel: sojourn " ++ toString sojourn ++ "ms exceeded target " ++ toString targetMs ++
    "ms under sustained overload"

/-- `codel_admit`: an error ends the whole round. -/
def codelAdmit (now : Int) : List Job → Code (Result (List Job))
  | [] => pure (.ok [])
  | job :: jobs => do
    match cfg.codelTargetMs job.queue with
    | none => (codelAdmit now jobs).okThen fun kept => pure (.ok (job :: kept))
    | some targetMs =>
      let sojourn := max (saturatingSub now job.scheduledAt) 0
      if ← Code.shouldDrop job.queue sojourn now then
        (shedToDlq job (codelShedReason sojourn targetMs) codelShedMetadata).okThen fun _ =>
          codelAdmit now jobs
      else (codelAdmit now jobs).okThen fun kept => pure (.ok (job :: kept))

/-- `dequeue_from_reporting`: each queue in order, until one has a job. -/
def dequeueFrom (now : Int) : List String → Code (Result (Option Job))
  | [] => pure (.ok none)
  | queue :: queues =>
    (Code.dequeue queue now (cfg.dispatchOrders queue)).okThen fun dequeued =>
      match dequeued.claimed.head? with
      | some job => pure (.ok (some job))
      | none => dequeueFrom now queues

/-- `dequeue_batch_from_reporting`: each queue in order, until the budget is
spent. -/
def dequeueBatchFrom (now : Int) (max : Nat) : List Job → List String → Code (Result (List Job))
  | out, [] => pure (.ok out)
  | out, queue :: queues =>
    if max ≤ out.length then pure (.ok out)
    else
      (Code.dequeueBatch queue now (max - out.length) (cfg.dispatchOrders queue)).okThen
        fun dequeued => dequeueBatchFrom now max (out ++ dequeued.claimed) queues

def tryDispatch : Code (Result Bool) := do
  let now ← Code.nowMillis
  let queues ← Code.activeQueues
  if queues.isEmpty then return .ok false
  let remaining ← Code.inFlightRemaining
  if remaining = some 0 then return .ok false
  let capacity ← Code.channelCapacity
  if capacity = 0 then return .ok false
  (dequeueFrom cfg now queues).okThen fun dequeued =>
    match dequeued with
    | none => pure (.ok false)
    | some job => (codelAdmit cfg now [job]).okThen fun kept =>
      match kept.getLast? with
      | none => pure (.ok false)
      | some job => do
        let (done, _) ← gateAndDispatch cfg job now .default
        return done

/-- The batch path without its claims: each job on its own, an error of one
not touching the others. -/
def dispatchUnclaimed (now : Int) : GateCounts → List Job → Code Bool
  | _, [] => pure false
  | counts, job :: jobs => do
    let (done, counts) ← gateAndDispatch cfg job now counts
    let rest ← dispatchUnclaimed now counts jobs
    return done.toOption.getD false || rest

/-- The batch path past its claims: a job whose claim was lost is left to
the owner. -/
def dispatchEach (now : Int) : GateCounts → List (Job × Option Int) → Code Bool
  | _, [] => pure false
  | counts, (_, none) :: jobs => dispatchEach now counts jobs
  | counts, (job, some epoch) :: jobs => do
    let (done, counts) ← dispatchClaimed cfg job now (some epoch) counts
    let rest ← dispatchEach now counts jobs
    return done.toOption.getD false || rest

/-- `try_dispatch_batch`, past its dequeue. -/
def dispatchBatch (now : Int) (jobs : List Job) : Code (Result Bool) :=
  if jobs.isEmpty then pure (.ok false)
  else (codelAdmit cfg now jobs).okThen fun jobs =>
    if jobs.isEmpty then pure (.ok false)
    else do
      match ← Code.claimExecutionBatch (jobs.map Job.id) with
      | .error _ => return .ok (← dispatchUnclaimed cfg now .default jobs)
      | .ok claimed => return .ok (← dispatchEach cfg now .default (jobs.zip claimed))

def tryDispatchBatch : Code (Result Bool) := do
  let now ← Code.nowMillis
  let queues ← Code.activeQueues
  if queues.isEmpty then return .ok false
  let capacity ← Code.channelCapacity
  if capacity = 0 then return .ok false
  let remaining ← Code.inFlightRemaining
  if remaining = some 0 then return .ok false
  let budget := remaining.elim (min (max cfg.batchSize 1) capacity)
    (min (min (max cfg.batchSize 1) capacity))
  (dequeueBatchFrom cfg now budget [] queues).okThen fun jobs => dispatchBatch cfg now jobs

end FlexiQ.Dispatch
