/-
# `Redis.Calls` — the storage calls as programs of requests

What a client of the Redis backend does between two requests is ordinary
Rust, and another client's requests may fall in between.  A call is therefore
a program over `Req`, written as the source writes it; `machine` runs any
number of them against one server, in any order.

Minted ids are fresh, which is what the source takes of `Uuid::now_v7`.
-/
import FlexiQ.Lib.Pool
import FlexiQ.Redis.Requests

namespace FlexiQ.Redis

open FlexiQ.Lib FlexiQ.Step FlexiQ.Sql

abbrev Code (α : Type) := Prog Req Resp α

inductive Reply
  | done
  | flag (b : Bool)
  | inserted (job : Job) (existed : Bool)
  | dequeued (claimed expired : List Job)
  | cancelled (cancelled : Bool) (cascaded : List Job)
  | committed (commit : StepCommit)
  | slept (outcome : SleepOutcome)
  | epoch (epoch : Option Int)
  | deadline (deadline : Option Int)
  | count (n : Nat)
  | error (e : QueueError)
  deriving DecidableEq, Repr

namespace Code

def scanBatch : Nat := 500

/-! ## One request as a program -/

def live (id : String) : Code (Option Job) := .call (Req.live id)
def archivedDoc (id : String) : Code (Option Job) := .call (Req.archivedDoc id)
def members (key : SetKey) : Code (List String) := .call (Req.members key)
def below (key : ZKey) (cutoff : Int) (inclusive : Bool) : Code (List String) :=
  .call (Req.below key cutoff inclusive)
def first (key : ZKey) (count : Option Nat) : Code (List String) := .call (Req.first key count)
def card (key : ZKey) : Code Nat := .call (Req.card key)
def stepRow (jobId : String) (seq : Int) : Code (Option StepField) := .call (Req.stepRow jobId seq)
def deadlines (ids : List String) : Code (Option (List (Option Int))) := .call (Req.deadlines ids)
def deadDocs (ids : List String) : Code (List (Option DeadJobEntry)) := .call (Req.deadDocs ids)
def cmd (c : Cmd) : Code Unit := .call (Req.cmd c)
def releaseUnique (job : Job) : Code Unit := .call (Req.releaseUnique job)
def archive (read : Job) (ending : Ending) (now : Int) (listed : Option Listing) : Code Unit :=
  .call (Req.archive read ending now listed)
def uniqueCheck (ns : Scope) (key : String) : Code (Option Job) :=
  .call (Req.uniqueCheck ns key)
def uniqueStore (job : Job) (dependsOn : List String) (key : String) : Code (Option Job) :=
  .call (Req.uniqueStore job dependsOn key)
def debounceResolve (ns : Scope) (key : String) : Code (Option Job) :=
  .call (Req.debounceResolve ns key)
def debounceInsert (key : String) (job : Job) (dependsOn : List String)
    (maxPending : Option Int) : Code DebounceReply :=
  .call (Req.debounceInsert key job dependsOn maxPending)
def debounceSlide (target slid : Job) : Code Bool := .call (Req.debounceSlide target slid)
def selectAndClaim (queue : String) (now : Int) (ns : Scope) (max : Nat) : Code Selected :=
  .call (Req.selectAndClaim queue now ns max)
def claimPending (queue : String) (read : Job) (now : Int) : Code Bool :=
  .call (Req.claimPending queue read now)
def requeuePending (read : Job) (nextAt : Int) (bump : Bool) : Code Unit :=
  .call (Req.requeue read nextAt bump)
def setIfLive (read : Job) (progress : Int) : Code Bool := .call (Req.setIfLive read progress)
def requestCancelIfRunning (read : Job) : Code Bool := .call (Req.requestCancel read)
def requeueStuckIfRunning (read : Job) (now : Int) : Code Bool :=
  .call (Req.requeueStuck read now)
section

variable (step : NewJobStep) (owner : String) (attempt : Int) (epoch : Option Int)
  (limits : StepLimits) (scope : Scope)

def recordStep (now : Int) : Code StepReply :=
  .call (Req.recordStep step owner attempt epoch limits scope now)
def sleep (read : Job) (stored : Bool) (deadline now : Int) : Code StepReply :=
  .call (Req.sleep step owner attempt epoch limits scope read stored deadline now)
end

def claim (jobId worker : String) (now epoch : Int) : Code Bool :=
  .call (Req.claim jobId worker now epoch)
def reclaim (jobId expected owner : String) (now epoch : Int) : Code Bool :=
  .call (Req.reclaim jobId expected owner now epoch)
def deadLetterTx (read : Job) (entry : DeadJobEntry) (error : String) (now : Int) : Code Bool :=
  .call (Req.deadLetter read entry error now)
def shed (jobs : List (Job × DeadJobEntry × String)) (now : Int) : Code Unit :=
  .call (Req.shed jobs now)

/-- A pipeline that is not a `MULTI`: its commands are sent together and
executed one by one. -/
def pipe : List Cmd → Code Unit
  | [] => pure ()
  | c :: cmds => do
    cmd c
    pipe cmds

def getJob (id : String) (scope : Scope) : Code (Option Job) := do
  match ← live id with
  | some job => return some job |>.filter fun job => visibleIn scope job.namespace
  | none =>
    let job ← archivedDoc id
    return job.filter fun job => visibleIn scope job.namespace

def getJobRequiredIn (id : String) (scope : Scope) : Code (Result Job) := do
  let job ← live id
  return orError (.jobNotFound id) (job.filter fun job => visibleIn scope job.namespace)

/-! ## Enqueue -/

def validateDepIds (ns : Scope) (batch : List Job) : List String → Code Bool
  | [] => return true
  | depId :: depIds =>
    match batch.find? (fun job => job.id = depId) with
    | some job => if job.namespace = ns then validateDepIds ns batch depIds else return false
    | none => do
      match ← live depId with
      | some dep =>
        if dep.status = .dead || dep.status = .cancelled || dep.namespace ≠ ns then return false
        else validateDepIds ns batch depIds
      | none =>
        match ← archivedDoc depId with
        | some dep =>
          if dep.status = .complete && dep.namespace = ns then validateDepIds ns batch depIds
          else return false
        | none => return false

def enqueue (new : NewJob) (id : String) (now : Int) : Code Reply := do
  let job := new.intoJob id now
  if ← validateDepIds job.namespace [] new.dependsOn then
    pipe (insertOps job new.dependsOn)
    return .inserted job false
  else return .error dependencyRefused

def validateBatch (jobs : List Job) : List Draft → Code Bool
  | [] => return true
  | (new, _) :: news => do
    if ← validateDepIds new.namespace jobs new.dependsOn then validateBatch jobs news
    else return false

def enqueueBatch (news : List Draft) (now : Int) : Code Reply := do
  if ← validateBatch (news.map fun (new, id) => new.intoJob id now) news then
    pipe (news.flatMap fun (new, id) => insertOps (new.intoJob id now) new.dependsOn)
    return .done
  else return .error dependencyRefused

def enqueueUnique (new : NewJob) (id : String) (now : Int) : Code Reply := do
  match new.uniqueKey with
  | none => enqueue new id now
  | some key =>
    match ← uniqueCheck new.namespace key with
    | some job => return .inserted job true
    | none =>
      let job := new.intoJob id now
      if ← validateDepIds job.namespace [] new.dependsOn then
        match ← uniqueStore job new.dependsOn key with
        | some existing => return .inserted existing true
        | none => return .inserted job false
      else return .error dependencyRefused

/-- The attempts of `enqueue_debounced`. -/
def debounceRounds (new : NewJob) (options : DebounceOptions) (key : String) (job : Job) :
    Nat → Code Reply
  | 0 =>
    return .error (.other ("debounced enqueue for " ++ key ++ " lost its slide target 3 times"))
  | rounds + 1 => do
    let slide (target : Job) : Code Reply := do
      if ← debounceSlide target (target.slid job options) then
        return .inserted (target.slid job options) true
      else debounceRounds new options key job rounds
    match ← debounceResolve job.namespace key with
    | some target => slide target
    | none =>
      if ← validateDepIds job.namespace [] new.dependsOn then
        match ← debounceInsert key job new.dependsOn options.maxPending with
        | .opened => return .inserted job false
        | .full pending =>
          return .error (.queueFull job.queue pending (options.maxPending.getD 0))
        | .raced target => slide target
      else return .error dependencyRefused

def enqueueDebounced (new : NewJob) (options : DebounceOptions) (id : String) (now : Int) :
    Code Reply :=
  match validatedDebounceKey new options with
  | .error e => return .error e
  | .ok key => debounceRounds new options key (new.intoWindow options id now) 3

/-! ## Dequeue -/

def archiveExpired (now : Int) : List String → Code (List Job)
  | [] => return []
  | id :: ids => do
    match (← live id).filter (fun job => job.status = .pending) with
    | none => archiveExpired now ids
    | some job =>
      let ending := Ending.cancel (some expiredBeforeExecution)
      archive job ending now none
      return ending.of job now :: (← archiveExpired now ids)

/-- `claim_pending`, for each deferred document, while the budget lasts. -/
def claimDeferred (queue : String) (now : Int) (max : Nat) : List Job → List Job → Code (List Job)
  | claimed, [] => return claimed
  | claimed, job :: jobs => do
    if claimed.length = max then return claimed
    else if ← claimPending queue job now then
      claimDeferred queue now max (claimed ++ [job.startedBy now]) jobs
    else claimDeferred queue now max claimed jobs

def dequeueBatch (queue : String) (now : Int) (ns : Scope) (max : Nat) : Code Reply := do
  if max = 0 then return .dequeued [] []
  else
    let out ← selectAndClaim queue now ns max
    let expired ← archiveExpired now out.expired
    let claimed ← claimDeferred queue now max out.claimed out.deferred
    return .dequeued claimed expired

/-! ## Transitions -/

def complete (id : String) (result : Option Bytes) (scope : Scope) (now : Int) : Code Reply := do
  match ← getJobRequiredIn id scope with
  | .error e => return .error e
  | .ok job =>
    if job.status ≠ .running then return .error (.jobNotFound id)
    else
      archive job (.complete result) now none
      if job.uniqueKey.isSome then releaseUnique job
      return .done

def fail (id error : String) (now : Int) : Code Reply := do
  match ← getJobRequiredIn id none with
  | .error e => return .error e
  | .ok job =>
    if job.status ≠ .running then return .error (.jobNotFound id)
    else
      archive job (.fail error) now none
      return .done

/-- `retry`, and without `bump` `reschedule`. -/
def requeue (id : String) (nextAt : Int) (scope : Scope) (bump : Bool) : Code Reply := do
  match ← getJobRequiredIn id scope with
  | .error e => return .error e
  | .ok job =>
    requeuePending job nextAt bump
    return .done

def requeueStuck (id : String) (now : Int) : Code Reply := do
  match (← getJob id none).filter (fun job => job.status = .running) with
  | none => return .flag false
  | some job => return .flag (← requeueStuckIfRunning job now)

def requestCancel (id : String) (scope : Scope) : Code Reply := do
  match (← getJob id scope).filter (fun job => job.status = .running) with
  | none => return .flag false
  | some job => return .flag (← requestCancelIfRunning job)

def updateProgress (id : String) (progress : Int) (scope : Scope) : Code Reply := do
  if progress < 0 ∨ 100 < progress then
    return .error (.other "progress must be between 0 and 100")
  else
    match ← getJobRequiredIn id scope with
    | .error e => return .error e
    | .ok job =>
      if ← setIfLive job progress then return .done
      else return .error (.jobNotFound id)

def markCancelled (id : String) (scope : Scope) (now : Int) : Code Reply := do
  match ← getJobRequiredIn id none with
  | .error e => return .error e
  | .ok job =>
    if visibleIn scope job.namespace then
      archive job .cancelledByRequest now none
    return .done

/-! ## Cancelling -/

/-- The walk of `cascade_cancel_reporting` over the dependents. -/
def walk : Nat → Search String → Code (Search String)
  | 0, search => return search
  | rounds + 1, search =>
    match search.queue[search.idx]? with
    | none => return search
    | some current => do
      let dependents ← members (.dependents current)
      walk rounds (search.expand fun _ => dependents)

def cancelEach (error : String) (scope : Scope) (now : Int) : List String → Code (List Job)
  | [] => return []
  | id :: ids => do
    match (← getJob id scope).filter (fun job => job.status = .pending) with
    | none => cancelEach error scope now ids
    | some job =>
      let ending := Ending.cancel (some error)
      archive job ending now none
      return ending.of job now :: (← cancelEach error scope now ids)

def cascadeCancel (failedJobId reason : String) (scope : Scope) (now : Int)
    (rounds : Nat) : Code (List Job) := do
  let search ← walk rounds (Search.start failedJobId)
  cancelEach (reason ++ ": " ++ failedJobId) scope now search.found

def cancelJob (id : String) (scope : Scope) (now : Int) (rounds : Nat) : Code Reply := do
  match (← getJob id scope).filter (fun job => job.status = .pending) with
  | none => return .cancelled false []
  | some job =>
    archive job (.cancel none) now none
    return .cancelled true (← cascadeCancel id dependencyCancelled scope now rounds)

/-- The loop of a sweep over the ids `listed` in a set: what `hits` is taken
out of its queue, and archived. -/
def sweepEach (hits : Job → Bool) (error : String) (listed : SetKey) (now : Int) :
    List String → Code Nat
  | [] => return 0
  | id :: ids => do
    match (← live id).filter hits with
    | none => sweepEach hits error listed now ids
    | some job =>
      cmd (.zrem (.pending job.queue) job.id)
      archive job (.cancel (some error)) now (some (.set listed))
      return (← sweepEach hits error listed now ids) + 1

def sweep (hits : Job → Bool) (error : String) (listed : SetKey) (now : Int) : Code Reply := do
  return .count (← sweepEach hits error listed now (← members listed))

/-- `expire_pending_jobs`: the status of what it loads is not looked at. -/
def expirePendingJobs (now : Int) : Code Reply :=
  sweep (fun job => job.expiredAt now) "expired" (.status .pending) now

def cancelPendingByQueue (queue : String) (now : Int) : Code Reply :=
  sweep (fun job => job.status = .pending) "purged" (.byQueue queue) now

def cancelPendingByTask (taskName : String) (now : Int) : Code Reply :=
  sweep (fun job => job.status = .pending) "revoked" (.byTask taskName) now

/-! ## Steps and claims -/

def recordStepResult (step : NewJobStep) (owner : String) (attempt : Int) (epoch : Option Int)
    (limits : StepLimits) (scope : Scope) (now : Int) : Code Reply := do
  let limits := limits.clamped
  let payload := step.result.getD []
  if limits.maxStepBytes < payload.length then
    return .error (.stepLimitExceeded step.stepKey "step bytes" payload.length limits.maxStepBytes)
  else
    match ← recordStep step owner attempt epoch limits scope now with
    | .ok => return .committed .committed
    | .already => return .committed .alreadyCommitted
    | reply => return .error (stepReplyError step limits reply)

def sleepRounds (step : NewJobStep) (owner : String) (attempt : Int) (epoch : Option Int)
    (wakeAt : Int) (limits : StepLimits) (scope : Scope) (now : Int) : Nat → Code Reply
  | 0 =>
    return .error (.other ("sleep for job " ++ step.jobId ++ " could not settle on a deadline"))
  | rounds + 1 => do
    match storedSleep step (← stepRow step.jobId step.seq) with
    | .error e => return .error e
    | .ok stored =>
      match ← getJobRequiredIn step.jobId scope with
      | .error e => return .error e
      | .ok job =>
        let deadline := stored.getD wakeAt
        match ← sleep step owner attempt epoch limits scope job stored.isSome deadline now with
        | .ok =>
          return .slept
            (if stored.isSome then .alreadySleeping deadline else .slept deadline)
        | .retry => sleepRounds step owner attempt epoch wakeAt limits scope now rounds
        | reply => return .error (stepReplyError step limits reply)

def sleepJob (step : NewJobStep) (owner : String) (attempt : Int) (epoch : Option Int)
    (wakeAt : Int) (limits : StepLimits) (scope : Scope) (now : Int) : Code Reply :=
  sleepRounds step owner attempt epoch wakeAt limits.clamped scope now 3

/-- `claim_execution`: the index entry is a command of its own. -/
def claimExecution (jobId worker : String) (now epoch : Int) : Code Reply := do
  if ← claim jobId worker now epoch then
    cmd (.zadd .claimsByTime jobId (asF64 now))
    return .epoch (some epoch)
  else return .epoch none

def seesJob (jobId : String) (scope : Scope) : Code Bool :=
  if scope.isSome then do
    let job ← getJob jobId scope
    return job.isSome
  else return true

def completeExecution (jobId : String) (scope : Scope) : Code Reply := do
  if ← seesJob jobId scope then
    pipe [.delClaim jobId, .zrem .claimsByTime jobId]
    return .done
  else return .done

def reclaimExecution (jobId expected owner : String) (now epoch : Int) : Code Reply := do
  if ← reclaim jobId expected owner now epoch then return .epoch (some epoch)
  else return .epoch none

def purgeExecutionClaims (olderThanMs now : Int) : Code Reply := do
  let ids ← below .claimsByTime (asF64 olderThanMs) true
  match ← deadlines ids with
  | none => return .error .storage
  | some markers =>
    let stale := (ids.zip markers).filterMap fun (id, marker) =>
      if marker.any (now ≤ ·) then none else some id
    pipe (stale.flatMap fun id => [.delClaim id, .zrem .claimsByTime id])
    return .count stale.length

def awaitSettle (jobId owner : String) (attempt : Int) (epoch : Option Int) (deadlineMs : Int)
    (scope : Scope) (now : Int) : Code Reply := do
  let deadline ← Prog.call (Req.awaitSettle jobId owner attempt epoch deadlineMs scope now)
  return .deadline deadline

def claimSettle (jobId : String) (claimant : SettleClaimant) (scope : Scope) : Code Reply := do
  let granted ← Prog.call (Req.claimSettle jobId claimant scope)
  return .flag granted

/-! ## Dead letters -/

def deadLetter (serde : Serde) (job : Job) (error : String) (metadata : Option String)
    (shed : Bool) (id : String) (now : Int) (rounds : Nat) : Code Reply := do
  if ← deadLetterTx job (deadLetterRow serde job error metadata shed id now) error now then
    return .cancelled true (← cascadeCancel job.id dependencyFailed job.namespace now rounds)
  else return .cancelled false []

def shedNewJobs (serde : Serde) (jobs : List (Job × String × String)) (metadata : Option String)
    (now : Int) : Code Reply := do
  if jobs.isEmpty then return .done
  else
    shed (jobs.map fun (job, error, id) =>
      let job := { job with uniqueKey := none, debounceKey := none }
      (job, deadLetterRow serde job error metadata true id now, error)) now
    return .done

/-- `GET dlq:<id>`. -/
def deadDoc (id : String) : Code (Option DeadJobEntry) := do
  return (← deadDocs [id]).head?.join

/-- `push_dlq_remove`. -/
def dlqRemoveOps (id : String) (ns : Scope) : List Cmd :=
  [.delDead id, .zrem .dlqAll id, .zrem (.dlqByNs ns) id]

/-- The pipeline of an `enqueue` that brings back a dead letter. -/
def resurrect (deadId : String) : List Cmd → Code Unit
  | [] => pure ()
  | c :: cmds => do
    (Prog.call (Req.resurrect deadId c) : Code Unit)
    resurrect deadId cmds

/-- `retry_dead`: read the entry, enqueue the job, delete the entry. -/
def retryDead (serde : Serde) (deadId : String) (scope : Scope) (newId : String)
    (now : Int) : Code Reply := do
  match (← deadDoc deadId).filter (fun entry => visibleIn scope entry.namespace) with
  | none => return .error (.jobNotFound deadId)
  | some entry =>
    let job := (retryNewJob serde entry now).intoJob newId now
    resurrect deadId (insertOps job [])
    pipe (dlqRemoveOps deadId job.namespace)
    return .inserted job false

def listForRetry (wanted : DeadJobEntry → Bool) (limit : Nat) :
    List DeadJobEntry → List String → Code (List DeadJobEntry)
  | found, [] => return found
  | found, id :: ids =>
    if limit ≤ found.length then return found
    else do
      match (← deadDoc id).filter wanted with
      | some entry => listForRetry wanted limit (found ++ [entry]) ids
      | none => listForRetry wanted limit found ids

/-- Retry the entries one after the other, under the ids at hand. -/
def retryEach (serde : Serde) (scope : Scope) (now : Int) :
    List DeadJobEntry → List String → Code Unit
  | entry :: entries, newId :: newIds => do
    let _ ← retryDead serde entry.id scope newId now
    retryEach serde scope now entries newIds
  | _, _ => return ()

def isShedReason (error : Option String) : Bool :=
  error.any fun e => ["codel:", "rate_limit:", "quota:"].any fun mark =>
    mark.toList.isPrefixOf e.toList

def dlqRetryCandidates : Nat := 50

def autoRetryDlq (serde : Serde) (ns : Scope) (queues : List String)
    (cutoff maxRetries : Int) (newIds : List String) (now : Int) : Code Reply := do
  let ids ← below .dlqAll (asF64 cutoff) true
  let candidates ← listForRetry (fun entry => !entry.shed && entry.dlqRetryCount < maxRetries &&
    entry.namespace = ns && queues.contains entry.queue) dlqRetryCandidates [] ids
  retryEach serde ns now (candidates.filter fun entry => !isShedReason entry.error) newIds
  return .done

def deleteDead (deadId : String) (scope : Scope) : Code Reply := do
  match (← deadDoc deadId).filter (fun entry => visibleIn scope entry.namespace) with
  | none => return .flag false
  | some entry =>
    pipe (dlqRemoveOps deadId entry.namespace)
    return .flag true

def removeDead (gone : List (List Cmd)) : Code Reply := do
  pipe gone.flatten
  return .count gone.length

/-- `purge_dead`, one batch: the documents come from one `MGET`, and without
a scope an entry that leads nowhere goes as well. -/
def purgeDead (olderThanMs : Int) (scope : Scope) : Code Reply := do
  let ids := (← below .dlqAll (asF64 olderThanMs) true).take scanBatch
  let entries ← deadDocs ids
  removeDead ((ids.zip entries).filterMap fun (id, entry) =>
    match entry with
    | some entry =>
      if visibleIn scope entry.namespace then some (dlqRemoveOps id entry.namespace) else none
    | none => if scope.isNone then some [.delDead id, .zrem .dlqAll id] else none)

def collectDead (wanted : DeadJobEntry → Bool) (stale : String → List Cmd) :
    List String → Code (List (List Cmd))
  | [] => return []
  | id :: ids => do
    match ← deadDoc id with
    | some entry =>
      if wanted entry then
        return dlqRemoveOps id entry.namespace :: (← collectDead wanted stale ids)
      else collectDead wanted stale ids
    | none => return stale id :: (← collectDead wanted stale ids)

def purgeDeadByTask (taskName : String) (scope : Scope) : Code Reply := do
  let ids ← first .dlqAll none
  removeDead (← collectDead (fun entry => entry.taskName = taskName &&
    visibleIn scope entry.namespace) (fun _ => []) ids.reverse)

/-- `purge_dead_with_ttl`, on the ids one `ZSCAN` returned. -/
def purgeDeadWithTtl (cutoff : Option Int) (now : Int) (ids : List String) : Code Reply := do
  removeDead (← collectDead (fun entry =>
    match entry.resultTtlMs with
    | some ttl => (checkedAdd entry.failedAt ttl).any (· ≤ now)
    | none => cutoff.any (entry.failedAt < ·)) (fun _ => []) ids)

/-- `trim_dead_over`, one batch. -/
def trimDeadOver (ns : Scope) (keep : Int) : Code Reply := do
  let total ← card (.dlqByNs ns)
  let ids ← first (.dlqByNs ns) (some (min (total - max keep 0).toNat scanBatch))
  removeDead (← collectDead (fun _ => true) (fun id => [.zrem (.dlqByNs ns) id]) ids)

/-! ## Retention -/

def deleteArchived (job : Job) : Code Unit := do
  pipe (deleteArchivedOps job)
  if job.uniqueKey.isSome then releaseUnique job

/-- What the purges do with a batch of ids: delete what is `due`, and drop
the index entries that lead nowhere. -/
def purgeEach (due : Job → Bool) (stale : String → Option Cmd) : List String → Code Unit
  | [] => return ()
  | id :: ids => do
    match ← archivedDoc id with
    | some job => if due job then deleteArchived job
    | none => pipe (stale id).toList
    purgeEach due stale ids

/-- `drain_archived_expiry`, one batch. -/
def drainArchivedExpiry (now : Int) : Code Reply := do
  let ids ← below .archivedExpiry (asF64 now) false
  purgeEach (fun _ => true) (fun id => some (.zrem .archivedExpiry id)) (ids.take scanBatch)
  return .done

/-- `drain_archived_below`, the batch at an offset. -/
def drainArchivedBelow (cutoff now : Int) (offset : Nat) : Code Reply := do
  let ids ← below .archivedAll (asF64 cutoff) false
  purgeEach
    (fun job => job.resultTtlMs.all fun ttl =>
      (job.completedAt.bind fun at' => checkedAdd at' ttl).any (· < now))
    (fun id => some (.zrem .archivedAll id)) ((ids.drop offset).take scanBatch)
  return .done

/-- `purge_completed`, on the ids one `SSCAN` returned. -/
def purgeCompleted (olderThanMs : Int) (ids : List String) : Code Reply := do
  purgeEach (fun job => job.completedAt.any (· < olderThanMs)) (fun _ => none) ids
  return .done

/-- `trim_archived_over`, one batch. -/
def trimArchivedOver (ns : Scope) (keep : Int) : Code Reply := do
  let total ← card (.archivedByNs ns)
  let ids ← first (.archivedByNs ns) (some (min (total - max keep 0).toNat scanBatch))
  purgeEach (fun _ => true) (fun id => some (.zrem (.archivedByNs ns) id)) ids
  return .done

end Code

/-! ## The calls -/

/-- A storage call, with what the process that makes it supplies: the clock,
the minted ids, what a scan returned, how many rounds it lives. -/
inductive Call
  | enqueue (new : NewJob) (id : String) (now : Int)
  | enqueueBatch (news : List Draft) (now : Int)
  | enqueueUnique (new : NewJob) (id : String) (now : Int)
  | enqueueDebounced (new : NewJob) (options : DebounceOptions) (id : String) (now : Int)
  | dequeueBatch (queue : String) (now : Int) («namespace» : Scope) (max : Nat)
  | complete (id : String) (result : Option Bytes) (scope : Scope) (now : Int)
  | fail (id error : String) (now : Int)
  | retry (id : String) (nextAt : Int) (scope : Scope)
  | reschedule (id : String) (nextAt : Int) (scope : Scope)
  | requeueStuck (id : String) (now : Int)
  | requestCancel (id : String) (scope : Scope)
  | updateProgress (id : String) (progress : Int) (scope : Scope)
  | markCancelled (id : String) (scope : Scope) (now : Int)
  | cancelJob (id : String) (scope : Scope) (now : Int) (rounds : Nat)
  | cascadeCancel (id reason : String) (scope : Scope) (now : Int) (rounds : Nat)
  | expirePendingJobs (now : Int)
  | cancelPendingByQueue (queue : String) (now : Int)
  | cancelPendingByTask (taskName : String) (now : Int)
  | recordStepResult (step : NewJobStep) (owner : String) (attempt : Int) (epoch : Option Int)
      (limits : StepLimits) (scope : Scope) (now : Int)
  | sleepJob (step : NewJobStep) (owner : String) (attempt : Int) (epoch : Option Int)
      (wakeAt : Int) (limits : StepLimits) (scope : Scope) (now : Int)
  | claimExecution (jobId worker : String) (now epoch : Int)
  | completeExecution (jobId : String) (scope : Scope)
  | reclaimExecution (jobId expected owner : String) (now epoch : Int)
  | purgeExecutionClaims (olderThanMs now : Int)
  | awaitSettle (jobId owner : String) (attempt : Int) (epoch : Option Int) (deadlineMs : Int)
      (scope : Scope) (now : Int)
  | claimSettle (jobId : String) (claimant : SettleClaimant) (scope : Scope)
  | deadLetter (job : Job) (error : String) (metadata : Option String) (shed : Bool) (id : String)
      (now : Int) (rounds : Nat)
  | shedNewJobs (jobs : List (Job × String × String)) (metadata : Option String) (now : Int)
  | retryDead (deadId : String) (scope : Scope) (newId : String) (now : Int)
  | autoRetryDlq («namespace» : Scope) (queues : List String) (cutoff maxRetries : Int)
      (newIds : List String) (now : Int)
  | deleteDead (deadId : String) (scope : Scope)
  | purgeDead (olderThanMs : Int) (scope : Scope)
  | purgeDeadByTask (taskName : String) (scope : Scope)
  | purgeDeadWithTtl (cutoff : Option Int) (now : Int) (ids : List String)
  | trimDeadOver («namespace» : Scope) (keep : Int)
  | drainArchivedExpiry (now : Int)
  | drainArchivedBelow (cutoff now : Int) (offset : Nat)
  | purgeCompleted (olderThanMs : Int) (ids : List String)
  | trimArchivedOver («namespace» : Scope) (keep : Int)

def Call.prog (serde : Serde) : Call → Code Reply
  | .enqueue new id now => Code.enqueue new id now
  | .enqueueBatch news now => Code.enqueueBatch news now
  | .enqueueUnique new id now => Code.enqueueUnique new id now
  | .enqueueDebounced new options id now => Code.enqueueDebounced new options id now
  | .dequeueBatch queue now ns max => Code.dequeueBatch queue now ns max
  | .complete id result scope now => Code.complete id result scope now
  | .fail id error now => Code.fail id error now
  | .retry id nextAt scope => Code.requeue id nextAt scope true
  | .reschedule id nextAt scope => Code.requeue id nextAt scope false
  | .requeueStuck id now => Code.requeueStuck id now
  | .requestCancel id scope => Code.requestCancel id scope
  | .updateProgress id progress scope => Code.updateProgress id progress scope
  | .markCancelled id scope now => Code.markCancelled id scope now
  | .cancelJob id scope now rounds => Code.cancelJob id scope now rounds
  | .cascadeCancel id reason scope now rounds => do
    return .cancelled true (← Code.cascadeCancel id reason scope now rounds)
  | .expirePendingJobs now => Code.expirePendingJobs now
  | .cancelPendingByQueue queue now => Code.cancelPendingByQueue queue now
  | .cancelPendingByTask taskName now => Code.cancelPendingByTask taskName now
  | .recordStepResult step owner attempt epoch limits scope now =>
    Code.recordStepResult step owner attempt epoch limits scope now
  | .sleepJob step owner attempt epoch wakeAt limits scope now =>
    Code.sleepJob step owner attempt epoch wakeAt limits scope now
  | .claimExecution jobId worker now epoch => Code.claimExecution jobId worker now epoch
  | .completeExecution jobId scope => Code.completeExecution jobId scope
  | .reclaimExecution jobId expected owner now epoch =>
    Code.reclaimExecution jobId expected owner now epoch
  | .purgeExecutionClaims olderThanMs now => Code.purgeExecutionClaims olderThanMs now
  | .awaitSettle jobId owner attempt epoch deadlineMs scope now =>
    Code.awaitSettle jobId owner attempt epoch deadlineMs scope now
  | .claimSettle jobId claimant scope => Code.claimSettle jobId claimant scope
  | .deadLetter job error metadata shed id now rounds =>
    Code.deadLetter serde job error metadata shed id now rounds
  | .shedNewJobs jobs metadata now => Code.shedNewJobs serde jobs metadata now
  | .retryDead deadId scope newId now => Code.retryDead serde deadId scope newId now
  | .autoRetryDlq ns queues cutoff maxRetries newIds now =>
    Code.autoRetryDlq serde ns queues cutoff maxRetries newIds now
  | .deleteDead deadId scope => Code.deleteDead deadId scope
  | .purgeDead olderThanMs scope => Code.purgeDead olderThanMs scope
  | .purgeDeadByTask taskName scope => Code.purgeDeadByTask taskName scope
  | .purgeDeadWithTtl cutoff now ids => Code.purgeDeadWithTtl cutoff now ids
  | .trimDeadOver ns keep => Code.trimDeadOver ns keep
  | .drainArchivedExpiry now => Code.drainArchivedExpiry now
  | .drainArchivedBelow cutoff now offset => Code.drainArchivedBelow cutoff now offset
  | .purgeCompleted olderThanMs ids => Code.purgeCompleted olderThanMs ids
  | .trimArchivedOver ns keep => Code.trimArchivedOver ns keep

def Call.births : Call → List (String × List String)
  | .enqueue new id _ => [(id, new.dependsOn)]
  | .enqueueBatch news _ => news.map fun (new, id) => (id, new.dependsOn)
  | .enqueueUnique new id _ => [(id, new.dependsOn)]
  | .enqueueDebounced new _ id _ => [(id, new.dependsOn)]
  | .shedNewJobs jobs _ _ => jobs.map fun (job, _, _) => (job.id, [])
  | .retryDead _ _ newId _ => [(newId, [])]
  | .autoRetryDlq _ _ _ _ newIds _ => newIds.map fun id => (id, [])
  | _ => []

def Call.deadIds : Call → List String
  | .deadLetter _ _ _ _ id _ _ => [id]
  | .shedNewJobs jobs _ _ => jobs.map fun (_, _, id) => id
  | _ => []

/-! ## The machine -/

/-- The server, the ids that were ever minted, and those of them whose
document was ever written. -/
structure Server where
  store : Store
  births : List (String × List String)
  deadIds : List String
  inserted : List String
  deriving DecidableEq

def Server.start : Server := ⟨.empty, [], [], []⟩

/-- A call arrives: its ids are new. -/
def Server.admits (serde : Serde) (call : Call) (w : Server) : Option (Code Reply × Server) :=
  let ids := call.births.map Prod.fst
  if ids.Nodup ∧ (∀ id ∈ ids, id ∉ w.births.map Prod.fst) ∧ call.deadIds.Nodup ∧
      ∀ id ∈ call.deadIds, id ∉ w.deadIds then
    some (call.prog serde, { w with
      births := call.births ++ w.births
      deadIds := call.deadIds ++ w.deadIds })
  else none

theorem Server.admit_ok {serde : Serde} {call : Call} {w w' : Server} {prog : Code Reply}
    (h : w.admits serde call = some (prog, w')) :
    prog = call.prog serde ∧ w' = { w with
      births := call.births ++ w.births
      deadIds := call.deadIds ++ w.deadIds } := by
  unfold Server.admits at h
  dsimp only at h
  split at h
  · cases h
    exact ⟨rfl, rfl⟩
  · cases h

def Server.perform (c : Req) (w : Server) : Resp c × Server :=
  let (r, s) := Redis.perform c w.store
  (r, { w with
    store := s
    inserted := (if c.inserted r then c.inserts.toList.map Job.id else []) ++ w.inserted })

theorem Server.inserted_mono {w : Server} {c : Req} {j : String} (h : j ∈ w.inserted) :
    j ∈ (w.perform c).2.inserted := List.mem_append_right _ h

theorem Server.mem_inserted {w : Server} {c : Req} {job : Job} (hc : c.inserts = some job)
    (hr : c.inserted (Redis.perform c w.store).1 = true) :
    job.id ∈ (w.perform c).2.inserted := by
  have hnew : (w.perform c).2.inserted =
      (if c.inserted (Redis.perform c w.store).1 then c.inserts.toList.map Job.id else []) ++
        w.inserted := rfl
  rw [hnew, if_pos hr, hc]
  exact List.mem_append_left _ (List.mem_singleton_self job.id)

def machine (serde : Serde) : Service Call Int Req Resp Reply Server where
  arrive := Server.admits serde
  exec := Server.perform
  drift now w := { w with store := w.store.tick now }

end FlexiQ.Redis
