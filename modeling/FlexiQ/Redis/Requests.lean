/-
# `Redis.Requests` — what the server executes at once

The Redis backend has no transaction around a call.  What is atomic is one
command, one script or one `MULTI`; between two of them other clients are
served.  `Req` lists these requests with the arguments the Rust side computed
for them, `perform` says what the server does.

Most writes put back a whole document that an EARLIER request read, so such a
request carries what it was read as.  `Current` says that this is still what
the server holds; the server itself does not check it.
-/
import FlexiQ.Redis.Dequeue
import FlexiQ.Redis.Steps
import FlexiQ.Sql.DeadLetter

namespace FlexiQ.Redis

open FlexiQ.Lib FlexiQ.Step FlexiQ.Sql

inductive Ending
  | complete (result : Option Bytes)
  | fail (error : String)
  | cancelledByRequest
  | cancel (error : Option String)
  deriving DecidableEq, Repr

def Ending.of (ending : Ending) (read : Job) (now : Int) : Job :=
  match ending with
  | .complete result => { read with status := .complete, completedAt := some now, result := result }
  | .fail error => read.finish .failed now (some error)
  | .cancelledByRequest => read.finish .cancelled now (some "cancelled by request")
  | .cancel (some error) => read.finish .cancelled now (some error)
  | .cancel none => { read with status := .cancelled, completedAt := some now }

inductive Listing
  | set (key : SetKey)
  | zset (key : ZKey)
  deriving DecidableEq, Repr

def Listing.holds (s : Store) (id : String) : Listing → Bool
  | .set key => s.sets.sismember key id
  | .zset key => (s.zsets.zscore key id).isSome

inductive Req
  | live (id : String)
  | archivedDoc (id : String)
  | members (key : SetKey)
  | below (key : ZKey) (cutoff : Int) (inclusive : Bool)
  | first (key : ZKey) (count : Option Nat)
  | card (key : ZKey)
  | stepRow (jobId : String) (seq : Int)
  | deadlines (ids : List String)
  | deadDocs (ids : List String)
  | cmd (c : Cmd)
  | resurrect (deadId : String) (c : Cmd)
  | uniqueCheck («namespace» : Scope) (key : String)
  | uniqueStore (job : Job) (dependsOn : List String) (key : String)
  | debounceResolve («namespace» : Scope) (key : String)
  | debounceInsert (key : String) (job : Job) (dependsOn : List String) (maxPending : Option Int)
  | debounceSlide (target slid : Job)
  | selectAndClaim (queue : String) (now : Int) («namespace» : Scope) (max : Nat)
  | claimPending (queue : String) (read : Job) (now : Int)
  | archive (read : Job) (ending : Ending) (now : Int) (listed : Option Listing)
  | deadLetter (read : Job) (entry : DeadJobEntry) (error : String) (now : Int)
  | shed (jobs : List (Job × DeadJobEntry × String)) (now : Int)
  | requeue (read : Job) (nextAt : Int) (bump : Bool)
  | setIfLive (read : Job) (progress : Int)
  | requestCancel (read : Job)
  | requeueStuck (read : Job) (now : Int)
  | releaseUnique (job : Job)
  | recordStep (step : NewJobStep) (owner : String) (attempt : Int) (epoch : Option Int)
      (limits : StepLimits) (scope : Scope) (now : Int)
  | sleep (step : NewJobStep) (owner : String) (attempt : Int) (epoch : Option Int)
      (limits : StepLimits) (scope : Scope) (read : Job) (stored : Bool)
      (deadline now : Int)
  | claim (jobId worker : String) (now epoch : Int)
  | reclaim (jobId expected owner : String) (now epoch : Int)
  | awaitSettle (jobId owner : String) (attempt : Int) (epoch : Option Int) (deadlineMs : Int)
      (scope : Scope) (now : Int)
  | claimSettle (jobId : String) (claimant : SettleClaimant) (scope : Scope)
  deriving DecidableEq, Repr

inductive DebounceReply
  | opened
  | raced (target : Job)
  | full (pending : Int)
  deriving DecidableEq, Repr

def DebounceReply.isOpened : DebounceReply → Bool
  | .opened => true
  | _ => false

def Resp : Req → Type
  | .live _ => Option Job
  | .archivedDoc _ => Option Job
  | .members _ => List String
  | .below .. => List String
  | .first .. => List String
  | .card _ => Nat
  | .stepRow .. => Option StepField
  | .deadlines _ => Option (List (Option Int))
  | .deadDocs _ => List (Option DeadJobEntry)
  | .cmd _ => Unit
  | .resurrect .. => Unit
  | .uniqueCheck .. => Option Job
  | .uniqueStore .. => Option Job
  | .debounceResolve .. => Option Job
  | .debounceInsert .. => DebounceReply
  | .debounceSlide .. => Bool
  | .selectAndClaim .. => Selected
  | .claimPending .. => Bool
  | .archive .. => Unit
  | .deadLetter .. => Bool
  | .shed .. => Unit
  | .requeue .. => Unit
  | .setIfLive .. => Bool
  | .requestCancel _ => Bool
  | .requeueStuck .. => Bool
  | .releaseUnique _ => Unit
  | .recordStep .. => StepReply
  | .sleep .. => StepReply
  | .claim .. => Bool
  | .reclaim .. => Bool
  | .awaitSettle .. => Option Int
  | .claimSettle .. => Bool

/-! ## The scripts that are not modelled elsewhere -/

/-- The document of a job that is requeued: `retry` counts the attempt,
`reschedule` does not. -/
def requeued (read : Job) (nextAt : Int) (bump : Bool) : Job :=
  if bump then { read.pendingAt nextAt with retryCount := read.retryCount + 1 }
  else read.pendingAt nextAt

/-- The writes of `REQUEUE_STUCK_IF_RUNNING`. -/
def requeueStuckOps (read : Job) (now : Int) : List Cmd :=
  let again := { read.pendingAt now with cancelRequested := false }
  [.setJob again,
    .srem (.status .running) read.id,
    .sadd (.status .pending) read.id,
    .zadd (.pending read.queue) read.id (dequeueScore again.priority again.scheduledAt),
    .delClaim read.id,
    .zrem .claimsByTime read.id] ++
  (jobDebounceIndexKey again).toList.map (fun key => .zadd key read.id (asF64 again.createdAt))

/-- A write that a membership guards. -/
def ifMember (s : Store) (status : JobStatus) (id : String) (ops : List Cmd) : Bool × Store :=
  if s.sets.sismember (.status status) id then (true, s.exec ops) else (false, s)

def setIfLive (s : Store) (job : Job) : Bool × Store :=
  match s.jobs.find job.id with
  | some _ => (true, s.exec [.setJob job])
  | none => (false, s)

/-- The dead letter's document and its index entries, then the archive. -/
def deadLetterOps (read : Job) (entry : DeadJobEntry) (error : String) (old : JobStatus)
    (now : Int) : List Cmd :=
  [.setDead entry,
    .zadd .dlqAll entry.id (asF64 now),
    .zadd (.dlqByNs read.namespace) entry.id (asF64 now)] ++
  pushArchiveOps (read.finish .dead now (some error)) old now

/-- The transaction of `dead_letter`: nothing, unless the job is live. -/
def deadLetterTx (s : Store) (read : Job) (entry : DeadJobEntry) (error : String) (now : Int) :
    Bool × Store :=
  match s.jobs.find read.id with
  | some _ => (true, s.exec (deadLetterOps read entry error read.status now))
  | none => (false, s)

/-- The check script of `enqueue_unique`. -/
def uniqueCheck (s : Store) (ns : Scope) (key : String) : Option Job × Store :=
  match activeDuplicate s ns key with
  | some job => (some job, s)
  | none => (none, s.exec [.delUnique ns key])

/-- The store script of `enqueue_unique`. -/
def uniqueStore (s : Store) (job : Job) (dependsOn : List String) (key : String) :
    Option Job × Store :=
  match uniqueCheck s job.namespace key with
  | (some existing, s) => (some existing, s)
  | (none, s) => (none, s.exec (insertOps job dependsOn ++
      [.setUnique ⟨job.namespace, key, job.id⟩]))

/-- `DEBOUNCE_INSERT`: the scan once more, the cap, the insert. -/
def debounceInsert (s : Store) (key : String) (job : Job) (dependsOn : List String)
    (maxPending : Option Int) : DebounceReply × Store :=
  match resolveDebounceTarget s (.debounce job.namespace key) with
  | (some target, s) => (.raced target, s)
  | (none, s) =>
    let pending := countPendingByQueue s job.queue
    if maxPending.any (fun cap => 0 ≤ cap && cap < pending + 1) then (.full pending, s)
    else (.opened, s.exec (insertOps job dependsOn))

/-- `DEBOUNCE_SLIDE`: a compare-and-swap on the whole document. -/
def debounceSlide (s : Store) (target slid : Job) : Bool × Store :=
  if s.jobs.find target.id = some target ∧ s.claims.find target.id = none then
    (true, s.exec [.setJob slid,
      .zadd (.pending slid.queue) slid.id (dequeueScore slid.priority slid.scheduledAt)])
  else (false, s)

/-- `MGET` of settle markers: an error when one of them does not parse. -/
def readDeadlines (s : Store) (ids : List String) : Option (List (Option Int)) :=
  let markers := ids.map fun id => (s.markers.find id).map MarkerKey.deadline
  if markers.all fun m => m.all fun d => (parseI64 d).isSome then some markers else none

def membersBelow (s : Store) (key : ZKey) (cutoff : Int) (inclusive : Bool) : List String :=
  ((s.zsets.zrange key).filter fun r =>
    r.score < cutoff || (inclusive && r.score = cutoff)).map Scored.member

/-! ## The server -/

def perform : (c : Req) → Store → Resp c × Store
  | .live id, s => (loadJob s id, s)
  | .archivedDoc id, s => (loadArchivedJob s id, s)
  | .members key, s => (s.sets.smembers key, s)
  | .below key cutoff inclusive, s => (membersBelow s key cutoff inclusive, s)
  | .first key count, s =>
    let ids := (s.zsets.zrange key).map Scored.member
    (count.elim ids ids.take, s)
  | .card key, s => ((s.zsets.zrange key).length, s)
  | .stepRow jobId seq, s => ((stepHash s jobId).row seq, s)
  | .deadlines ids, s => (readDeadlines s ids, s)
  | .deadDocs ids, s => (ids.map s.dead.find, s)
  | .cmd c, s => ((), s.exec [c])
  | .resurrect _ c, s => ((), s.exec [c])
  | .uniqueCheck ns key, s => uniqueCheck s ns key
  | .uniqueStore job dependsOn key, s => uniqueStore s job dependsOn key
  | .debounceResolve ns key, s => resolveDebounceTarget s (.debounce ns key)
  | .debounceInsert key job dependsOn maxPending, s => debounceInsert s key job dependsOn maxPending
  | .debounceSlide target slid, s => debounceSlide s target slid
  | .selectAndClaim queue now ns max, s =>
    selectAndClaim queue now ns max s ⟨[], [], []⟩ (window s queue max)
  | .claimPending queue read now, s =>
    ifMember s .pending read.id (claimOps queue (read.startedBy now))
  | .archive read ending now _, s =>
    ((), archiveJobImmediately s (ending.of read now) read.status now)
  | .deadLetter read entry error now, s => deadLetterTx s read entry error now
  | .shed jobs now, s =>
    ((), s.exec (jobs.flatMap fun (job, entry, error) =>
      deadLetterOps job entry error .pending now))
  | .requeue read nextAt bump, s =>
    ((), s.exec (requeueOps (requeued read nextAt bump) read.status bump))
  | .setIfLive read progress, s => setIfLive s { read with progress := some progress }
  | .requestCancel read, s =>
    ifMember s .running read.id [.setJob { read with cancelRequested := true }]
  | .requeueStuck read now, s => ifMember s .running read.id (requeueStuckOps read now)
  | .releaseUnique job, s => ((), releaseUniqueKey s job)
  | .recordStep step owner attempt epoch limits scope now, s =>
    recordStepScript s step owner attempt epoch limits scope now
  | .sleep step owner attempt epoch limits scope read stored deadline now, s =>
    sleepScript s step owner attempt epoch limits scope read stored deadline now
  | .claim jobId worker now epoch, s => setClaimNx s jobId (claimValue worker now (some epoch))
  | .reclaim jobId expected owner now epoch, s => reclaimExecution s jobId expected owner now epoch
  | .awaitSettle jobId owner attempt epoch deadlineMs scope now, s =>
    awaitSettle s jobId owner attempt epoch deadlineMs scope now
  | .claimSettle jobId claimant scope, s => claimSettle s jobId claimant scope

/-! ## What a request relies on -/

/-- What a write was computed from: the document, and where its id was
found. -/
structure Basis where
  id : String
  read : Job
  listed : Option Listing

def Req.basis : Req → Option Basis
  | .claimPending queue read _ => some ⟨read.id, read, some (.zset (.pending queue))⟩
  | .archive read _ _ listed => some ⟨read.id, read, listed⟩
  | .deadLetter read .. => some ⟨read.id, read, none⟩
  | .requeue read .. => some ⟨read.id, read, none⟩
  | .setIfLive read _ => some ⟨read.id, read, none⟩
  | .requestCancel read => some ⟨read.id, read, none⟩
  | .requeueStuck read _ => some ⟨read.id, read, none⟩
  | .sleep step _ _ _ _ _ read .. => some ⟨step.jobId, read, none⟩
  | _ => none

/-- What the client read of the job still stands. -/
def Current (s : Store) (c : Req) : Prop :=
  ∀ b ∈ c.basis, s.jobs.find b.id = some b.read ∧
    ∀ listing ∈ b.listed, listing.holds s b.id = true
  deriving Decidable

def Req.inserts : Req → Option Job
  | .cmd (.setJob job) => some job
  | .resurrect _ (.setJob job) => some job
  | .uniqueStore job _ _ => some job
  | .debounceInsert _ job _ _ => some job
  | _ => none

def Req.inserted : (c : Req) → Resp c → Bool
  | .cmd (.setJob _), _ => true
  | .resurrect _ (.setJob _), _ => true
  | .uniqueStore .., existing => Option.isNone existing
  | .debounceInsert .., reply => DebounceReply.isOpened reply
  | _, _ => false

end FlexiQ.Redis
