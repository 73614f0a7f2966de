/-
# `Sql.Jobs` — the transitions of a job row

`storage/diesel_common/jobs.rs`: enqueueing behind dependencies, the terminal
transitions that move a row into the archive, the ones that put a running row
back, the cascade, and the retention purges.  Each definition is ONE write
transaction of the source.

Read the guards.  `complete`, `fail` and `requeueStuck` act on a `Running` row
only, `cancelJobRow` on a `Pending` one.  `retry`, `reschedule` and
`markCancelled` filter on the id alone.
-/
import FlexiQ.Sql.Store
import Mathlib.Data.List.Sort

namespace FlexiQ.Sql

open FlexiQ.Lib

/-! ## The archive -/

/-- `archive_job_row`: into the archive, out of `jobs`, with the step rows
and the claim. -/
def archiveJobRow (s : Store) (row : Job) : Result Store :=
  match s.archived.insert row.archived with
  | none => .error .storage
  | some archived =>
    .ok { s with
      archived := archived
      jobs := s.jobs.delete (fun r => r.id = row.id)
      steps := s.steps.filter (fun r => r.jobId ≠ row.id)
      claims := s.claims.delete (fun r => r.jobId = row.id) }

/-- `archive_job_row` for each of several rows. -/
def archiveRows (s : Store) : List Job → Result Store
  | [] => .ok s
  | row :: rows => do
    let s ← archiveJobRow s row
    archiveRows s rows

/-- `get_job`: the live row, else the archived one, if the caller may see
it. -/
def getJob (s : Store) (id : String) (scope : Scope) : Option Job :=
  match s.jobs.find id with
  | some row => if visibleIn scope row.namespace then some row else none
  | none => (s.archived.find id).filter (fun row => visibleIn scope row.namespace)

/-! ## Dependencies -/

def dependenciesOf (s : Store) (id : String) : List String :=
  (s.edges.filter (fun e => e.jobId = id)).map Edge.dependsOnJobId

def dependentsOf (s : Store) (id : String) : List String :=
  (s.edges.filter (fun e => e.dependsOnJobId = id)).map Edge.jobId

/-- `deps_satisfied`: no dependency has a row that is not `Complete`, live
or archived. -/
def depsSatisfied (s : Store) (id : String) : Bool :=
  let deps := dependenciesOf s id
  let incomplete := fun (row : Job) => row.id ∈ deps ∧ row.status ≠ .complete
  deps.isEmpty ||
    (s.jobs.rows.filter incomplete).length + (s.archived.rows.filter incomplete).length == 0

def validateDependency (s : Store) (depId : String) (ns : Scope) : Bool :=
  match s.jobs.find depId with
  | some dep =>
    !(dep.status = .dead || dep.status = .cancelled || dep.namespace ≠ ns)
  | none =>
    match s.archived.find depId with
    | some dep => dep.status = .complete && dep.namespace = ns
    | none => false

def dependencyRefused : QueueError :=
  .dependencyNotFound "dependency not found or already dead/cancelled"

/-- The partial unique index on `(COALESCE(namespace, ''), unique_key)` over
`Pending` and `Running` rows. -/
def uniqueKeyTaken (s : Store) (job : Job) : Bool :=
  match job.uniqueKey with
  | none => false
  | some key => s.jobs.rows.any fun row =>
    row.uniqueKey = some key && row.namespace.getD "" = job.namespace.getD ""
      && (row.status = .pending || row.status = .running)

def insertJob (s : Store) (job : Job) : Result Store :=
  if uniqueKeyTaken s job then .error .storage
  else
    match s.jobs.insert job with
    | none => .error .storage
    | some jobs => .ok { s with jobs := jobs }

def insertJobWithDeps (s : Store) (job : Job) (dependsOn : List String) : Result Store := do
  let s ← insertJob s job
  return { s with edges := s.edges ++ dependsOn.map (fun dep => ⟨job.id, dep⟩) }

def enqueue (s : Store) (new : NewJob) (id : String) (now : Int) : Result (Job × Store) :=
  let job := new.intoJob id now
  if new.dependsOn.all (fun dep => validateDependency s dep job.namespace) then do
    let s ← insertJobWithDeps s job new.dependsOn
    return (job, s)
  else .error dependencyRefused

def findActiveByUniqueKey (s : Store) (key : String) (ns : Scope) : Option Job :=
  s.jobs.rows.find? fun row =>
    row.uniqueKey = some key && (row.status = .pending || row.status = .running)
      && row.namespace = ns

/-- `enqueue_unique_reporting`, the transaction it retries: the active job
under the key, or the new one. -/
def enqueueUnique (s : Store) (new : NewJob) (id : String) (now : Int) :
    Result ((Job × Bool) × Store) :=
  match new.uniqueKey.bind fun key => findActiveByUniqueKey s key new.namespace with
  | some row => .ok ((row, true), s)
  | none => do
    let (job, s) ← enqueue s new id now
    return ((job, false), s)

/-- `enqueue_unique_batch_reporting`, the transaction it retries. -/
def enqueueUniqueBatch (s : Store) (now : Int) : List Draft → Result (List (Job × Bool) × Store)
  | [] => .ok ([], s)
  | (new, id) :: rest => do
    let (first, s) ← enqueueUnique s new id now
    let (others, s) ← enqueueUniqueBatch s now rest
    return (first :: others, s)

/-- `find_debounce_target`: of the oldest pending rows under the key, the
first that nobody has claimed. -/
def findDebounceTarget (s : Store) (ns : Scope) (key : String) : Option Job :=
  let rows := s.jobs.rows.filter fun row =>
    row.debounceKey = some key && row.namespace = ns && row.status = .pending
  let oldest := rows.insertionSort fun a b =>
    a.createdAt < b.createdAt ∨ (a.createdAt = b.createdAt ∧ a.id ≤ b.id)
  (oldest.take debounceCandidateScan).find? fun row => (s.claims.find row.id).isNone

/-- `enqueue_debounced`: slide the job that opened the window, or open one. -/
def enqueueDebounced (s : Store) (new : NewJob) (options : DebounceOptions) (id : String)
    (now : Int) : Result (Job × Store) := do
  let key ← validatedDebounceKey new options
  let job := new.intoWindow options id now
  match findDebounceTarget s job.namespace key with
  | some target =>
    let s := { s with
      jobs := s.jobs.update (fun r => r.id = target.id) fun r => r.slid job options }
    return (target.slid job options, s)
  | none =>
    if new.dependsOn.all (fun dep => validateDependency s dep job.namespace) then
      let pending : Int :=
        (s.jobs.rows.filter fun row => row.queue = job.queue && row.status = .pending).length
      match options.maxPending.filter (· < pending + 1) with
      | some cap => .error (.queueFull job.queue pending cap)
      | none =>
        let s ← insertJobWithDeps s job new.dependsOn
        return (job, s)
    else .error dependencyRefused

/-- `insert_job_with_deps` for each member of a batch. -/
def insertBatch (s : Store) : List (Job × List String) → Result Store
  | [] => .ok s
  | (job, dependsOn) :: rest => do
    let s ← insertJobWithDeps s job dependsOn
    insertBatch s rest

/-- `enqueue_batch`: an edge onto another member of the batch is checked for
its namespace only. -/
def enqueueBatch (s : Store) (new : List Draft) (now : Int) : Result (List Job × Store) :=
  let members := new.map fun e => (e.1.intoJob e.2 now, e.1.dependsOn)
  let valid := members.all fun member => member.2.all fun dep =>
    match members.find? (fun other => other.1.id = dep) with
    | some other => other.1.namespace = member.1.namespace
    | none => validateDependency s dep member.1.namespace
  if valid then do
    let s ← insertBatch s members
    return (members.map Prod.fst, s)
  else .error dependencyRefused

/-! ## Terminal transitions -/

/-- `complete`: a running row, with its result. -/
def complete (s : Store) (id : String) (result : Option Bytes) (scope : Scope)
    (now : Int) : Result Store :=
  match s.jobs.find id with
  | some row =>
    if row.status = .running ∧ visibleIn scope row.namespace then
      archiveJobRow s { row.finish .complete now row.error with result := result }
    else .error (.jobNotFound id)
  | none => .error (.jobNotFound id)

/-- `complete_batch`: every completion, or none. -/
def completeBatch (s : Store) (scope : Scope) (now : Int) :
    List (String × Option Bytes) → Result Store
  | [] => .ok s
  | (id, result) :: rest => do
    let s ← complete s id result scope now
    completeBatch s scope now rest

def fail (s : Store) (id error : String) (now : Int) : Result Store :=
  match s.jobs.find id with
  | some row =>
    if row.status = .running then archiveJobRow s (row.finish .failed now (some error))
    else .error (.jobNotFound id)
  | none => .error (.jobNotFound id)

/-- The archiving half of `cancel_job`: a pending row the caller may see. -/
def cancelJobRow (s : Store) (id : String) (scope : Scope) (now : Int) : Result (Bool × Store) :=
  match s.jobs.find id with
  | some row =>
    if row.status = .pending ∧ visibleIn scope row.namespace then do
      let s ← archiveJobRow s (row.finish .cancelled now row.error)
      return (true, s)
    else .ok (false, s)
  | none => .ok (false, s)

/-- `mark_cancelled`: any live row the caller may see. -/
def markCancelled (s : Store) (id : String) (scope : Scope) (now : Int) : Result Store :=
  match s.jobs.find id with
  | some row =>
    if visibleIn scope row.namespace then
      archiveJobRow s (row.finish .cancelled now (some "cancelled by request"))
    else .ok s
  | none => .ok s

/-! ## Transitions back to `Pending` -/

section

variable (s : Store) (id : String)

/-- `retry`: any live row of that id, one attempt further, claim revoked. -/
def retry (nextScheduledAt : Int) (scope : Scope) : Result Store :=
  match s.jobs.find id with
  | some row =>
    if visibleIn scope row.namespace then
      .ok { s with
        jobs := s.jobs.update (fun r => r.id = id) fun r =>
          { r.pendingAt nextScheduledAt with retryCount := r.retryCount + 1 }
        claims := s.claims.delete (fun r => r.jobId = id) }
    else .error (.jobNotFound id)
  | none => .error (.jobNotFound id)

/-- `reschedule`: any live row of that id. -/
def reschedule (nextScheduledAt : Int) (scope : Scope) : Result Store :=
  match s.jobs.find id with
  | some row =>
    if visibleIn scope row.namespace then
      .ok { s with
        jobs := s.jobs.update (fun r => r.id = id) fun r => r.pendingAt nextScheduledAt }
    else .error (.jobNotFound id)
  | none => .error (.jobNotFound id)

/-- `requeue_stuck`: a running row, at the same attempt, claim revoked. -/
def requeueStuck (now : Int) : Bool × Store :=
  match s.jobs.find id with
  | some row =>
    if row.status = .running then
      (true, { s with
        jobs := s.jobs.update (fun r => r.id = id) fun r =>
          { r.pendingAt now with cancelRequested := false }
        claims := s.claims.delete (fun r => r.jobId = id) })
    else (false, s)
  | none => (false, s)

/-- `request_cancel`: the flag a running job polls. -/
def requestCancel (scope : Scope) : Bool × Store :=
  match s.jobs.find id with
  | some row =>
    if row.status = .running ∧ visibleIn scope row.namespace then
      (true, { s with
        jobs := s.jobs.update (fun r => r.id = id) fun r => { r with cancelRequested := true } })
    else (false, s)
  | none => (false, s)

end

/-! ## Mass archiving -/

def massArchiveBatch : Nat := 500

/-- One batch of `archive_pending_in_batches`. -/
def archivePending (s : Store) (p : Job → Bool) (now : Int) (error : String) :
    Result (List Job × Store) := do
  let rows := ((s.jobs.rows.filter (fun row => row.status = .pending && p row)).take
    massArchiveBatch).map fun row => row.finish .cancelled now (some error)
  let s ← archiveRows s rows
  return (rows, s)

/-- `expire_pending_jobs`, one batch. -/
def expirePendingJobs (s : Store) (now : Int) : Result (List Job × Store) :=
  archivePending s (fun row => row.expiredAt now) now "expired"

/-- `cancel_pending_by_queue`, one batch. -/
def cancelPendingByQueue (s : Store) (queue : String) (now : Int) : Result (List Job × Store) :=
  archivePending s (fun row => row.queue = queue) now "purged"

/-- `cancel_pending_by_task`, one batch. -/
def cancelPendingByTask (s : Store) (task : String) (now : Int) : Result (List Job × Store) :=
  archivePending s (fun row => row.taskName = task) now "revoked"

/-- The write of `cascade_cancel`: the pending rows among `ids` that the
caller may see. -/
def cascadeArchive (s : Store) (ids : List String) (reason failedJobId : String)
    (scope : Scope) (now : Int) : Result (List Job × Store) := do
  let rows := (s.jobs.rows.filter fun row =>
      row.id ∈ ids && row.status = .pending && visibleIn scope row.namespace).map
    fun row => row.finish .cancelled now (some (reason ++ ": " ++ failedJobId))
  let s ← archiveRows s rows
  return (rows, s)

/-! ## Retention -/

/-- `delete_job_relations`: every edge from or to one of the jobs. -/
def deleteJobRelations (s : Store) (ids : List String) : Store :=
  { s with edges := s.edges.filter fun e => !(e.jobId ∈ ids || e.dependsOnJobId ∈ ids) }

def purgeArchivedIdBatch (s : Store) (ids : List String) : Store :=
  let s := deleteJobRelations s ids
  { s with archived := s.archived.delete (fun row => row.id ∈ ids) }

def purgeBatch : Nat := 500

def archivedIds (s : Store) (p : Job → Bool) : List String :=
  ((s.archived.rows.filter p).take purgeBatch).map Job.id

/-- The rows `purge_completed` is after. -/
def completedBefore (olderThanMs : Int) (row : Job) : Bool :=
  row.status = .complete && row.completedAt.any (· < olderThanMs)

/-- `purge_completed`, one batch. -/
def purgeCompleted (s : Store) (olderThanMs : Int) : Store :=
  purgeArchivedIdBatch s (archivedIds s (completedBefore olderThanMs))

def pastGlobalTtl (cutoff : Int) (row : Job) : Bool :=
  row.resultTtlMs.isNone && row.completedAt.any (· < cutoff)

/-- `purge_completed_with_ttl`, one batch of the rows without a TTL of their
own. -/
def purgeGlobalTtl (s : Store) (cutoff : Int) : Store :=
  purgeArchivedIdBatch s (archivedIds s (pastGlobalTtl cutoff))

/-- The rows past their own TTL. -/
def pastOwnTtl (now : Int) (row : Job) : Bool :=
  row.resultTtlMs.any fun ttl => row.completedAt.any fun completed => completed + ttl < now

/-- `purge_completed_with_ttl`, one batch of the rows with one. -/
def purgePerEntryTtl (s : Store) (now : Int) : Store :=
  purgeArchivedIdBatch s (archivedIds s (pastOwnTtl now))

/-- The oldest archived rows of one namespace. -/
def oldestArchivedIds (s : Store) (ns : Scope) (limit : Nat) : List String :=
  let oldest := (s.archived.rows.filter (fun row => row.namespace = ns)).insertionSort
    fun a b => a.completedAt.getD 0 < b.completedAt.getD 0 ∨
      (a.completedAt.getD 0 = b.completedAt.getD 0 ∧ a.id ≤ b.id)
  (oldest.take (min limit purgeBatch)).map Job.id

/-- `trim_archived_over`, one batch.  The excess is counted once, before the
first batch, so `limit` is whatever that count left. -/
def trimArchivedOver (s : Store) (ns : Scope) (limit : Nat) : Store :=
  purgeArchivedIdBatch s (oldestArchivedIds s ns limit)

end FlexiQ.Sql
