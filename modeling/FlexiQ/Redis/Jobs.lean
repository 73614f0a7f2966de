/-
# `Redis.Jobs` — the calls on a job's life

`redis_backend/jobs/{enqueue,state,helpers,maintenance}.rs`.  A call here is
the whole call, alone on the server: what it reads, then the pipeline it
sends.  A pipeline the source sends as several round trips is one list, in
the order the commands are sent.
-/
import FlexiQ.Lib.Bfs
import FlexiQ.Redis.Store

namespace FlexiQ.Redis

open FlexiQ.Lib

/-! ## Reading -/

section

variable (s : Store) (id : String)

def loadJob : Option Job := s.jobs.find id

/-- `load_archived_job`; `archived_from_json` drops the debounce key. -/
def loadArchivedJob : Option Job :=
  (s.archived.find id).map fun job => { job with debounceKey := none }

def getJob (scope : Scope) : Option Job :=
  (loadJob s id <|> loadArchivedJob s id).filter fun job => visibleIn scope job.namespace

/-- `get_job_required_in`; without a scope, `get_job_required`. -/
def getJobRequiredIn (scope : Scope) : Result Job :=
  orError (.jobNotFound id) ((loadJob s id).filter fun job => visibleIn scope job.namespace)

end

/-! ## The pipelines -/

def jobDebounceIndexKey (job : Job) : Option ZKey :=
  job.debounceKey.map (ZKey.debounce job.namespace)

/-- The insert pipeline of `enqueue`. -/
def insertOps (job : Job) (dependsOn : List String) : List Cmd :=
  [.setJob job,
    .sadd (.status job.status) job.id,
    .zadd (.pending job.queue) job.id (dequeueScore job.priority job.scheduledAt),
    .sadd (.byQueue job.queue) job.id,
    .sadd (.byTask job.taskName) job.id,
    .sadd (.byNs job.namespace) job.id] ++
  (jobDebounceIndexKey job).toList.map (fun key => .zadd key job.id (asF64 job.createdAt)) ++
  dependsOn.flatMap fun depId =>
    [.sadd (.dependsOn job.id) depId, .sadd (.dependents depId) job.id]

theorem forall_insertOps {job : Job} {dependsOn : List String} {P : Cmd → Prop} :
    (∀ c ∈ insertOps job dependsOn, P c) ↔
      P (.setJob job) ∧ P (.sadd (.status job.status) job.id) ∧
      P (.zadd (.pending job.queue) job.id (dequeueScore job.priority job.scheduledAt)) ∧
      P (.sadd (.byQueue job.queue) job.id) ∧ P (.sadd (.byTask job.taskName) job.id) ∧
      P (.sadd (.byNs job.namespace) job.id) ∧
      (∀ key ∈ jobDebounceIndexKey job, P (.zadd key job.id (asF64 job.createdAt))) ∧
      ∀ d ∈ dependsOn, P (.sadd (.dependsOn job.id) d) ∧ P (.sadd (.dependents d) job.id) := by
  simp only [insertOps, List.forall_mem_append, List.forall_mem_cons, List.forall_mem_map,
    List.forall_mem_flatMap, Option.mem_toList, and_assoc]
  simp

def requeueOps (job : Job) (oldStatus : JobStatus) (revokeClaim : Bool) : List Cmd :=
  [.setJob job] ++
  (if oldStatus = .pending then []
    else [.srem (.status oldStatus) job.id, .sadd (.status .pending) job.id]) ++
  [.zadd (.pending job.queue) job.id (dequeueScore job.priority job.scheduledAt)] ++
  (jobDebounceIndexKey job).toList.map (fun key => .zadd key job.id (asF64 job.createdAt)) ++
  (if revokeClaim then [.delClaim job.id, .zrem .claimsByTime job.id] else [])

/-- `push_archive_ops`.  Every caller has set `completed_at`. -/
def pushArchiveOps (job : Job) (oldStatus : JobStatus) (now : Int) : List Cmd :=
  let completedAt := job.completedAt.getD now
  [.delJob job.id,
    .srem (.status oldStatus) job.id,
    .srem (.byQueue job.queue) job.id,
    .srem (.byTask job.taskName) job.id,
    .srem (.byNs job.namespace) job.id] ++
  (if oldStatus = .pending then [.zrem (.pending job.queue) job.id] else []) ++
  (jobDebounceIndexKey job).toList.map (fun key => .zrem key job.id) ++
  [.delSteps job.id,
    .delClaim job.id,
    .zrem .claimsByTime job.id,
    .setArchived job,
    .sadd (.archivedStatus job.status) job.id,
    .zadd .archivedAll job.id (asF64 completedAt),
    .zadd (.archivedByNs job.namespace) job.id (asF64 completedAt)] ++
  (job.resultTtlMs.bind (checkedAdd completedAt)).toList.map fun expiry =>
    .zadd .archivedExpiry job.id (asF64 expiry)

def archiveJobImmediately (s : Store) (job : Job) (oldStatus : JobStatus) (now : Int) : Store :=
  s.exec (pushArchiveOps job oldStatus now)

/-- `release_unique_key`: only if the pointer still names this job. -/
def releaseUniqueKey (s : Store) (job : Job) : Store :=
  match job.uniqueKey with
  | none => s
  | some key =>
    match s.unique.find (job.namespace, key) with
    | some pointer =>
      if pointer.jobId = job.id then s.exec [.delUnique job.namespace key] else s
    | none => s

/-- The pipeline of `delete_archived_job`: the document, its index entries,
and the job's OWN dependency sets.  Other jobs' sets keep naming it. -/
def deleteArchivedOps (job : Job) : List Cmd :=
  [.delArchived job.id,
    .srem (.archivedStatus job.status) job.id,
    .zrem .archivedAll job.id,
    .zrem (.archivedByNs job.namespace) job.id,
    .zrem .archivedExpiry job.id,
    .delSet (.dependsOn job.id),
    .delSet (.dependents job.id)]

/-! ## Enqueue -/

def dependencyRefused : QueueError :=
  .dependencyNotFound "dependency not found or already dead/cancelled"

/-- One turn of `validate_dep_ids`.  `batch` are the jobs of the same call. -/
def validDepId (s : Store) (ns : Scope) (batch : List Job) (depId : String) : Bool :=
  match batch.find? (fun job => job.id = depId) with
  | some job => job.namespace = ns
  | none =>
    match loadJob s depId with
    | some dep => !(dep.status = .dead || dep.status = .cancelled || dep.namespace ≠ ns)
    | none =>
      (loadArchivedJob s depId).any fun dep => dep.status = .complete && dep.namespace = ns

def validateDepIds (s : Store) (depIds : List String) (ns : Scope) (batch : List Job) :
    Result Unit :=
  if depIds.all (validDepId s ns batch) then .ok () else .error dependencyRefused

def enqueue (s : Store) (new : NewJob) (id : String) (now : Int) : Result (Job × Store) := do
  let job := new.intoJob id now
  validateDepIds s new.dependsOn job.namespace []
  return (job, s.exec (insertOps job new.dependsOn))

/-- `enqueue_batch`, each job under its own id. -/
def enqueueBatch (s : Store) (news : List Draft) (now : Int) : Result (List Job × Store) := do
  let jobs := news.map fun (new, id) => new.intoJob id now
  if news.all fun (new, _) => new.dependsOn.all (validDepId s new.namespace jobs) then
    return (jobs, s.exec (news.flatMap fun (new, id) =>
      insertOps (new.intoJob id now) new.dependsOn))
  else .error dependencyRefused

def activeDuplicate (s : Store) (ns : Scope) (key : String) : Option Job :=
  ((s.unique.find (ns, key)).bind fun pointer => loadJob s pointer.jobId).filter fun job =>
    job.status = .pending || job.status = .running

/-- `enqueue_unique_reporting`: the flag says the job was there already.  The
check script drops a pointer that leads nowhere, whatever becomes of the
enqueue. -/
def enqueueUnique (s : Store) (new : NewJob) (id : String) (now : Int) :
    Result (Job × Bool) × Store :=
  match new.uniqueKey with
  | none =>
    match enqueue s new id now with
    | .ok (job, s') => (.ok (job, false), s')
    | .error e => (.error e, s)
  | some key =>
    match activeDuplicate s new.namespace key with
    | some job => (.ok (job, true), s)
    | none =>
      let s := s.exec [.delUnique new.namespace key]
      let job := new.intoJob id now
      match validateDepIds s new.dependsOn job.namespace [] with
      | .error e => (.error e, s)
      | .ok () => (.ok (job, false), s.exec (insertOps job new.dependsOn ++
          [.setUnique ⟨job.namespace, key, job.id⟩]))

/-! ## Debounced enqueue -/

/-- `DEBOUNCE_SCAN` over the index members still to look at: the first
pending job nobody has claimed.  Entries that lead nowhere are dropped. -/
def debounceScan (index : ZKey) : Store → List String → Option Job × Store
  | s, [] => (none, s)
  | s, id :: ids =>
    match loadJob s id with
    | none => debounceScan index (s.exec [.zrem index id]) ids
    | some job =>
      if job.status ≠ .pending then debounceScan index (s.exec [.zrem index id]) ids
      else if (s.claims.find id).isSome then debounceScan index s ids
      else (some job, s)

def resolveDebounceTarget (s : Store) (index : ZKey) : Option Job × Store :=
  debounceScan index s (((s.zsets.zrange index).map Scored.member).take debounceCandidateScan)

/-- `slide_debounce_target`, with nobody in between. -/
def slideDebounceTarget (s : Store) (target job : Job) (options : DebounceOptions) : Job × Store :=
  let slid := target.slid job options
  (slid, s.exec [.setJob slid,
    .zadd (.pending slid.queue) slid.id (dequeueScore slid.priority slid.scheduledAt)])

def countPendingByQueue (s : Store) (queue : String) : Int :=
  ((s.sets.smembers (.byQueue queue)).filter fun id =>
    s.sets.sismember (.status .pending) id).length

/-- `insert_debounced`, with nobody in between. -/
def insertDebounced (s : Store) (job : Job) (dependsOn : List String) (maxPending : Option Int) :
    Result Job × Store :=
  let pending := countPendingByQueue s job.queue
  match maxPending.filter fun cap => 0 ≤ cap && cap < pending + 1 with
  | some cap => (.error (.queueFull job.queue pending cap), s)
  | none => (.ok job, s.exec (insertOps job dependsOn))

/-- `enqueue_debounced`: a call that finds a window open slides the job that
opened it, and leaves its own dependencies unread. -/
def enqueueDebounced (s : Store) (new : NewJob) (options : DebounceOptions) (id : String)
    (now : Int) : Result Job × Store :=
  match validatedDebounceKey new options with
  | .error e => (.error e, s)
  | .ok key =>
    let job := new.intoWindow options id now
    match resolveDebounceTarget s (.debounce job.namespace key) with
    | (some target, s) =>
      let (slid, s) := slideDebounceTarget s target job options
      (.ok slid, s)
    | (none, s) =>
      match validateDepIds s new.dependsOn job.namespace [] with
      | .error e => (.error e, s)
      | .ok () => insertDebounced s job new.dependsOn options.maxPending

/-! ## Cancelling -/

/-- `get_dependents`, unscoped. -/
def getDependents (s : Store) (id : String) : List String := s.sets.smembers (.dependents id)

def cancelEach (error : String) (scope : Scope) (now : Int) : Store → List String → List Job × Store
  | s, [] => ([], s)
  | s, id :: ids =>
    match (getJob s id scope).filter (fun job => job.status = .pending) with
    | some job =>
      let gone := job.finish .cancelled now (some error)
      let (rest, s) := cancelEach error scope now
        (archiveJobImmediately s gone job.status now) ids
      (gone :: rest, s)
    | none => cancelEach error scope now s ids

def cascadeCancel (s : Store) (failedJobId reason : String) (scope : Scope) (now : Int) :
    List Job × Store :=
  let search := (Search.start failedJobId).expandAll (getDependents s) (s.sets.rows.length + 1)
  cancelEach (reason ++ ": " ++ failedJobId) scope now s search.found

def cancelJob (s : Store) (id : String) (scope : Scope) (now : Int) : (Bool × List Job) × Store :=
  match (getJob s id scope).filter (fun job => job.status = .pending) with
  | none => ((false, []), s)
  | some job =>
    let gone := { job with status := .cancelled, completedAt := some now }
    let (cascaded, s) := cascadeCancel (archiveJobImmediately s gone job.status now) id
      dependencyCancelled scope now
    ((true, cascaded), s)

end FlexiQ.Redis
