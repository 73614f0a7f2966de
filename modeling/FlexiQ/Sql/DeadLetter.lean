/-
# `Sql.DeadLetter` — into the dead-letter queue, and out of it

`storage/diesel_common/dead_letter.rs`.  `deadLetterIn` is the transaction
every dead-letter move shares.  The entry it writes is UNCONDITIONAL, the
archiving behind it is not: a job that is no longer live still leaves an
entry.  `retryDead` is two database calls, a read (`DeadRow` in hand) and
the transaction `resurrect`, whose delete must find the entry again.

JSON is a parameter (`Serde`): the moves only need to parse a blob and to
print an object.
-/
import FlexiQ.Sql.Cascade
import FlexiQ.Step.Idempotency

namespace FlexiQ.Sql

open FlexiQ.Lib FlexiQ.Step

/-- The reserved key that counts a run's resurrections. -/
def dlqRetryCountKey : String := "__dlq_retry_count"

/-- `as i32`. -/
def asI32 (n : Int) : Int := (n + 2 ^ 31) % 2 ^ 32 - 2 ^ 31

def dlqRetryCount (serde : Serde) (metadata : Option String) : Int :=
  asI32 (((metadata.bind serde.parse).bind fun json =>
    (json.get dlqRetryCountKey).bind Value.asI64).getD 0)

def deadLetterRow (serde : Serde) (job : Job) (error : String) (metadata : Option String)
    (shed : Bool) (id : String) (now : Int) : DeadRow where
  id := id
  originalJobId := job.id
  queue := job.queue
  taskName := job.taskName
  payload := job.payload
  error := some error
  retryCount := job.retryCount
  failedAt := now
  metadata := metadata <|> job.metadata
  notes := job.notes
  priority := job.priority
  maxRetries := job.maxRetries
  timeoutMs := job.timeoutMs
  resultTtlMs := job.resultTtlMs
  «namespace» := job.namespace
  dlqRetryCount := dlqRetryCount serde job.metadata
  shed := shed
  originJobId := some (runKey serde job)
  jobMetadata := metadata.bind fun _ => job.metadata
  enqueuedBy := job.enqueuedBy

/-- `dead_letter_in`: write the entry, and archive the job as `Dead` if it
is still live. -/
def deadLetterIn (serde : Serde) (s : Store) (job : Job) (error : String)
    (metadata : Option String) (shed : Bool) (id : String) (now : Int) :
    Result Store :=
  match s.dead.insert (deadLetterRow serde job error metadata shed id now) with
  | none => .error .storage
  | some dead =>
    match s.jobs.find job.id with
    | some row => archiveJobRow { s with dead := dead } (row.finish .dead now (some error))
    | none => .ok { s with dead := dead }

/-- `dead_letter`: the move, then the cascade. -/
def deadLetter (serde : Serde) (s : Store) (job : Job) (error : String)
    (metadata : Option String) (shed : Bool) (id : String) (now : Int) :
    Result (List Job × Store) := do
  let s ← deadLetterIn serde s job error metadata shed id now
  cascadeCancel s job.id dependencyFailed job.namespace now

/-- `shed_new_jobs`: each job inserted and dead-lettered in one
transaction, under the reason and the entry id at hand. -/
def shedNewJobs (serde : Serde) (s : Store) (metadata : Option String) (now : Int) :
    List (Job × String × String) → Result Store
  | [] => .ok s
  | (job, error, id) :: rest => do
    let job := { job with uniqueKey := none, debounceKey := none }
    let s ← insertJob s job
    let s ← deadLetterIn serde s job error metadata true id now
    shedNewJobs serde s metadata now rest

def retryMetadata (serde : Serde) (dead : DeadRow) : JsonMap :=
  let obj := match (dead.jobMetadata <|> dead.metadata).bind serde.parse with
    | some (.object obj) => obj
    | _ => .empty
  stampOriginJobId (obj.put dlqRetryCountKey (.int (asI32 (dead.dlqRetryCount + 1))))
    dead.originJobId dead.originalJobId

def retryNewJob (serde : Serde) (dead : DeadRow) (now : Int) : NewJob where
  queue := dead.queue
  taskName := dead.taskName
  payload := dead.payload
  priority := dead.priority
  scheduledAt := now
  maxRetries := dead.maxRetries
  timeoutMs := dead.timeoutMs
  uniqueKey := none
  metadata := some (serde.print (retryMetadata serde dead))
  notes := dead.notes
  dependsOn := []
  expiresAt := none
  resultTtlMs := dead.resultTtlMs
  «namespace» := dead.namespace
  debounceKey := none
  enqueuedBy := dead.enqueuedBy

/-- The transaction of `retry_dead`: insert the job, and find the entry
still there to delete. -/
def resurrect (s : Store) (dead : DeadRow) (job : Job) : Result Store := do
  let s ← insertJob s job
  match s.dead.find dead.id with
  | some _ => return { s with dead := s.dead.delete (fun row => row.id = dead.id) }
  | none => throw (.jobNotFound dead.id)

/-- `retry_dead` with nothing between its two calls. -/
def retryDead (serde : Serde) (s : Store) (deadId : String) (scope : Scope)
    (newId : String) (now : Int) : Result (Job × Store) :=
  match s.dead.find deadId with
  | none => .error (.jobNotFound deadId)
  | some dead =>
    if visibleIn scope dead.namespace then do
      let job := (retryNewJob serde dead now).intoJob newId now
      let s ← resurrect s dead job
      return (job, s)
    else .error (.jobNotFound deadId)

def deleteDead (s : Store) (deadId : String) (scope : Scope) : Bool × Store :=
  match s.dead.find deadId with
  | some row =>
    if visibleIn scope row.namespace then
      (true, { s with dead := s.dead.delete (fun r => r.id = deadId) })
    else (false, s)
  | none => (false, s)

/-- One batch of a sweep that deletes the entries matching `p`. -/
def purgeDeadWhere (s : Store) (p : DeadRow → Bool) : Store :=
  let ids := ((s.dead.rows.filter p).take purgeBatch).map DeadRow.id
  { s with dead := s.dead.delete (fun row => row.id ∈ ids) }

/-- `purge_dead`, one batch. -/
def purgeDead (s : Store) (olderThanMs : Int) (scope : Scope) : Store :=
  purgeDeadWhere s fun row => row.failedAt < olderThanMs && visibleIn scope row.namespace

end FlexiQ.Sql
