/-
# `Sql.Store` — the tables of the SQL backends

The tables of `storage/schema.rs` that the modelled calls read or write.
SQLite and Postgres share the statements (`storage/diesel_common`), so one
`Store` stands for both; a write transaction is a function from the store
to the store it commits, and an error means the store is unchanged.
-/
import FlexiQ.Lib.Table
import FlexiQ.Step.Sequence

namespace FlexiQ.Sql

open FlexiQ.Lib FlexiQ.Step

structure ClaimRow where
  jobId : String
  workerId : String
  claimedAt : Int
  epoch : Option Int
  settleDeadlineMs : Option Int
  deriving DecidableEq, Repr

/-- A row of `job_dependencies`: `jobId` waits for `dependsOnJobId`. -/
structure Edge where
  jobId : String
  dependsOnJobId : String
  deriving DecidableEq, Repr

structure StepRow where
  jobId : String
  «namespace» : Scope
  stepKey : String
  seq : Int
  kind : StepKind
  result : Option Bytes
  resultLen : Nat
  wakeAt : Option Int
  createdAt : Int
  deriving DecidableEq, Repr

/-- `From<JobStepRow> for JobStep`. -/
def StepRow.toJobStep (row : StepRow) : JobStep where
  jobId := row.jobId
  seq := row.seq
  stepKey := row.stepKey
  kind := row.kind
  result := row.result
  wakeAt := row.wakeAt
  createdAt := row.createdAt

structure DeadRow where
  id : String
  originalJobId : String
  queue : String
  taskName : String
  payload : Bytes
  error : Option String
  retryCount : Int
  failedAt : Int
  metadata : Option String
  notes : Option String
  priority : Int
  maxRetries : Int
  timeoutMs : Int
  resultTtlMs : Option Int
  «namespace» : Scope
  dlqRetryCount : Int
  shed : Bool
  originJobId : Option String
  jobMetadata : Option String
  enqueuedBy : Option String
  deriving DecidableEq, Repr

structure Store where
  jobs : Table String Job Job.id
  archived : Table String Job Job.id
  edges : List Edge
  claims : Table String ClaimRow ClaimRow.jobId
  steps : List StepRow
  dead : Table String DeadRow DeadRow.id
  deriving DecidableEq

def Store.empty : Store where
  jobs := .empty
  archived := .empty
  edges := []
  claims := .empty
  steps := []
  dead := .empty

end FlexiQ.Sql
