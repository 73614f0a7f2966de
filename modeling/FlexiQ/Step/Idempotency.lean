/-
# `Step.Idempotency` — the id a durable run began under

`step/idempotency.rs`.  A run keeps its key across the one boundary where a
job's id changes, an operator's retry of a dead letter: the resurrected job
carries the origin in its metadata, and `runKey` reads it back.
-/
import FlexiQ.Core.Json
import FlexiQ.Core.Job

namespace FlexiQ.Step

def originJobIdKey : String := "__origin_job_id"

/-- A blank origin is unusable. -/
def nonBlank (origin : String) : Option String :=
  if origin = "" then none else some origin

/-- `origin_job_id`: the stamped origin, if the metadata carries a usable
one. -/
def originJobId (serde : Serde) (metadata : Option String) : Option String := do
  let text ← metadata
  let parsed ← serde.parse text
  let value ← parsed.get originJobIdKey
  let origin ← value.asStr
  nonBlank origin

def runKey (serde : Serde) (job : Job) : String :=
  (originJobId serde job.metadata).getD job.id

/-- `stamp_origin_job_id`: the column, else the blob, else the job that
died. -/
def stampOriginJobId (metadata : JsonMap) (originColumn : Option String)
    (originalJobId : String) : JsonMap :=
  let carried := (metadata.get originJobIdKey).bind fun value => value.asStr.bind nonBlank
  let origin := ((originColumn.bind nonBlank).or carried).getD originalJobId
  metadata.put originJobIdKey (.str origin)

end FlexiQ.Step
