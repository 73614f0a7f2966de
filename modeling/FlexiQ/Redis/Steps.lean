/-
# `Redis.Steps` — durable steps in one hash per job

`redis_backend/steps.rs`.  Every write is one script: the fence first, then
the checks, then the fields of the hash.  A gap is found by asking for the
PREDECESSOR of a position, where the SQL backends count rows, and the byte
total is a field that the script keeps.

`sleep_job` is a loop of a read, a second read and a script that checks what
was read: the job document the script writes carries the deadline, and on a
replay the deadline is the stored one.
-/
import FlexiQ.Redis.Claims

namespace FlexiQ.Redis

open FlexiQ.Lib FlexiQ.Step FlexiQ.Sql

def ttlGraceMs : Int := 7 * 24 * 60 * 60 * 1000

/-! ## The hash -/

/-- What a script sees where there is no hash yet. -/
def StepHash.blank (jobId : String) : StepHash where
  jobId := jobId
  rows := []
  keys := []
  total := none
  wake := none
  ns := none
  expiresAt := 0

def stepHash (s : Store) (jobId : String) : StepHash :=
  (s.steps.find jobId).getD (.blank jobId)

/-- `HGET steps <seq>`. -/
def StepHash.row (hash : StepHash) (seq : Int) : Option StepField :=
  hash.rows.find? (fun f => f.seq = seq)

/-- `HGET steps k:<step_key>`. -/
def StepHash.keyAt (hash : StepHash) (stepKey : String) : Option Int :=
  (hash.keys.find? (fun e => e.1 = stepKey)).map Prod.snd

/-- The `PEXPIREAT` both scripts end with. -/
def StepHash.refreshed (hash : StepHash) (now : Int) : StepHash :=
  { hash with expiresAt := max now (hash.wake.getD 0) + ttlGraceMs }

/-- A new row: its field, its key, and the namespace if there is none yet. -/
def StepHash.add (hash : StepHash) (field : StepField) (jobNs : String) : StepHash :=
  { hash with
    rows := hash.rows ++ [field]
    keys := hash.keys ++ [(field.doc.stepKey, field.seq)]
    ns := hash.ns <|> some jobNs }

def encodeDoc (step : NewJobStep) (wakeAt : Option Int) : StepDoc where
  stepKey := step.stepKey
  kind := step.kind
  result := step.result
  wakeAt := wakeAt

/-- `decode_step`. -/
def StepField.toJobStep (jobId : String) (f : StepField) : JobStep where
  jobId := jobId
  seq := f.seq
  stepKey := f.doc.stepKey
  kind := f.doc.kind
  result := f.doc.result
  wakeAt := f.doc.wakeAt
  createdAt := f.createdAt

def getJobSteps (s : Store) (jobId : String) (scope : Scope) : List JobStep :=
  match s.steps.find jobId with
  | none => []
  | some hash =>
    if scope.isSome && hash.ns ≠ scope then []
    else (hash.rows.insertionSort (fun a b => a.seq ≤ b.seq)).map (StepField.toJobStep jobId)

/-! ## What the scripts reply -/

inductive StepReply
  | ok
  | already
  | retry
  | claimLost
  | diverged (kind : StepKind) (stepKey : String)
  | divergedResult (stepKey : String)
  | keyTaken (seq : Int)
  | gap
  | tooMany (steps : Int)
  | tooBig (total : Nat)
  deriving DecidableEq, Repr

def stepReplyError (step : NewJobStep) (limits : StepLimits) : StepReply → QueueError
  | .claimLost => .claimLost step.jobId
  | .diverged kind stepKey =>
    .stepDiverged step.jobId step.seq ("a " ++ kind.asStr ++ " step '" ++ stepKey ++ "'")
      ("a " ++ step.kind.asStr ++ " step '" ++ step.stepKey ++ "'")
  | .divergedResult stepKey =>
    .stepDiverged step.jobId step.seq ("the stored result of '" ++ stepKey ++ "'")
      "a different result for the same step"
  | .keyTaken seq =>
    .stepDiverged step.jobId step.seq "an unused step key"
      ("'" ++ step.stepKey ++ "', already committed at position " ++ toString seq)
  | .gap =>
    .stepDiverged step.jobId step.seq "the next unused position"
      ("position " ++ toString step.seq)
  | .tooMany steps =>
    .stepLimitExceeded step.stepKey "step count" steps.toNat limits.maxSteps
  | .tooBig total => .stepLimitExceeded step.stepKey "total bytes" total limits.maxTotalBytes
  | .ok => .other ("unexpected step reply for job " ++ step.jobId ++ ": ok")
  | .already => .other ("unexpected step reply for job " ++ step.jobId ++ ": already")
  | .retry => .other ("unexpected step reply for job " ++ step.jobId ++ ": retry")

def checkNewRow (hash : StepHash) (step : NewJobStep) (maxSteps : Nat) : Option StepReply :=
  match hash.keyAt step.stepKey with
  | some taken => some (.keyTaken taken)
  | none =>
    if 0 < step.seq ∧ hash.row (step.seq - 1) = none then some .gap
    else if (maxSteps : Int) < step.seq + 1 then some (.tooMany (step.seq + 1))
    else none

/-! ## Committing a step -/

/-- `record_step_script`, behind the fence. -/
def recordStep (s : Store) (step : NewJobStep) (jobNs : String) (limits : StepLimits)
    (now : Int) : StepReply × Store :=
  let hash := stepHash s step.jobId
  let doc := encodeDoc step none
  match hash.row step.seq with
  | some stored =>
    if stored.doc = doc then (.already, s)
    else if stored.doc.stepKey ≠ step.stepKey ∨ stored.doc.kind ≠ step.kind then
      (.diverged stored.doc.kind stored.doc.stepKey, s)
    else (.divergedResult stored.doc.stepKey, s)
  | none =>
    match checkNewRow hash step limits.maxSteps with
    | some reply => (reply, s)
    | none =>
      let grown := hash.total.getD 0 + (step.result.getD []).length
      if limits.maxTotalBytes < grown then (.tooBig grown, s)
      else
        let hash := { (hash.add ⟨step.seq, now, doc⟩ jobNs) with total := some grown }
        (.ok, s.exec [.setSteps (hash.refreshed now)])

section

variable (s : Store) (step : NewJobStep) (owner : String) (attempt : Int) (epoch : Option Int)
  (limits : StepLimits) (scope : Scope) (now : Int)

def recordStepScript : StepReply × Store :=
  match fence s step.jobId owner attempt epoch scope true now with
  | none => (.claimLost, s)
  | some (jobNs, s) => recordStep s step jobNs limits now

def recordStepResult : Result StepCommit × Store :=
  let limits := limits.clamped
  let payload := step.result.getD []
  if limits.maxStepBytes < payload.length then
    (.error (.stepLimitExceeded step.stepKey "step bytes" payload.length limits.maxStepBytes), s)
  else
    match recordStepScript s step owner attempt epoch limits scope now with
    | (.ok, s) => (.ok .committed, s)
    | (.already, s) => (.ok .alreadyCommitted, s)
    | (reply, s) => (.error (stepReplyError step limits reply), s)

end

/-! ## Sleeping -/

/-- The row half of `sleep_job_script`, behind the fence: the hash with the
sleep's row in it.  `stored` says whether the caller has read a row here, and
`deadline` is the deadline it means to reschedule to. -/
def sleepRow (hash : StepHash) (step : NewJobStep) (jobNs : String) (limits : StepLimits)
    (stored : Bool) (deadline now : Int) : Except StepReply StepHash :=
  match hash.row step.seq, stored with
  | none, true => .error .retry
  | some row, true =>
    if row.doc.stepKey ≠ step.stepKey ∨ row.doc.kind ≠ .sleep then
      .error (.diverged row.doc.kind row.doc.stepKey)
    else if row.doc.wakeAt.map asF64 ≠ some (asF64 deadline) then .error .retry
    else .ok hash
  | some _, false => .error .retry
  | none, false =>
    match checkNewRow hash step limits.maxSteps with
    | some reply => .error reply
    | none =>
      let hash := hash.add ⟨step.seq, now, encodeDoc step (some deadline)⟩ jobNs
      .ok { hash with
        wake := if hash.wake.getD 0 < deadline then some deadline else hash.wake }

/-- The job half: back to `Pending` at the deadline, the claim released.
`old` is the document the new one was made from. -/
def suspendOps (old : Job) (deadline : Int) : List Cmd :=
  let again := old.pendingAt deadline
  [.setJob again,
    .srem (.status old.status) old.id,
    .sadd (.status .pending) old.id,
    .zadd (.pending old.queue) old.id (dequeueScore old.priority deadline),
    .delClaim old.id,
    .zrem .claimsByTime old.id] ++
  (jobDebounceIndexKey again).toList.map fun key => .zadd key old.id (asF64 old.createdAt)

/-- `sleep_job_script`. -/
def sleepScript (s : Store) (step : NewJobStep) (owner : String) (attempt : Int)
    (epoch : Option Int) (limits : StepLimits) (scope : Scope) (old : Job)
    (stored : Bool) (deadline now : Int) : StepReply × Store :=
  match fence s step.jobId owner attempt epoch scope true now with
  | none => (.claimLost, s)
  | some (jobNs, s) =>
    match sleepRow (stepHash s step.jobId) step jobNs limits stored deadline now with
    | .error reply => (reply, s)
    | .ok hash =>
      (.ok, s.exec (.setSteps (hash.refreshed now) :: suspendOps old deadline))

/-- `stored_sleep`, of the row it reads. -/
def storedSleep (step : NewJobStep) (row : Option StepField) : Result (Option Int) :=
  match row with
  | none => .ok none
  | some row =>
    if row.doc.kind ≠ .sleep ∨ row.doc.stepKey ≠ step.stepKey then
      .error (.stepDiverged step.jobId step.seq
        ("a " ++ row.doc.kind.asStr ++ " step '" ++ row.doc.stepKey ++ "'")
        ("a sleep step '" ++ step.stepKey ++ "'"))
    else
      match row.doc.wakeAt with
      | some wakeAt => .ok (some wakeAt)
      | none =>
        .error (.stepDiverged step.jobId step.seq "a sleep step with a deadline"
          ("'" ++ row.doc.stepKey ++ "' with none"))

section

variable (s : Store) (step : NewJobStep) (owner : String) (attempt : Int) (epoch : Option Int)
  (wakeAt : Int) (limits : StepLimits) (scope : Scope) (now : Int)

/-- One round of `sleep_job`, with nobody in between. -/
def sleepRound : Result (Option SleepOutcome) × Store :=
  match storedSleep step ((stepHash s step.jobId).row step.seq) with
  | .error e => (.error e, s)
  | .ok stored =>
    match getJobRequiredIn s step.jobId scope with
    | .error e => (.error e, s)
    | .ok job =>
      let deadline := stored.getD wakeAt
      match sleepScript s step owner attempt epoch limits scope job stored.isSome deadline now with
      | (.ok, s) =>
        (.ok (some (if stored.isSome then .alreadySleeping deadline else .slept deadline)), s)
      | (.retry, s) => (.ok none, s)
      | (reply, s) => (.error (stepReplyError step limits reply), s)

/-- `sleep_job`, with nobody in between: up to three rounds. -/
def sleepJob : Result SleepOutcome × Store :=
  go 3 s
where
  go : Nat → Store → Result SleepOutcome × Store
    | 0, s => (.error (.other ("sleep for job " ++ step.jobId ++
        " could not settle on a deadline")), s)
    | rounds + 1, s =>
      match sleepRound s step owner attempt epoch wakeAt limits.clamped scope now with
      | (.error e, s) => (.error e, s)
      | (.ok (some outcome), s) => (.ok outcome, s)
      | (.ok none, s) => go rounds s

end

end FlexiQ.Redis
