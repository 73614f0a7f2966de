/-
# `Step.Session` — one attempt's step store

`step/session.rs`: the rules of `StepSequence` driven against the SQL store.
A session reads the job's committed steps ONCE, when it opens, and answers
every `step.run` from that snapshot; a new step is run, then committed
behind the `(owner, attempt, epoch)` fence.

`StepSession.run` is the source's function.  `StepSession.call` is the same
call in a process that may die inside it, at one of the three points where
dying can matter; `run_eq_call` says that without a crash it is `run`.
-/
import FlexiQ.Sql.Steps

namespace FlexiQ.Step

open FlexiQ.Sql

/-- `StorageSteps`: the claim the session's writes are fenced on. -/
structure StorageSteps where
  owner : String
  attempt : Int
  epoch : Option Int
  deriving DecidableEq, Repr

/-- `StepSession`.  `runKey` is the id the durable run began under. -/
structure StepSession where
  steps : StorageSteps
  jobId : String
  runKey : String
  «namespace» : Scope
  limits : StepLimits
  sequence : StepSequence

def idempotencyKey (runKey stepKey : String) : String :=
  runKey ++ ":" ++ stepKey

/-- **Two steps share a downstream key only if they are one step of one run.**
The first `:` ends the run key, whatever a pinned key may hold. -/
theorem idempotencyKey_eq_iff {run run' name name' k k' : String} {tag tag' : String ⊕ Nat}
    (hrun : ':' ∉ run.toList) (hrun' : ':' ∉ run'.toList) (hk : stepKey name tag = .ok k)
    (hk' : stepKey name' tag' = .ok k') :
    idempotencyKey run k = idempotencyKey run' k' ↔ run = run' ∧ name = name' ∧ tag = tag' := by
  obtain ⟨hname, rfl⟩ := stepKey_ok hk
  obtain ⟨hname', rfl⟩ := stepKey_ok hk'
  constructor
  · intro h
    have htext := congrArg String.toList h
    simp only [idempotencyKey, String.toList_append, List.append_assoc] at htext
    obtain ⟨hruns, hkeys⟩ := Lib.cut htext hrun hrun'
    exact ⟨String.toList_injective hruns,
      stepKeyOf_injective hname hname' (String.toList_injective hkeys)⟩
  · rintro ⟨rfl, rfl, rfl⟩
    rfl

/-- A key pinned to what another step is called. -/
theorem pinned_key_apart :
    idempotencyKey "r" "charge:refund#0" ≠ idempotencyKey "r" "refund#0" := by
  have hpinned : stepKey "charge" (.inl "refund#0") = .ok "charge:refund#0" := rfl
  have hnumbered : stepKey "refund" (.inr 0) = .ok "refund#0" := rfl
  rw [ne_eq, idempotencyKey_eq_iff (by decide) (by decide) hpinned hnumbered]
  decide

namespace StepSession

/-- `StepSession::open`: load the committed steps and take the snapshot. -/
def «open» (s : Store) (steps : StorageSteps) (job : Job) (runKey : String)
    (limits : StepLimits) : Result StepSession := do
  let sequence ← StepSequence.new job.id (getJobSteps s job.id job.namespace)
  return {
    steps := steps
    jobId := job.id
    runKey := runKey
    «namespace» := job.namespace
    limits := limits
    sequence := sequence }

/-- `check_caps`: refuse an over-cap commit before the round trip. -/
def checkCaps (sess : StepSession) (pending : PendingStep) (encoded : Bytes) : Result Unit :=
  let limits := sess.limits.clamped
  let steps := sess.sequence.storedCount + 1
  let bytes := sess.sequence.storedBytes + encoded.length
  if limits.maxStepBytes < encoded.length then
    .error (.stepLimitExceeded pending.stepKey "step bytes" encoded.length limits.maxStepBytes)
  else if limits.maxSteps < steps then
    .error (.stepLimitExceeded pending.stepKey "step count" steps limits.maxSteps)
  else if limits.maxTotalBytes < bytes then
    .error (.stepLimitExceeded pending.stepKey "total bytes" bytes limits.maxTotalBytes)
  else .ok ()

def beginRun (sess : StepSession) (name : String) (key : Option String) :
    Result (StepDecision × StepSession) := do
  let (decision, sequence) ← sess.sequence.beginRun name key
  return (decision, { sess with sequence := sequence })

/-- `commit_run`: the sequence moves on only after storage has the row. -/
def commitRun (sess : StepSession) (s : Store) (pending : PendingStep) (encoded : Bytes)
    (now : Int) : Result (StepCommit × StepSession × Store) := do
  sess.checkCaps pending encoded
  let step : NewJobStep :=
    { jobId := sess.jobId
      seq := pending.seq
      stepKey := pending.stepKey
      kind := pending.kind
      result := some encoded }
  let (commit, s) ← recordStepResult s step sess.steps.owner sess.steps.attempt sess.steps.epoch
    sess.limits sess.namespace now
  let sequence ← sess.sequence.commit pending encoded.length
  return (commit, { sess with sequence := sequence }, s)

/-- `run`: run one step, or return what it returned last time. -/
def run (sess : StepSession) (s : Store) (name : String) (key : Option String)
    (body : String → Result Bytes) (now : Int) :
    Result (Bytes × StepSession × Store) := do
  let (decision, sess) ← sess.beginRun name key
  match decision with
  | .memoized _ result => return (result, sess, s)
  | .run pending =>
    let encoded ← body (idempotencyKey sess.runKey pending.stepKey)
    let (_, sess, s) ← sess.commitRun s pending encoded now
    return (encoded, sess, s)

end StepSession

/-! ## A call the process may die in -/

/-- Where a process can die inside a call that reached new ground. -/
inductive CrashPoint
  | beforeClosure
  | beforeCommit
  | afterCommit
  deriving DecidableEq, Repr

inductive Outcome
  | returned (bytes : Bytes)
  | failed (error : QueueError)
  | crashed
  deriving DecidableEq, Repr

/-- One call: whether its closure was called, what came back, and what the
call left behind. -/
structure CallResult where
  invoked : Bool
  outcome : Outcome
  session : StepSession
  store : Store

namespace StepSession

section

variable (sess : StepSession) (s : Store) (name : String) (key : Option String)
  (body : String → Result Bytes) (now : Int)

/-- `run` in a process that dies at `crash`, or not at all. -/
def call (crash : Option CrashPoint) : CallResult :=
  match sess.beginRun name key with
  | .error e => ⟨false, .failed e, sess, s⟩
  | .ok (.memoized _ result, sess) => ⟨false, .returned result, sess, s⟩
  | .ok (.run pending, sess) =>
    if crash = some .beforeClosure then ⟨false, .crashed, sess, s⟩
    else
      match body (idempotencyKey sess.runKey pending.stepKey) with
      | .error e => ⟨true, .failed e, sess, s⟩
      | .ok encoded =>
        if crash = some .beforeCommit then ⟨true, .crashed, sess, s⟩
        else
          match sess.commitRun s pending encoded now with
          | .error e => ⟨true, .failed e, sess, s⟩
          | .ok (_, sess, s) =>
            ⟨true, if crash = some .afterCommit then .crashed else .returned encoded, sess, s⟩

theorem run_eq_call : sess.run s name key body now =
      match (sess.call s name key body now none).outcome with
      | .returned bytes => .ok (bytes, (sess.call s name key body now none).session,
          (sess.call s name key body now none).store)
      | .failed e => .error e
      | .crashed => .error (.other "crashed") := by
  simp only [run, call, bind, Except.bind]
  cases sess.beginRun name key with
  | error e => rfl
  | ok r =>
    obtain ⟨decision, sess'⟩ := r
    cases decision with
    | memoized k result => rfl
    | run pending =>
      simp only [reduceCtorEq, if_false]
      cases body (idempotencyKey sess'.runKey pending.stepKey) with
      | error e => rfl
      | ok encoded =>
        simp only
        cases sess'.commitRun s pending encoded now with
        | error e => rfl
        | ok r => rfl

end

end StepSession

end FlexiQ.Step
