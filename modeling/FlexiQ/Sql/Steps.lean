/-
# `Sql.Steps` — the fence, and the write that commits a step

`storage/diesel_common/steps.rs`.  `resolveAttemptFence` decides whether a
writer that names `(owner, attempt, epoch)` still speaks for the job;
`recordStepResult` commits one step behind it.

`recordStepResult_new` is the half the replay argument rests on: a commit
at the next free position under an unused key is refused only by the fence
or by a cap — never as a divergence — and appends exactly one row.
-/
import FlexiQ.Sql.Store
import Mathlib.Data.List.Sort

namespace FlexiQ.Sql

open FlexiQ.Lib FlexiQ.Step

structure StepLimits where
  maxStepBytes : Nat
  maxTotalBytes : Nat
  maxSteps : Nat
  deriving DecidableEq, Repr

def maxStepsCeiling : Nat := 100000

/-- `StepLimits::clamped`: every cap brought inside its hard ceiling. -/
def StepLimits.clamped (limits : StepLimits) : StepLimits where
  maxStepBytes := min limits.maxStepBytes (1024 * 1024)
  maxTotalBytes := min limits.maxTotalBytes (64 * 1024 * 1024)
  maxSteps := min limits.maxSteps maxStepsCeiling

/-- `epochs_agree`: an absent epoch is evidence of nothing. -/
def epochsAgree (claim result : Option Int) : Bool :=
  match claim, result with
  | some claim, some result => claim == result
  | _, _ => true

/-- `resolve_attempt_fence`: the job's namespace, and the store with the
claim put back when `reassert` finds none. -/
def resolveAttemptFence (s : Store) (jobId owner : String) (attempt : Int) (epoch : Option Int)
    (scope : Scope) (reassert : Bool) (now : Int) :
    Result (Option String × Store) :=
  match s.jobs.find jobId with
  | none => .error (.claimLost jobId)
  | some job =>
    if !visibleIn scope job.namespace || job.status ≠ .running || job.retryCount ≠ attempt then
      .error (.claimLost jobId)
    else
      match s.claims.find jobId with
      | some claim =>
        if claim.workerId = owner then
          if epochsAgree claim.epoch epoch then .ok (job.namespace, s)
          else .error (.claimLost jobId)
        else .error (.claimLost jobId)
      | none =>
        if reassert then
          match s.claims.insert ⟨jobId, owner, now, epoch, none⟩ with
          | some claims => .ok (job.namespace, { s with claims := claims })
          | none => .error .storage
        else .ok (job.namespace, s)

structure NewJobStep where
  jobId : String
  seq : Int
  stepKey : String
  kind : StepKind
  result : Option Bytes
  deriving DecidableEq, Repr

inductive StepCommit
  | committed
  | alreadyCommitted
  deriving DecidableEq, Repr

def stepsOf (s : Store) (jobId : String) : List StepRow :=
  s.steps.filter (fun row => row.jobId = jobId)

/-- `step_totals`: rows committed, and the bytes they hold. -/
def stepTotals (s : Store) (jobId : String) : Nat × Nat :=
  ((stepsOf s jobId).length, ((stepsOf s jobId).map StepRow.resultLen).sum)

/-- `check_step_position`: an unused key, at the next free position. -/
def checkStepPosition (s : Store) (jobId : String) (seq : Int) (stepKey : String)
    (committed : Nat) : Result Unit :=
  match (stepsOf s jobId).find? (fun row => row.stepKey = stepKey) with
  | some row =>
    .error (.stepDiverged jobId seq "an unused step key"
      ("'" ++ stepKey ++ "', already committed at position " ++ toString row.seq))
  | none =>
    if seq ≠ committed then
      .error (.stepDiverged jobId seq ("position " ++ toString committed)
        ("position " ++ toString seq))
    else .ok ()

def checkStepCount (committed : Nat) (stepKey : String) (limits : StepLimits) : Result Unit :=
  if limits.maxSteps < committed + 1 then
    .error (.stepLimitExceeded stepKey "step count" (committed + 1) limits.maxSteps)
  else .ok ()

/-- `insert_step_row`, refused by either unique index. -/
def insertStepRow (s : Store) (step : NewJobStep) (jobNamespace : Option String)
    (wakeAt : Option Int) (now : Int) : Result Store :=
  if (stepsOf s step.jobId).any
      (fun row => row.seq = step.seq || row.stepKey = step.stepKey) then
    .error .storage
  else
    .ok { s with
      steps := s.steps ++
        [{ jobId := step.jobId
           «namespace» := jobNamespace
           stepKey := step.stepKey
           seq := step.seq
           kind := step.kind
           result := step.result
           resultLen := (step.result.getD []).length
           wakeAt := wakeAt
           createdAt := now }] }

/-- `get_job_steps`: the committed steps, ordered by `seq`. -/
def getJobSteps (s : Store) (jobId : String) (scope : Scope) : List JobStep :=
  (((stepsOf s jobId).filter (fun row => visibleIn scope row.namespace)).insertionSort
    (fun a b => a.seq ≤ b.seq)).map StepRow.toJobStep

/-- `record_step_result`: commit one step, fenced on the execution claim. -/
def recordStepResult (s : Store) (step : NewJobStep) (owner : String) (attempt : Int)
    (epoch : Option Int) (limits : StepLimits) (scope : Scope) (now : Int) :
    Result (StepCommit × Store) :=
  let limits := limits.clamped
  let payload := step.result.getD []
  if limits.maxStepBytes < payload.length then
    .error (.stepLimitExceeded step.stepKey "step bytes" payload.length limits.maxStepBytes)
  else do
    let (jobNamespace, s) ← resolveAttemptFence s step.jobId owner attempt epoch scope true now
    match (stepsOf s step.jobId).find? (fun row => row.seq = step.seq) with
    | some stored =>
      if stored.stepKey ≠ step.stepKey ∨ stored.kind ≠ step.kind then
        throw (.stepDiverged step.jobId step.seq
          ("a " ++ stored.kind.asStr ++ " step '" ++ stored.stepKey ++ "'")
          ("a " ++ step.kind.asStr ++ " step '" ++ step.stepKey ++ "'"))
      else if stored.result.getD [] = payload then return (.alreadyCommitted, s)
      else
        throw (.stepDiverged step.jobId step.seq
          ("the stored result of '" ++ stored.stepKey ++ "'")
          "a different result for the same step")
    | none =>
      let (committed, storedBytes) := stepTotals s step.jobId
      checkStepPosition s step.jobId step.seq step.stepKey committed
      checkStepCount committed step.stepKey limits
      let total := storedBytes + payload.length
      if limits.maxTotalBytes < total then
        throw (.stepLimitExceeded step.stepKey "total bytes" total limits.maxTotalBytes)
      else
        let s ← insertStepRow s step jobNamespace none now
        return (.committed, s)

inductive SleepOutcome
  | slept (wakeAt : Int)
  | alreadySleeping (wakeAt : Int)
  deriving DecidableEq, Repr

def SleepOutcome.wakeAt : SleepOutcome → Int
  | .slept wakeAt => wakeAt
  | .alreadySleeping wakeAt => wakeAt

/-- The step row of a sleep.  A replayed sleep keeps the deadline of its
first commit. -/
def commitSleep (s : Store) (step : NewJobStep) (jobNamespace : Option String) (wakeAt : Int)
    (limits : StepLimits) (now : Int) : Result (SleepOutcome × Store) :=
  match (stepsOf s step.jobId).find? (fun row => row.seq = step.seq) with
  | some stored =>
    if stored.stepKey ≠ step.stepKey ∨ stored.kind ≠ .sleep then
      .error (.stepDiverged step.jobId step.seq
        ("a " ++ stored.kind.asStr ++ " step '" ++ stored.stepKey ++ "'")
        ("a sleep step '" ++ step.stepKey ++ "'"))
    else
      match stored.wakeAt with
      | some deadline => .ok (.alreadySleeping deadline, s)
      | none =>
        .error (.stepDiverged step.jobId step.seq "a sleep step with a deadline"
          ("'" ++ stored.stepKey ++ "' with none"))
  | none => do
    checkStepPosition s step.jobId step.seq step.stepKey (stepTotals s step.jobId).1
    checkStepCount (stepTotals s step.jobId).1 step.stepKey limits
    let s ← insertStepRow s step jobNamespace (some wakeAt) now
    return (.slept wakeAt, s)

/-- The claim released and the job rescheduled to its deadline. -/
def suspend (s : Store) (jobId : String) (outcome : SleepOutcome) : Result (SleepOutcome × Store) :=
  match s.jobs.find jobId with
  | some row =>
    if row.status = .running then
      .ok (outcome, { s with
        claims := s.claims.delete (fun claim => claim.jobId = jobId)
        jobs := s.jobs.update (fun r => r.id = jobId) fun r => r.pendingAt outcome.wakeAt })
    else .error (.claimLost jobId)
  | none => .error (.claimLost jobId)

/-- `sleep_job`: one transaction behind the fence. -/
def sleepJob (s : Store) (step : NewJobStep) (owner : String) (attempt : Int)
    (epoch : Option Int) (wakeAt : Int) (limits : StepLimits) (scope : Scope) (now : Int) :
    Result (SleepOutcome × Store) := do
  let (jobNamespace, s) ← resolveAttemptFence s step.jobId owner attempt epoch scope true now
  let (outcome, s) ← commitSleep s step jobNamespace wakeAt limits.clamped now
  suspend s step.jobId outcome

inductive AttemptFence
  | authorized
  | superseded
  deriving DecidableEq, Repr

/-- `authorize_attempt`: the fence, read rather than written. -/
def authorizeAttempt (s : Store) (jobId owner : String) (attempt : Int) (epoch : Option Int)
    (scope : Scope) : Result AttemptFence :=
  match resolveAttemptFence s jobId owner attempt epoch scope false 0 with
  | .ok _ => .ok .authorized
  | .error (.claimLost _) => .ok .superseded
  | .error e => .error e

/-! ## What the fence lets through -/

/-- The fence only ever touches the claim of its own job, and answers with
the namespace of the row it read. -/
theorem resolveAttemptFence_ok {s s' : Store} {jobId owner : String} {attempt : Int}
    {epoch scope ns : Option _} {reassert : Bool} {now : Int}
    (h : resolveAttemptFence s jobId owner attempt epoch scope reassert now = .ok (ns, s')) :
    (∃ job, s.jobs.find jobId = some job ∧ job.namespace = ns ∧ job.status = .running ∧
        job.retryCount = attempt) ∧
      ∃ claims, s' = { s with claims := claims } ∧
        ∀ k, k ≠ jobId → claims.find k = s.claims.find k := by
  unfold resolveAttemptFence at h
  cases hjob : s.jobs.find jobId with
  | none => simp [hjob] at h
  | some job =>
    simp only [hjob] at h
    split at h
    · cases h
    next hguard =>
    simp only [ne_eq, Bool.or_eq_true, decide_eq_true_eq, not_or, not_not] at hguard
    obtain ⟨⟨-, hrunning⟩, hattempt⟩ := hguard
    refine ⟨?_, ?_⟩
    · refine ⟨job, rfl, ?_, hrunning, hattempt⟩
      repeat' split at h
      all_goals cases h
      all_goals rfl
    · repeat' split at h
      all_goals cases h
      · exact ⟨s.claims, rfl, fun _ _ => rfl⟩
      · next claims hins =>
        refine ⟨claims, rfl, fun k hk => ?_⟩
        rw [Table.find_insert hins, if_neg (Ne.symm hk)]
      · exact ⟨s.claims, rfl, fun _ _ => rfl⟩

theorem resolveAttemptFence_error {s : Store} {jobId owner : String} {attempt : Int}
    {epoch scope : Option _} {reassert : Bool} {now : Int} {e : QueueError}
    (h : resolveAttemptFence s jobId owner attempt epoch scope reassert now = .error e) :
    e = .claimLost jobId ∨ e = .storage := by
  unfold resolveAttemptFence at h
  repeat' split at h
  all_goals cases h
  all_goals simp

/-! ## Committing new ground -/

def NewJobStep.row (step : NewJobStep) (ns : Scope) (now : Int) : StepRow where
  jobId := step.jobId
  «namespace» := ns
  stepKey := step.stepKey
  seq := step.seq
  kind := step.kind
  result := step.result
  resultLen := (step.result.getD []).length
  wakeAt := none
  createdAt := now

/-- Whether an error says that the running code and the stored sequence
disagree. -/
def diverged : QueueError → Bool
  | .stepDiverged .. => true
  | .stepSequenceDiverged _ => true
  | _ => false

/-- **A commit of new ground.**  At the next free position and under an
unused key, `record_step_result` is refused by the fence or a cap only, and
otherwise appends the one row. -/
theorem recordStepResult_new {s : Store} (step : NewJobStep) (owner : String) (attempt : Int)
    (epoch : Option Int) (limits : StepLimits) (scope : Scope) (now : Int)
    (hseq : ∀ row ∈ stepsOf s step.jobId, row.seq ≠ step.seq)
    (hkey : ∀ row ∈ stepsOf s step.jobId, row.stepKey ≠ step.stepKey)
    (hpos : step.seq = (stepsOf s step.jobId).length) :
    (∃ e, recordStepResult s step owner attempt epoch limits scope now = .error e ∧
        diverged e = false) ∨
      ∃ job claims, s.jobs.find step.jobId = some job ∧
        (stepsOf s step.jobId).length + 1 ≤ maxStepsCeiling ∧
        recordStepResult s step owner attempt epoch limits scope now =
          .ok (.committed,
            { s with claims := claims, steps := s.steps ++ [step.row job.namespace now] }) := by
  unfold recordStepResult
  by_cases hbytes : limits.clamped.maxStepBytes < (step.result.getD []).length
  · exact Or.inl ⟨_, by rw [if_pos hbytes], rfl⟩
  rw [if_neg hbytes]
  cases hf : resolveAttemptFence s step.jobId owner attempt epoch scope true now with
  | error e =>
    refine Or.inl ⟨e, rfl, ?_⟩
    rcases resolveAttemptFence_error hf with rfl | rfl <;> rfl
  | ok r =>
    obtain ⟨ns, s₁⟩ := r
    obtain ⟨⟨job, hjob, rfl, -, -⟩, claims, rfl, -⟩ := resolveAttemptFence_ok hf
    -- The fence left the step rows alone, so the position and the key are still free.
    have hrows : stepsOf { s with claims := claims } step.jobId = stepsOf s step.jobId := rfl
    have hstored : (stepsOf s step.jobId).find? (fun row => row.seq = step.seq) = none := by
      rw [List.find?_eq_none]
      simpa using hseq
    have hfree : (stepsOf s step.jobId).find? (fun row => row.stepKey = step.stepKey) = none := by
      rw [List.find?_eq_none]
      simpa using hkey
    have hinsert : (stepsOf s step.jobId).any
        (fun row => row.seq = step.seq || row.stepKey = step.stepKey) = false := by
      rw [List.any_eq_false]
      intro row hrow
      simp [hseq row hrow, hkey row hrow]
    have hposition : checkStepPosition { s with claims := claims } step.jobId step.seq
        step.stepKey (stepsOf s step.jobId).length = .ok () := by
      simp only [checkStepPosition, hrows, hfree, hpos, ne_eq, not_true_eq_false, if_false]
    simp only [bind, Except.bind, hrows, hstored, stepTotals, hposition, checkStepCount]
    by_cases hcount : limits.clamped.maxSteps < (stepsOf s step.jobId).length + 1
    · exact Or.inl ⟨_, by rw [if_pos hcount], rfl⟩
    rw [if_neg hcount]
    by_cases htotal : limits.clamped.maxTotalBytes <
        ((stepsOf s step.jobId).map StepRow.resultLen).sum + (step.result.getD []).length
    · exact Or.inl ⟨_, by rw [if_pos htotal]; rfl, rfl⟩
    rw [if_neg htotal]
    refine Or.inr ⟨job, claims, hjob, ?_, ?_⟩
    · have hle : limits.clamped.maxSteps ≤ maxStepsCeiling := Nat.min_le_right _ _
      omega
    · simp only [insertStepRow, hrows, hinsert, Bool.false_eq_true, if_false]
      rfl

end FlexiQ.Sql
