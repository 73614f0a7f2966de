/-
# `Backends.Superseded` — what a fenced-out attempt is told

An attempt whose claim went to another one must learn exactly that:
`classify_step_failure` turns `ClaimLost` into `Superseded`, and a superseded
attempt emits no result.

The fenced scripts and transactions answer `ClaimLost` before they look at
anything else.  `sleep_job` on Redis is more than its script: it reads the
row at its position and the job document FIRST, and fails on what it finds
there (`superseded_sleeper_misled`).
-/
import FlexiQ.Redis.Steps

namespace FlexiQ.Backends

open FlexiQ.Lib FlexiQ.Step

inductive StepFailure
  | retryable
  | permanent
  | superseded
  deriving DecidableEq, Repr

/-- `classify_step_failure`.  The only `storage` error of the model is a
violated constraint. -/
def classifyStepFailure : QueueError → StepFailure
  | .claimLost _ => .superseded
  | .stepDiverged .. | .stepSequenceDiverged _ | .stepLimitExceeded .. | .config _ | .storage =>
    .permanent
  | _ => .retryable

/-- What the two reads of a Redis `sleep_job` need to find: a live document
the caller may see, and at the position no row, or the sleep's own. -/
def SleepReads (s : Redis.Store) (step : Sql.NewJobStep) (scope : Scope) : Prop :=
  ((s.jobs.find step.jobId).any fun job => visibleIn scope job.namespace) = true ∧
    ((Redis.stepHash s step.jobId).row step.seq).all (fun row =>
      row.doc.kind = .sleep && row.doc.stepKey = step.stepKey && row.doc.wakeAt.isSome) = true
  deriving Decidable

theorem storedSleep_cases (step : Sql.NewJobStep) (row : Option Redis.StepField) :
    (∃ stored, Redis.storedSleep step row = .ok stored) ∧ row.all (fun row =>
      row.doc.kind = .sleep && row.doc.stepKey = step.stepKey && row.doc.wakeAt.isSome) = true ∨
    (∃ found expected, Redis.storedSleep step row =
      .error (.stepDiverged step.jobId step.seq found expected)) ∧ row.all (fun row =>
      row.doc.kind = .sleep && row.doc.stepKey = step.stepKey && row.doc.wakeAt.isSome) =
        false := by
  cases row with
  | none => exact .inl ⟨⟨none, rfl⟩, rfl⟩
  | some row =>
    unfold Redis.storedSleep
    by_cases hother : row.doc.kind ≠ .sleep ∨ row.doc.stepKey ≠ step.stepKey
    · refine .inr ⟨⟨_, _, if_pos hother⟩, ?_⟩
      rcases hother with h | h <;> simp [h]
    · obtain ⟨hkind, hkey⟩ := not_or.mp hother
      rw [not_not] at hkind hkey
      simp only [hkind, hkey, ne_eq, not_true_eq_false, or_self, if_false, Option.all_some]
      cases row.doc.wakeAt with
      | some wakeAt => exact .inl ⟨⟨_, rfl⟩, rfl⟩
      | none => exact .inr ⟨⟨_, _, rfl⟩, rfl⟩

theorem getJobRequiredIn_cases (s : Redis.Store) (id : String) (scope : Scope) :
    (∃ job, Redis.getJobRequiredIn s id scope = .ok job) ∧
      ((s.jobs.find id).any fun job => visibleIn scope job.namespace) = true ∨
    Redis.getJobRequiredIn s id scope = .error (.jobNotFound id) ∧
      ((s.jobs.find id).any fun job => visibleIn scope job.namespace) = false := by
  unfold Redis.getJobRequiredIn Redis.loadJob
  cases s.jobs.find id with
  | none => exact .inr ⟨rfl, rfl⟩
  | some job =>
    cases hvis : visibleIn scope job.namespace with
    | true => exact .inl ⟨⟨job, by simp [Option.filter, hvis, orError]⟩, by simp [hvis]⟩
    | false => exact .inr ⟨by simp [Option.filter, hvis, orError], by simp [hvis]⟩

section Sleep

variable {s : Redis.Store} {step : Sql.NewJobStep} {owner : String} {attempt wakeAt now : Int}
  {epoch : Option Int} {limits : Sql.StepLimits} {scope : Scope}

/-- The round of a fenced-out sleeper: the reads come first, and each has an
error of its own. -/
theorem sleepRound_fenced (wakeAt : Int) (limits : Sql.StepLimits)
    (hfence : Redis.fence s step.jobId owner attempt epoch scope true now = none) :
    ∃ e, Redis.sleepRound s step owner attempt epoch wakeAt limits scope now = (.error e, s) ∧
      (e = .claimLost step.jobId ↔ SleepReads s step scope) := by
  unfold Redis.sleepRound SleepReads
  rcases storedSleep_cases step ((Redis.stepHash s step.jobId).row step.seq) with
    ⟨⟨stored, hstored⟩, hrow⟩ | ⟨⟨found, expected, hstored⟩, hrow⟩
  · rw [hstored, hrow]
    rcases getJobRequiredIn_cases s step.jobId scope with ⟨⟨job, hget⟩, hlive⟩ | ⟨hget, hlive⟩
    · refine ⟨.claimLost step.jobId, ?_, by simp [hlive]⟩
      simp only [hget, Redis.sleepScript, hfence, Redis.stepReplyError]
    · exact ⟨.jobNotFound step.jobId, by simp only [hget], by simp [hlive]⟩
  · exact ⟨.stepDiverged step.jobId step.seq found expected, by simp only [hstored],
      by simp [hrow]⟩

theorem sleepJob_fenced
    (hfence : Redis.fence s step.jobId owner attempt epoch scope true now = none) :
    Redis.sleepJob s step owner attempt epoch wakeAt limits scope now =
      (.error (.claimLost step.jobId), s) ↔ SleepReads s step scope := by
  obtain ⟨e, hround, he⟩ := sleepRound_fenced wakeAt limits.clamped hfence
  unfold Redis.sleepJob Redis.sleepJob.go
  rw [hround, ← he]
  simp

end Sleep

/-- **When a fenced-out attempt learns that it is superseded.**  The step commit
and the sleep answer `ClaimLost` and change nothing — on Redis the sleep does
exactly if its two reads find nothing to fail on. -/
theorem superseded_attempt_learns (step : Sql.NewJobStep) (owner : String) (attempt : Int)
    (epoch : Option Int) (limits : Sql.StepLimits) (scope : Option String) (now : Int) :
    (∀ (s : Sql.Store),
      Sql.resolveAttemptFence s step.jobId owner attempt epoch scope true now =
        .error (.claimLost step.jobId) →
      ((step.result.getD []).length ≤ limits.clamped.maxStepBytes →
        Sql.recordStepResult s step owner attempt epoch limits scope now =
          .error (.claimLost step.jobId)) ∧
      ∀ wakeAt, Sql.sleepJob s step owner attempt epoch wakeAt limits scope now =
        .error (.claimLost step.jobId)) ∧
    (∀ (s : Redis.Store),
      Redis.fence s step.jobId owner attempt epoch scope true now = none →
      ((step.result.getD []).length ≤ limits.clamped.maxStepBytes →
        Redis.recordStepResult s step owner attempt epoch limits scope now =
          (.error (.claimLost step.jobId), s)) ∧
      ∀ wakeAt, Redis.sleepJob s step owner attempt epoch wakeAt limits scope now =
        (.error (.claimLost step.jobId), s) ↔ SleepReads s step scope) ∧
    ∀ jobId, classifyStepFailure (.claimLost jobId) = .superseded := by
  refine ⟨?_, ?_, fun _ => rfl⟩
  · intro s hfence
    refine ⟨fun hbytes => ?_, fun wakeAt => ?_⟩
    · unfold Sql.recordStepResult
      simp only [if_neg (Nat.not_lt.mpr hbytes), hfence]
      rfl
    · unfold Sql.sleepJob
      rw [hfence]
      rfl
  · intro s hfence
    refine ⟨fun hbytes => ?_, fun wakeAt => sleepJob_fenced hfence⟩
    unfold Redis.recordStepResult Redis.recordStepScript
    simp only [if_neg (Nat.not_lt.mpr hbytes), hfence, Redis.stepReplyError]

/-- The sleep a superseded attempt means to take. -/
def lateSleep : Sql.NewJobStep := ⟨"job", 0, "sleep#0", .sleep, none⟩

def runningJob : Job :=
  { (⟨"q", "task", [], 0, 0, 3, 1000, none, none, none, [], none, none, none, none, none⟩ :
      NewJob).intoJob "job" 0 with status := .running, retryCount := 1, startedAt := some 5 }

def movedOn : Redis.Store :=
  { Redis.Store.empty with
    jobs := ⟨[runningJob], by decide⟩
    steps := ⟨[⟨"job", [⟨0, 6, ⟨"charge#0", .run, some [1], none⟩⟩], [("charge#0", 0)], some 1,
      none, some "", 1000000000⟩], by decide⟩ }

def someCaps : Sql.StepLimits := ⟨1024, 4096, 10⟩

/-- A sleeping attempt is told of a divergence, which fails the job for good, or
`JobNotFound`, which retries it.  The fence refuses it both times. -/
theorem superseded_sleeper_misled :
    (Redis.fence movedOn "job" "w" 0 none none true 7 = none ∧
      (Redis.sleepJob movedOn lateSleep "w" 0 none 50 someCaps none 7).1.toOption = none ∧
      (match (Redis.sleepJob movedOn lateSleep "w" 0 none 50 someCaps none 7).1 with
        | .error e => classifyStepFailure e = .permanent
        | .ok _ => False)) ∧
    Redis.fence .empty "job" "w" 0 none none true 7 = none ∧
      (match (Redis.sleepJob .empty lateSleep "w" 0 none 50 someCaps none 7).1 with
        | .error e => e = .jobNotFound "job" ∧ classifyStepFailure e = .retryable
        | .ok _ => False) := by
  refine ⟨⟨by decide +kernel, by decide +kernel, ?_⟩, by decide +kernel, ?_⟩
  · rfl
  · exact ⟨rfl, rfl⟩

theorem first_attempt_learns :
    Redis.sleepJob { movedOn with steps := .empty } lateSleep "w" 0 none 50 someCaps none 7 =
        (.error (.claimLost "job"), { movedOn with steps := .empty }) ∧
      Redis.recordStepResult movedOn ⟨"job", 0, "fetch#0", .run, some [2]⟩ "w" 0 none someCaps
        none 7 = (.error (.claimLost "job"), movedOn) ∧
      Sql.recordStepResult .empty ⟨"job", 0, "fetch#0", .run, some [2]⟩ "w" 0 none someCaps none 7 =
        .error (.claimLost "job") :=
  ⟨(((superseded_attempt_learns lateSleep "w" 0 none someCaps none 7).2.1 _
      (by decide +kernel)).2 50).mpr (by decide +kernel),
    ((superseded_attempt_learns ⟨"job", 0, "fetch#0", .run, some [2]⟩ "w" 0 none someCaps
      none 7).2.1 movedOn (by decide +kernel)).1 (by decide),
    ((superseded_attempt_learns ⟨"job", 0, "fetch#0", .run, some [2]⟩ "w" 0 none someCaps
      none 7).1 .empty rfl).1 (by decide)⟩

end FlexiQ.Backends
