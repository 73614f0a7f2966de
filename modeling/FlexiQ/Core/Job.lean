/-
# `Core.Job` — the records every backend stores

`job.rs` and `error.rs`: the lifecycle status, the job as it is stored, what
an enqueue hands over, and the errors the modelled calls raise.

Times and counters are `Int` (`i64`/`i32` columns), blobs are byte lists.  The
wall clock and the minted UUID are ARGUMENTS wherever the source reads one, so
that a run is a function of what its environment supplied.
-/
import Mathlib.Data.List.Basic

namespace FlexiQ

abbrev Bytes := List UInt8

/-- A namespace; `none` is the default one. -/
abbrev Scope := Option String

inductive JobStatus
  | pending
  | running
  | complete
  | failed
  | dead
  | cancelled
  deriving DecidableEq, Repr

/-- `Job`: a row of `jobs`, or of `archived_jobs`. -/
structure Job where
  id : String
  queue : String
  taskName : String
  payload : Bytes
  status : JobStatus
  priority : Int
  createdAt : Int
  scheduledAt : Int
  startedAt : Option Int
  completedAt : Option Int
  retryCount : Int
  maxRetries : Int
  result : Option Bytes
  error : Option String
  timeoutMs : Int
  uniqueKey : Option String
  progress : Option Int
  metadata : Option String
  notes : Option String
  cancelRequested : Bool
  expiresAt : Option Int
  resultTtlMs : Option Int
  «namespace» : Scope
  hasDeps : Bool
  debounceKey : Option String
  enqueuedBy : Option String
  deriving DecidableEq, Repr

/-- `NewJob`: the parameters of an enqueue. -/
structure NewJob where
  queue : String
  taskName : String
  payload : Bytes
  priority : Int
  scheduledAt : Int
  maxRetries : Int
  timeoutMs : Int
  uniqueKey : Option String
  metadata : Option String
  notes : Option String
  dependsOn : List String
  expiresAt : Option Int
  resultTtlMs : Option Int
  «namespace» : Scope
  debounceKey : Option String
  enqueuedBy : Option String
  deriving DecidableEq, Repr

/-- A new job and the id it is going to have. -/
abbrev Draft := NewJob × String

/-- `NewJob::into_job`, with the minted id and the clock supplied. -/
def NewJob.intoJob (new : NewJob) (id : String) (now : Int) : Job where
  id := id
  queue := new.queue
  taskName := new.taskName
  payload := new.payload
  status := .pending
  priority := new.priority
  createdAt := now
  scheduledAt := new.scheduledAt
  startedAt := none
  completedAt := none
  retryCount := 0
  maxRetries := new.maxRetries
  result := none
  error := none
  timeoutMs := new.timeoutMs
  uniqueKey := new.uniqueKey
  progress := none
  metadata := new.metadata
  notes := new.notes
  cancelRequested := false
  expiresAt := new.expiresAt
  resultTtlMs := new.resultTtlMs
  «namespace» := new.namespace
  hasDeps := !new.dependsOn.isEmpty
  debounceKey := new.debounceKey
  enqueuedBy := new.enqueuedBy

/-- What is left of a row once it is in `archived_jobs`: the archive has
neither `has_deps` nor `debounce_key`. -/
def Job.archived (job : Job) : Job :=
  { job with hasDeps := false, debounceKey := none }

def Job.finish (job : Job) (status : JobStatus) (now : Int) (error : Option String) : Job :=
  { job with status := status, completedAt := some now, error := error }

def Job.startedBy (job : Job) (now : Int) : Job :=
  { job with status := .running, startedAt := some now }

def Job.pendingAt (job : Job) (scheduledAt : Int) : Job :=
  { job with
    status := .pending
    scheduledAt := scheduledAt
    startedAt := none
    completedAt := none
    error := none }

/-- `Job::from_narrow`, as the reapers use it: a row read without its
blobs. -/
def Job.narrow (job : Job) : Job :=
  { job with payload := [], result := none }

def Job.expiredAt (job : Job) (now : Int) : Bool :=
  job.expiresAt.any (fun deadline => deadline < now)

def dependencyCancelled : String := "dependency cancelled"

def dependencyFailed : String := "dependency failed"

/-- Whether a row is inside the namespace a caller scoped itself to.  No
scope sees every row; a scope never sees the default namespace. -/
def visibleIn (scope : Scope) (ns : Scope) : Bool :=
  match scope with
  | none => true
  | some _ => ns == scope

theorem visibleIn_self (ns : Scope) : visibleIn ns ns = true := by
  cases ns <;> simp [visibleIn]

structure StepDivergence where
  jobId : String
  position : Nat
  recorded : String
  running : String
  expected : String
  found : String
  deriving DecidableEq, Repr

/-- `QueueError`, as far as the modelled calls raise it.  `storage` is the
database refusing a statement: a unique violation, or a row that is gone. -/
inductive QueueError
  | storage
  | jobNotFound (id : String)
  | config (message : String)
  | serialization (message : String)
  | dependencyNotFound (id : String)
  | queueFull (queue : String) (pending cap : Int)
  | rateLimitExceeded (message : String)
  | claimLost (jobId : String)
  | stepDiverged (jobId : String) (seq : Int) (expected found : String)
  | stepSequenceDiverged (divergence : StepDivergence)
  | stepLimitExceeded (stepKey limit : String) (actual allowed : Nat)
  | other (message : String)
  deriving DecidableEq, Repr

abbrev Result := Except QueueError

/-- A result with an error the caller turns into `e`. -/
def orError {α : Type} (e : QueueError) : Option α → Result α
  | some a => .ok a
  | none => .error e

structure DebounceOptions where
  windowMs : Int
  maxWaitMs : Int
  replacePayload : Bool
  maxPending : Option Int
  deriving DecidableEq, Repr

def debounceCandidateScan : Nat := 8

def validatedDebounceKey (new : NewJob) (options : DebounceOptions) : Result String :=
  let key := new.debounceKey.getD ""
  if key = "" then .error (.config "enqueue_debounced requires a non-empty debounce_key")
  else if options.windowMs ≤ 0 then
    .error (.config ("debounce window_ms must be positive, got " ++ toString options.windowMs))
  else if options.maxWaitMs < options.windowMs then
    .error (.config ("debounce max_wait_ms (" ++ toString options.maxWaitMs ++
      ") must be at least window_ms (" ++ toString options.windowMs ++ ")"))
  else
    match options.maxPending.filter (· < 0) with
    | some cap => .error (.config ("debounce max_pending must be non-negative, got " ++
        toString cap ++ " — an uncapped queue is \x60None\x60, not a negative cap"))
    | none => .ok key

/-- The job a debounced enqueue would insert: the window, not the caller,
decides when it runs. -/
def NewJob.intoWindow (new : NewJob) (options : DebounceOptions) (id : String) (now : Int) : Job :=
  { new.intoJob id now with scheduledAt := now + options.windowMs }

def Job.slid (target job : Job) (options : DebounceOptions) : Job :=
  { target with
    scheduledAt := min job.scheduledAt (target.createdAt + options.maxWaitMs)
    payload := if options.replacePayload then job.payload else target.payload }

theorem bind_eq_ok {ε α β : Type} {x : Except ε α} {f : α → Except ε β} {b : β} :
    x >>= f = .ok b ↔ ∃ a, x = .ok a ∧ f a = .ok b := by
  cases x <;> simp [bind, Except.bind]

theorem map_eq_ok {ε α β : Type} {x : Except ε α} {f : α → β} {b : β} :
    x.map f = .ok b ↔ ∃ a, x = .ok a ∧ f a = b := by
  cases x <;> simp [Except.map]

/-- A call that takes effect as a whole: where it fails, nothing has
changed. -/
def committed {S α : Type} (s : S) : Result (α × S) → Result α × S
  | .ok (a, s') => (.ok a, s')
  | .error e => (.error e, s)

theorem committed_ok {S α : Type} {s s' : S} {r : Result (α × S)} {a : α}
    (h : committed s r = (.ok a, s')) : r = .ok (a, s') := by
  cases r <;> cases h
  rfl

theorem committed_error {S α : Type} {s s' : S} {r : Result (α × S)} {e : QueueError}
    (h : committed s r = (.error e, s')) : s' = s := by
  cases r <;> cases h
  rfl

section MapM

variable {ε α β : Type} {f : α → Except ε β} {l : List α}

theorem mapM_eq_ok (h : ∀ a ∈ l, ∃ b, f a = .ok b) : ∃ bs, l.mapM f = .ok bs := by
  induction l with
  | nil => exact ⟨[], rfl⟩
  | cons a l ih =>
    obtain ⟨b, hb⟩ := h a List.mem_cons_self
    obtain ⟨bs, hbs⟩ := ih fun a' ha' => h a' (List.mem_cons_of_mem _ ha')
    refine ⟨b :: bs, ?_⟩
    rw [List.mapM_cons, hb, hbs]
    rfl

end MapM

end FlexiQ
