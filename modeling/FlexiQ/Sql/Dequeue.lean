/-
# `Sql.Dequeue` — the candidate scan and the claim loop

`scan_dequeue_candidates` and the two loops over it, `dequeue_ordered` (one
job, a window of 100) and `dequeue_batch_ordered` (up to `max` jobs, a
window of four times that, at most 400).  The window is a `LIMIT` on the
ordered candidates: rows the loop then skips or archives still used it up.
-/
import FlexiQ.Sql.Jobs
import Mathlib.Data.List.Sort

namespace FlexiQ.Sql

open FlexiQ.Lib

inductive DispatchOrder
  | fifo
  | lifo
  deriving DecidableEq, Repr

/-- Whether `a` is dequeued no later than `b`. -/
def DispatchOrder.before (order : DispatchOrder) (a b : Job) : Prop :=
  a.priority > b.priority ∨ (a.priority = b.priority ∧
    match order with
    | .fifo => a.scheduledAt < b.scheduledAt ∨ (a.scheduledAt = b.scheduledAt ∧ a.id ≤ b.id)
    | .lifo => a.scheduledAt > b.scheduledAt ∨ (a.scheduledAt = b.scheduledAt ∧ a.id ≥ b.id))

instance (order : DispatchOrder) : DecidableRel order.before := fun a b => by
  unfold DispatchOrder.before
  cases order <;> infer_instance

/-- The filter of `scan_dequeue_candidates`: a scope of `none` is the
default namespace, not every namespace. -/
def candidate (queue : String) (now : Int) (ns : Scope) (row : Job) : Bool :=
  row.queue = queue && row.status = .pending && row.scheduledAt ≤ now && row.namespace = ns

def orderedCandidates (s : Store) (queue : String) (now : Int) (ns : Scope)
    (order : DispatchOrder) : List Job :=
  (s.jobs.rows.filter (candidate queue now ns)).insertionSort order.before

def scanDequeueCandidates (s : Store) (queue : String) (now : Int) (ns : Scope)
    (limit : Nat) (order : DispatchOrder) : List Job :=
  (orderedCandidates s queue now ns order).take limit

def expiredBeforeExecution : String := "expired before execution"

section

variable (s : Store) (id : String) (now : Int)

def archiveExpiredCandidate : Result (Job × Store) :=
  match s.jobs.find id with
  | none => .error .storage
  | some row => do
    let full := row.finish .cancelled now (some expiredBeforeExecution)
    let s ← archiveJobRow s full
    return (full, s)

/-- The guarded `UPDATE … WHERE status = Pending`. -/
def startPending : Store :=
  { s with
    jobs := s.jobs.update (fun r => r.id = id && r.status = .pending) fun r => r.startedBy now }

/-- The update, and the row it claimed. -/
def claimPending : Option Job × Store :=
  match s.jobs.find id with
  | some row =>
    if row.status = .pending then ((startPending s id now).jobs.find id, startPending s id now)
    else (none, s)
  | none => (none, s)

end

/-- `Dequeued`: what a scan claimed, and what it archived instead. -/
structure Dequeued where
  claimed : List Job
  expired : List Job
  deriving DecidableEq, Repr

def claimLoop (max : Nat) (now : Int) : Store → Dequeued → List Job → Result (Dequeued × Store)
  | s, out, [] => .ok (out, s)
  | s, out, row :: rows =>
    if out.claimed.length = max then .ok (out, s)
    else if row.expiredAt now then do
      let (job, s) ← archiveExpiredCandidate s row.id now
      claimLoop max now s { out with expired := out.expired ++ [job] } rows
    else if row.hasDeps && !depsSatisfied s row.id then claimLoop max now s out rows
    else
      match claimPending s row.id now with
      | (some job, s) => claimLoop max now s { out with claimed := out.claimed ++ [job] } rows
      | (none, s) => claimLoop max now s out rows

/-- How many candidates a batch dequeue looks at. -/
def scanLimit (max : Nat) : Nat := min (max * 4) 400

/-- `dequeue_batch_ordered_reporting`. -/
def dequeueBatchOrdered (s : Store) (queue : String) (now : Int) (ns : Scope)
    (max : Nat) (order : DispatchOrder) : Result (Dequeued × Store) :=
  if max = 0 then .ok (⟨[], []⟩, s)
  else claimLoop max now s ⟨[], []⟩ (scanDequeueCandidates s queue now ns (scanLimit max) order)

/-- `dequeue_ordered_reporting`: the loop returns with its first claim. -/
def dequeueOrdered (s : Store) (queue : String) (now : Int) (ns : Scope)
    (order : DispatchOrder) : Result (Dequeued × Store) :=
  claimLoop 1 now s ⟨[], []⟩ (scanDequeueCandidates s queue now ns 100 order)

end FlexiQ.Sql
