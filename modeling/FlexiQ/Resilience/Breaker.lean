/-
# `Resilience.Breaker` — the circuit breaker's row, and what happens to it

`resilience/circuit_breaker.rs`.  The breaker of a task is one row.  Each of
`allow`, `record_success` and `record_failure` reads it, decides, and writes
it back in a second storage call; the decisions are the functions of this
module, the two calls are their callers'.

A rate is the exact rational value of an `f64`.  The quotient a rate is
compared with is rounded as the processor rounds it.
-/
import FlexiQ.Resilience.RateLimit
import Mathlib.Data.Int.Log
import Mathlib.Data.Rat.Floor

namespace FlexiQ.Resilience

open FlexiQ.Lib

inductive CircuitState
  | closed
  | open
  | halfOpen
  deriving DecidableEq, Repr

namespace CircuitState

def fromI32 (v : Int) : CircuitState :=
  if v = 1 then .open else if v = 2 then .halfOpen else .closed

/-- The `#[repr(i32)]` discriminant. -/
def toI32 : CircuitState → Int
  | .closed => 0
  | .open => 1
  | .halfOpen => 2

end CircuitState

/-- `CircuitBreakerState`: a row of `circuit_breakers`. -/
structure CircuitBreakerState where
  taskName : String
  state : Int
  failureCount : Int
  lastFailureAt : Option Int
  openedAt : Option Int
  halfOpenAt : Option Int
  threshold : Int
  windowMs : Int
  cooldownMs : Int
  halfOpenMaxProbes : Int
  halfOpenSuccessRate : ℚ
  halfOpenProbeCount : Int
  halfOpenSuccessCount : Int
  halfOpenFailureCount : Int
  deriving DecidableEq

/-- The nearest `f64`: 53 significant bits, ties to even. -/
def toF64 (q : ℚ) : ℚ :=
  if q = 0 then 0
  else
    let unit : ℚ := (2 : ℚ) ^ (Int.log 2 |q| - 52)
    let m := q / unit
    let floor := ⌊m⌋
    let whole :=
      if m - floor < 1 / 2 then floor
      else if 1 / 2 < m - floor then floor + 1
      else floor + floor % 2
    whole * unit

/-- `a as f64 / b as f64`, for `i32`s. -/
def f64Ratio (a b : Int) : ℚ := toF64 (a / b)

def saturatingSub (a b : Int) : Int := max (-2 ^ 63) (min (a - b) (2 ^ 63 - 1))

/-- `saturating_add(1)` on an `i32`. -/
def saturatingSucc (n : Int) : Int := min (n + 1) (2 ^ 31 - 1)

namespace CircuitBreakerState

section

variable (row : CircuitBreakerState)

def unprobed (state : CircuitState) : CircuitBreakerState :=
  { row with
    state := state.toI32
    halfOpenProbeCount := 0
    halfOpenSuccessCount := 0
    halfOpenFailureCount := 0 }

def opened (now : Int) : CircuitBreakerState :=
  { row.unprobed .open with openedAt := some now, halfOpenAt := none }

def closed : CircuitBreakerState :=
  { row.unprobed .closed with failureCount := 0, openedAt := none, halfOpenAt := none }

/-- `CircuitBreaker::allow`, past the read: the verdict, and the row it
writes back if it writes one. -/
def allow (now : Int) : Bool × Option CircuitBreakerState :=
  match CircuitState.fromI32 row.state with
  | .closed => (true, none)
  | .open =>
    if saturatingSub now (row.openedAt.getD 0) ≥ row.cooldownMs then
      (true, some { row.unprobed .halfOpen with halfOpenAt := some now })
    else (false, none)
  | .halfOpen =>
    if row.halfOpenProbeCount < row.halfOpenMaxProbes then
      (true, some { row with halfOpenProbeCount := row.halfOpenProbeCount + 1 })
    -- The probes were lost: start over.
    else if saturatingSub now (row.halfOpenAt.getD 0) ≥ row.cooldownMs then
      (false, some (row.opened now))
    else (false, none)

/-- `CircuitBreaker::record_success`, past the read. -/
def recordSuccess (now : Int) : Option CircuitBreakerState :=
  match CircuitState.fromI32 row.state with
  | .closed => if row.failureCount = 0 then none else some row.closed
  | .open => some row.closed
  | .halfOpen =>
    let successes := row.halfOpenSuccessCount + 1
    let total := successes + row.halfOpenFailureCount
    if total ≥ row.halfOpenMaxProbes then
      if f64Ratio successes total ≥ row.halfOpenSuccessRate then some row.closed
      else some (row.opened now)
    else some { row with halfOpenSuccessCount := successes }

/-- `CircuitBreaker::record_failure`, past the read. -/
def recordFailure (now : Int) : CircuitBreakerState :=
  match CircuitState.fromI32 row.state with
  | .halfOpen =>
    let failures := row.halfOpenFailureCount + 1
    let total := row.halfOpenSuccessCount + failures
    let remaining := row.halfOpenMaxProbes - total
    let bestPossibleRate :=
      if row.halfOpenMaxProbes > 0 then
        f64Ratio (row.halfOpenSuccessCount + remaining) row.halfOpenMaxProbes
      else 0
    let counted := { row with
      failureCount := saturatingSucc row.failureCount
      lastFailureAt := some now }
    if total ≥ row.halfOpenMaxProbes ∨ bestPossibleRate < row.halfOpenSuccessRate then
      counted.opened now
    else { counted with halfOpenFailureCount := failures }
  | .closed =>
    let count := match row.lastFailureAt with
      | some last =>
        if saturatingSub now last > row.windowMs then 1 else saturatingSucc row.failureCount
      | none => 1
    let counted := { row with failureCount := count, lastFailureAt := some now }
    if count ≥ row.threshold then
      { counted with
        state := CircuitState.open.toI32
        openedAt := some now
        halfOpenAt := none }
    else counted
  | .open =>
    { row with
      failureCount := saturatingSucc row.failureCount
      lastFailureAt := some now }

end

end CircuitBreakerState

abbrev Breakers := Table String CircuitBreakerState CircuitBreakerState.taskName

/-- `upsert_circuit_breaker`.  On Postgres the conflicting row is updated
with a changeset, which has no say on a column whose new value is `None`. -/
def Backend.upsertCircuitBreaker (b : Backend) (breakers : Breakers) (row : CircuitBreakerState) :
    Breakers :=
  match b with
  | .sqlite | .redis => breakers.upsert row
  | .postgres =>
    match breakers.find row.taskName with
    | none => breakers.upsert row
    | some old => breakers.upsert { row with
        lastFailureAt := row.lastFailureAt <|> old.lastFailureAt
        openedAt := row.openedAt <|> old.openedAt
        halfOpenAt := row.halfOpenAt <|> old.halfOpenAt }

/-- The row that is stored once `row` was written over `old`. -/
def Backend.kept (b : Backend) (old row : CircuitBreakerState) : CircuitBreakerState :=
  match b with
  | .sqlite | .redis => row
  | .postgres => { row with
      lastFailureAt := row.lastFailureAt <|> old.lastFailureAt
      openedAt := row.openedAt <|> old.openedAt
      halfOpenAt := row.halfOpenAt <|> old.halfOpenAt }

theorem find_upsert_kept {b : Backend} {breakers : Breakers} {old row : CircuitBreakerState}
    (h : breakers.find row.taskName = some old) :
    (b.upsertCircuitBreaker breakers row).find row.taskName = some (b.kept old row) := by
  cases b with
  | sqlite | redis => exact (Table.find_upsert _ _ _).trans (if_pos rfl)
  | postgres =>
    rw [Backend.upsertCircuitBreaker, h]
    exact (Table.find_upsert _ _ _).trans (if_pos rfl)

end FlexiQ.Resilience
