/-
# `Redis.Store` — the keys of the Redis backend, and the commands on them

Where the SQL backends have tables, `storage/redis_backend` has documents
(`job:<id>`, `archived:<id>`, `dlq:<id>`) and index keys that every writer
has to keep in step by hand.  The documents are tables here, under the id in
the document; the sets and the sorted sets are two `Lib.Keyspace` families,
under a key type that spells the key's shape.

Three families of keys expire: an execution claim is a string that carries
owner, time and epoch, a settle marker is a number, and the steps of a job are
one hash.

Every write of the backend is a pipeline of COMMANDS, so a write here is a
list of `Cmd` and `exec` runs it.
-/
import FlexiQ.Core.Json
import FlexiQ.Lib.Keyspace
import FlexiQ.Sql.Store
import Mathlib.Algebra.Order.Ring.Int
import Mathlib.Data.String.Basic
import Mathlib.Tactic.Positivity
import Mathlib.Tactic.Ring

namespace FlexiQ.Redis

open FlexiQ.Lib FlexiQ.Step

inductive SetKey
  | status (status : JobStatus)
  | byQueue (queue : String)
  | byTask (taskName : String)
  | byNs («namespace» : Scope)
  | archivedStatus (status : JobStatus)
  | dependsOn (jobId : String)
  | dependents (jobId : String)
  deriving DecidableEq, Repr

/-- The sorted-set keys.  A namespace is written into a key by an injective
encoding, so the key carries the namespace itself. -/
inductive ZKey
  | pending (queue : String)
  | debounce («namespace» : Scope) (debounceKey : String)
  | archivedAll
  | archivedByNs («namespace» : Scope)
  | archivedExpiry
  | dlqAll
  | dlqByNs («namespace» : Scope)
  | claimsByTime
  deriving DecidableEq, Repr

/-- `DeadJobEntry`: field for field the SQL backends' `dead_letter` row. -/
abbrev DeadJobEntry := Sql.DeadRow

/-- A `unique_key` dedup pointer. -/
structure UniquePointer where
  «namespace» : Scope
  uniqueKey : String
  jobId : String
  deriving DecidableEq, Repr

def UniquePointer.key (p : UniquePointer) : Option String × String := (p.namespace, p.uniqueKey)

/-- `exec_claim:<id>`: the text of the claim, and when the key expires. -/
structure ClaimKey where
  jobId : String
  value : List Char
  expiresAt : Int
  deriving DecidableEq, Repr

/-- `claim_settle:<id>`: the deadline, as the number its text stands for. -/
structure MarkerKey where
  jobId : String
  deadline : Int
  expiresAt : Int
  deriving DecidableEq, Repr

/-- `StepDoc`.  Its JSON text determines it, so comparing texts is comparing
documents. -/
structure StepDoc where
  stepKey : String
  kind : StepKind
  result : Option Bytes
  wakeAt : Option Int
  deriving DecidableEq, Repr

/-- A field `<seq>` of a step hash: `"{created_at}\n{json}"`. -/
structure StepField where
  seq : Int
  createdAt : Int
  doc : StepDoc
  deriving DecidableEq, Repr

/-- `job_steps:<id>`: the positions, the `k:<step_key>` index, `__total`,
`__wake`, `__ns`, and the `PEXPIREAT` of the hash. -/
structure StepHash where
  jobId : String
  rows : List StepField
  keys : List (String × Int)
  total : Option Nat
  wake : Option Int
  ns : Scope
  expiresAt : Int
  deriving DecidableEq, Repr

structure Store where
  jobs : Table String Job Job.id
  archived : Table String Job Job.id
  dead : Table String DeadJobEntry Sql.DeadRow.id
  unique : Table (Option String × String) UniquePointer UniquePointer.key
  sets : Sets SetKey String
  zsets : SortedSets ZKey String
  claims : Table String ClaimKey ClaimKey.jobId
  markers : Table String MarkerKey MarkerKey.jobId
  steps : Table String StepHash StepHash.jobId
  clock : Int
  deriving DecidableEq

def Store.empty : Store :=
  ⟨.empty, .empty, .empty, .empty, .empty, .empty, .empty, .empty, .empty, 0⟩

/-- Time passes: keys whose expiry the clock has passed are gone. -/
def Store.tick (s : Store) (now : Int) : Store :=
  { s with
    claims := s.claims.delete (fun c => c.expiresAt < now)
    markers := s.markers.delete (fun m => m.expiresAt < now)
    steps := s.steps.delete (fun h => h.expiresAt < now)
    clock := now }

/-! ## Numbers -/

/-- `m as f64` for a magnitude: 53 significant bits, ties to even. -/
def roundToF64 (m : Nat) : Nat :=
  let shift := 2 ^ (m.log2 - 52)
  let half := shift / 2
  let low := m % shift
  let floor := m / shift
  if low < half ∨ shift = 1 then floor * shift
  else if half < low then (floor + 1) * shift
  else (floor + floor % 2) * shift

/-- `n as f64`, which for an `i64` is again a whole number. -/
def asF64 (n : Int) : Int :=
  if n < 0 then -(roundToF64 n.natAbs : Int) else (roundToF64 n.natAbs : Int)

/-- The number is rounded down or up, at the place of its last bit. -/
theorem roundToF64_near (m : Nat) :
    m / 2 ^ (m.log2 - 52) * 2 ^ (m.log2 - 52) ≤ roundToF64 m ∧
      roundToF64 m ≤ (m / 2 ^ (m.log2 - 52) + 1) * 2 ^ (m.log2 - 52) := by
  unfold roundToF64
  dsimp only
  constructor <;> split
  · exact le_rfl
  · split <;> exact Nat.mul_le_mul_right _ (by omega)
  · exact Nat.mul_le_mul_right _ (by omega)
  · split <;> exact Nat.mul_le_mul_right _ (by omega)

/-- Rounding keeps a number between the powers of two around it. -/
theorem roundToF64_log {m : Nat} (hm : m ≠ 0) :
    2 ^ m.log2 ≤ roundToF64 m ∧ roundToF64 m ≤ 2 ^ (m.log2 + 1) := by
  have hlow := Nat.log2_self_le hm
  have hhigh : m < 2 ^ (m.log2 + 1) := Nat.lt_log2_self
  by_cases hsmall : m.log2 ≤ 52
  · have hexact : roundToF64 m = m := by simp [roundToF64, Nat.sub_eq_zero_of_le hsmall]
    rw [hexact]
    exact ⟨hlow, hhigh.le⟩
  · obtain ⟨k, hk⟩ : ∃ k, m.log2 = 52 + k := ⟨m.log2 - 52, by omega⟩
    obtain ⟨hfloor, hceil⟩ := roundToF64_near m
    rw [hk] at hlow hhigh hfloor hceil ⊢
    rw [Nat.add_sub_cancel_left] at hfloor hceil
    have hdown : 2 ^ 52 ≤ m / 2 ^ k := by
      rw [Nat.le_div_iff_mul_le (by positivity), ← pow_add]
      exact hlow
    have hup : m / 2 ^ k < 2 ^ 53 := by
      rw [Nat.div_lt_iff_lt_mul (by positivity), ← pow_add]
      exact lt_of_lt_of_eq hhigh (by ring)
    constructor
    · refine le_trans ?_ hfloor
      rw [pow_add]
      exact Nat.mul_le_mul_right _ hdown
    · refine le_trans hceil ?_
      rw [show 52 + k + 1 = 53 + k by ring, pow_add]
      exact Nat.mul_le_mul_right _ hup

theorem roundToF64_mono {m n : Nat} (h : m ≤ n) : roundToF64 m ≤ roundToF64 n := by
  by_cases hm : m = 0
  · subst hm
    exact Nat.zero_le _
  have hn : n ≠ 0 := by omega
  have hlog : m.log2 ≤ n.log2 := by
    rw [Nat.le_log2 hn]
    exact le_trans (Nat.log2_self_le hm) h
  rcases Nat.lt_or_eq_of_le hlog with hlt | heq
  · calc roundToF64 m ≤ 2 ^ (m.log2 + 1) := (roundToF64_log hm).2
      _ ≤ 2 ^ n.log2 := Nat.pow_le_pow_right two_pos hlt
      _ ≤ roundToF64 n := (roundToF64_log hn).1
  · -- One unit for both: the quotients decide, and then the remainders.
    obtain ⟨-, hceil⟩ := roundToF64_near m
    obtain ⟨hfloor, -⟩ := roundToF64_near n
    rw [heq] at hceil
    rcases Nat.lt_or_eq_of_le (Nat.div_le_div_right (c := 2 ^ (n.log2 - 52)) h) with hq | hq
    · exact le_trans hceil (le_trans (Nat.mul_le_mul_right _ hq) hfloor)
    · have hlow : m % 2 ^ (n.log2 - 52) ≤ n % 2 ^ (n.log2 - 52) := by
        have hdm := Nat.div_add_mod m (2 ^ (n.log2 - 52))
        have hdn := Nat.div_add_mod n (2 ^ (n.log2 - 52))
        rw [hq] at hdm
        omega
      unfold roundToF64
      dsimp only
      rw [heq, hq]
      generalize n / 2 ^ (n.log2 - 52) = q
      split <;> split <;> (try split) <;> (try split) <;>
        exact Nat.mul_le_mul_right _ (by omega)

theorem asF64_mono {a b : Int} (h : a ≤ b) : asF64 a ≤ asF64 b := by
  unfold asF64
  split <;> split
  · have := roundToF64_mono (m := b.natAbs) (n := a.natAbs) (by omega)
    omega
  · omega
  · omega
  · have := roundToF64_mono (m := a.natAbs) (n := b.natAbs) (by omega)
    omega

def checkedAdd (a b : Int) : Option Int :=
  if -2 ^ 63 ≤ a + b ∧ a + b < 2 ^ 63 then some (a + b) else none

/-- The sum is one of `i64`s, and wraps. -/
def dequeueScore (priority scheduledAt : Int) : Int :=
  let p := max 0 (min priority 999)
  asF64 (Int.bmod ((1000 - p) * 10000000000000 + scheduledAt) (2 ^ 64))

/-! ## Commands -/

inductive Cmd
  | setJob (job : Job)
  | delJob (id : String)
  | setArchived (job : Job)
  | delArchived (id : String)
  | setDead (entry : DeadJobEntry)
  | delDead (id : String)
  | setUnique (pointer : UniquePointer)
  | delUnique («namespace» : Scope) (uniqueKey : String)
  | sadd (key : SetKey) (member : String)
  | srem (key : SetKey) (member : String)
  | delSet (key : SetKey)
  | zadd (key : ZKey) (member : String) (score : Int)
  | zrem (key : ZKey) (member : String)
  | setClaim (jobId : String) (value : List Char)
  | delClaim (jobId : String)
  | setMarker (jobId : String) (deadline : Int)
  | delMarker (jobId : String)
  | setSteps (hash : StepHash)
  | delSteps (jobId : String)
  deriving DecidableEq, Repr

/-- The `PX` of a claim and of a marker. -/
def claimTtlMs : Int := 86400000

def Store.apply (s : Store) : Cmd → Store
  | .setJob job => { s with jobs := s.jobs.upsert job }
  | .delJob id => { s with jobs := s.jobs.delete (fun r => r.id = id) }
  | .setArchived job => { s with archived := s.archived.upsert job }
  | .delArchived id => { s with archived := s.archived.delete (fun r => r.id = id) }
  | .setDead entry => { s with dead := s.dead.upsert entry }
  | .delDead id => { s with dead := s.dead.delete (fun r => r.id = id) }
  | .setUnique pointer => { s with unique := s.unique.upsert pointer }
  | .delUnique ns key => { s with unique := s.unique.delete (fun p => p.key = (ns, key)) }
  | .sadd key member => { s with sets := s.sets.sadd key member }
  | .srem key member => { s with sets := s.sets.srem key member }
  | .delSet key => { s with sets := s.sets.drop key }
  | .zadd key member score => { s with zsets := s.zsets.zadd key member score }
  | .zrem key member => { s with zsets := s.zsets.zrem key member }
  | .setClaim id value => { s with claims := s.claims.upsert ⟨id, value, s.clock + claimTtlMs⟩ }
  | .delClaim id => { s with claims := s.claims.delete (fun c => c.jobId = id) }
  | .setMarker id deadline =>
    { s with markers := s.markers.upsert ⟨id, deadline, s.clock + claimTtlMs⟩ }
  | .delMarker id => { s with markers := s.markers.delete (fun m => m.jobId = id) }
  | .setSteps hash =>
    -- A `PEXPIREAT` that lies in the past deletes the key at once.
    { s with
      steps := if hash.expiresAt ≤ s.clock then s.steps.delete (fun h => h.jobId = hash.jobId)
        else s.steps.upsert hash }
  | .delSteps id => { s with steps := s.steps.delete (fun h => h.jobId = id) }

def Store.exec (s : Store) (cmds : List Cmd) : Store := cmds.foldl Store.apply s

end FlexiQ.Redis
