/-
# `Redis.Claims` — execution claims and settle markers

`redis_backend/locks.rs`, and the fence of `steps.rs` that every fenced
script starts with.  A claim is one TEXT, `"{owner}:{claimed_at}.{epoch}"`,
which Lua takes apart by patterns: the owner is what stands before the last
colon, the epoch the last of two trailing numbers.  The marker of a settle is
a key of its own.

Lua numbers are doubles, and `tostring` prints fourteen digits.  A number
that needs more is printed in exponent form, which Lua reads back and Rust
does not.
-/
import FlexiQ.Redis.Jobs
import FlexiQ.Sql.Locks

namespace FlexiQ.Redis

open FlexiQ.Lib

/-! ## The text of a claim -/

def claimValue (workerId : String) (claimedAt : Int) (epoch : Option Int) : List Char :=
  workerId.toList ++ ':' :: decimal claimedAt ++ (epoch.map fun e => '.' :: decimal e).getD []

/-- `string.match(claim, '^(.*):') or claim`. -/
def claimOwner (value : List Char) : List Char := beforeLast ':' value

/-- `string.match(claim, ':%d+%.(%d+)$')`. -/
def claimEpoch (value : List Char) : Option (List Char) := trailingRun ':' '.' value

def epochArg (epoch : Option Int) : List Char := (epoch.map decimal).getD []

/-- **A claim is read back from its text**, whatever characters the worker's
name holds: the owner, and an epoch if there is one. -/
theorem claim_reads_back (worker : String) {claimedAt : Int} (hat : 0 ≤ claimedAt)
    {epoch : Option Int} (he : ∀ e ∈ epoch, 0 ≤ e) :
    claimOwner (claimValue worker claimedAt epoch) = worker.toList ∧
      claimEpoch (claimValue worker claimedAt epoch) = epoch.map decimal := by
  have hcolon : ∀ n : Int, ':' ∉ decimal n := fun n => not_mem_decimal (by decide) (by decide)
  have hdigits : ∀ c ∈ decimal claimedAt, c.isDigit = true := fun _ => isDigit_of_mem_decimal hat
  unfold claimOwner claimEpoch claimValue
  cases epoch with
  | none =>
    rw [Option.map_none, Option.getD_none, List.append_nil]
    exact ⟨beforeLast_append (hcolon _), trailingRun_single (by decide) (by decide) hdigits⟩
  | some e =>
    refine ⟨?_, trailingRun_append (by decide) (by decide) hdigits (decimal_ne_nil _)
      (fun _ hc => isDigit_of_mem_decimal (he e rfl) hc) (decimal_ne_nil _)⟩
    rw [List.append_assoc, List.cons_append]
    refine beforeLast_append ?_
    simp [hcolon]

/-- A worker's name that looks like a claim itself. -/
theorem odd_claim_reads_back :
    claimOwner (claimValue "w:1.2" 5 (some 7)) = "w:1.2".toList ∧
      claimEpoch (claimValue "w:1.2" 5 (some 7)) = some (decimal 7) :=
  claim_reads_back "w:1.2" (by decide) (by simp)

/-! ## Numbers that Lua prints -/

/-- The largest magnitude `tostring` prints digit for digit. -/
def luaPlain : Nat := 10 ^ 14

/-- Fourteen significant digits of a number that has more. -/
def fourteenDigits (m : Nat) : Nat :=
  let unit := 10 ^ ((Nat.toDigits 10 m).length - 14)
  let low := m % unit
  let floor := m / unit
  if 2 * low < unit then floor * unit
  else if unit < 2 * low then (floor + 1) * unit
  else (floor + floor % 2) * unit

/-- `tostring(n)`, as the number it prints. -/
def luaToString (n : Int) : Int :=
  if n.natAbs < luaPlain then n
  else if n < 0 then -(fourteenDigits n.natAbs : Int) else fourteenDigits n.natAbs

/-- `parse::<i64>()` of such a text: the exponent form does not parse. -/
def parseI64 (n : Int) : Option Int := if n.natAbs < luaPlain then some n else none

theorem luaToString_plain {n : Int} (h : n.natAbs < luaPlain) : luaToString n = n := if_pos h

theorem roundToF64_exact {m : Nat} (h : m < 2 ^ 53) : roundToF64 m = m := by
  by_cases hz : m = 0
  · rw [hz]
    decide
  · have hlog := (Nat.log2_lt hz).mpr h
    simp [roundToF64, Nat.sub_eq_zero_of_le (Nat.lt_succ_iff.mp hlog)]

theorem asF64_plain {n : Int} (h : n.natAbs < luaPlain) : asF64 n = n := by
  have hround : roundToF64 n.natAbs = n.natAbs :=
    roundToF64_exact (lt_of_lt_of_le h (by decide))
  unfold asF64
  rw [hround]
  split <;> omega

/-- Past 53 bits a number is rounded to one that is no smaller than its
leading bit. -/
theorem le_roundToF64 {m : Nat} (h : 2 ^ 53 ≤ m) : 2 ^ 53 ≤ roundToF64 m := by
  have hpos : m ≠ 0 := by
    rintro rfl
    exact absurd h (by decide)
  calc 2 ^ 53 ≤ 2 ^ m.log2 := Nat.pow_le_pow_right two_pos ((Nat.le_log2 hpos).mpr h)
    _ ≤ roundToF64 m := (roundToF64_log hpos).1

theorem le_of_le_asF64 {d n : Int} (hd : d.natAbs < luaPlain) (h : d ≤ asF64 n) : d ≤ n := by
  have hplain : luaPlain < 2 ^ 53 := by decide
  by_cases hn : n.natAbs < 2 ^ 53
  · unfold asF64 at h
    rw [roundToF64_exact hn] at h
    split at h <;> omega
  · have hround := le_roundToF64 (Nat.not_lt.mp hn)
    unfold asF64 at h
    split at h <;> omega

theorem le_of_asF64_le {n d : Int} (hd : d.natAbs < 2 ^ 53) (h : asF64 n ≤ d) : n ≤ d := by
  by_cases hn : n.natAbs < 2 ^ 53
  · unfold asF64 at h
    rw [roundToF64_exact hn] at h
    split at h <;> omega
  · have hround := le_roundToF64 (Nat.not_lt.mp hn)
    unfold asF64 at h
    split at h <;> omega

/-! ## The fence -/

/-- `namespace.unwrap_or("")`, and Lua's reading of a `null` namespace. -/
def scopeText (ns : Scope) : String := ns.getD ""

section

variable (s : Store) (jobId owner : String) (attempt : Int) (epoch : Option Int)
  (scope : Scope)

/-- `FENCE`, then `FENCE_REASSERT` if asked: the text of the job's namespace,
and the server with the claim put back; `none` is `claim_lost`. -/
def fence (reassert : Bool) (now : Int) : Option (String × Store) :=
  match s.jobs.find jobId with
  | none => none
  | some job =>
    let jobNs := scopeText job.namespace
    if job.status ≠ .running || job.retryCount ≠ attempt ||
        (scopeText scope ≠ "" && jobNs ≠ scopeText scope) then none
    else
      match s.claims.find jobId with
      | some claim =>
        if claimOwner claim.value ≠ owner.toList then none
        else if (claimEpoch claim.value).any fun e =>
            epochArg epoch ≠ [] && e ≠ epochArg epoch then none
        else some (jobNs, s)
      | none =>
        if reassert then
          some (jobNs, s.exec [.setClaim jobId (claimValue owner now epoch),
            .zadd .claimsByTime jobId (asF64 now)])
        else some (jobNs, s)

end

/-! ## Claims -/

/-- The `SET … NX` of `claim_execution`; its `ZADD` is a command of its
own. -/
def setClaimNx (s : Store) (jobId : String) (value : List Char) : Bool × Store :=
  match s.claims.find jobId with
  | some _ => (false, s)
  | none => (true, s.exec [.setClaim jobId value])

/-- `RECLAIM_CLAIM_SCRIPT`. -/
def reclaimExecution (s : Store) (jobId expectedOwner newOwner : String) (now epoch : Int) :
    Bool × Store :=
  match s.claims.find jobId with
  | none => (false, s)
  | some claim =>
    if claimOwner claim.value ≠ expectedOwner.toList then (false, s)
    else (true, s.exec [.setClaim jobId (claimValue newOwner now (some epoch)),
      .zadd .claimsByTime jobId (asF64 now)])

/-! ## Settle markers -/

/-- `await_settle`: what it answers, and what the script leaves. -/
def awaitSettle (s : Store) (jobId owner : String) (attempt : Int) (epoch : Option Int)
    (deadlineMs : Int) (scope : Scope) (now : Int) : Option Int × Store :=
  match fence s jobId owner attempt epoch scope true now with
  | none => (none, s)
  | some (_, s) =>
    let proposed := asF64 deadlineMs
    let held := (s.markers.find jobId).map fun m => asF64 m.deadline
    let deadline := luaToString (held.elim proposed (max · proposed))
    (parseI64 deadline, s.exec [.setMarker jobId deadline])

/-- Whether `CLAIM_SETTLE` finds the claimant entitled to the marker. -/
def settleEntitled (s : Store) (jobId : String) (marker : MarkerKey) : Sql.SettleClaimant → Bool
  | .lease epoch =>
    (s.claims.find jobId).any fun claim => claimEpoch claim.value = some (decimal epoch)
  | .expired now => asF64 marker.deadline ≤ asF64 now
  | .abandoned => true

def claimSettle (s : Store) (jobId : String) (claimant : Sql.SettleClaimant)
    (scope : Scope) : Bool × Store :=
  match s.markers.find jobId with
  | none => (false, s)
  | some marker =>
    if scopeText scope ≠ "" &&
        !(s.jobs.find jobId).any (fun job => scopeText job.namespace = scopeText scope) then
      (false, s)
    else if settleEntitled s jobId marker claimant then (true, s.exec [.delMarker jobId])
    else (false, s)

/-! ## The reapers' read -/

/-- Running past its timeout; an overflow counts as past. -/
def timedOut (job : Job) (now : Int) : Bool :=
  job.startedAt.any fun started => (checkedAdd started job.timeoutMs).all (· < now)

/-- `reap_stale_jobs`, with nobody in between: `none` when the `MGET` meets a
marker that does not parse. -/
def reapStaleJobs (s : Store) (now : Int) (scope : Scope) : Option (List Sql.StaleJob) :=
  let late := (s.sets.smembers (.status .running)).filterMap fun id =>
    (loadJob s id).filter fun job => visibleIn scope job.namespace && timedOut job now
  let markers := late.map fun job => (s.markers.find job.id).map MarkerKey.deadline
  if markers.all fun m => m.all fun d => (parseI64 d).isSome then
    some ((late.zip markers).filterMap fun (job, marker) =>
      if marker.any (now < ·) then none else some ⟨job, marker.isSome⟩)
  else none

end FlexiQ.Redis
