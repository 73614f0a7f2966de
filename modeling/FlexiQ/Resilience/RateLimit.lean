/-
# `Resilience.RateLimit` — token buckets that many workers draw from

`storage/*/rate_limits.rs`, over exact rationals.  The read, the refill, the
consumption and the write of one call are one atomic step on every backend;
the CLOCK is read before it.  A call that waited for the others therefore
arrives with an old reading — and writes it over a newer one, so that the
next call is given the same interval a second time (`old_reading_refills`).
-/
import FlexiQ.Lib.Bucket
import FlexiQ.Lib.Runs
import FlexiQ.Lib.Table

namespace FlexiQ.Resilience

open FlexiQ.Lib Table

/-- A row of `rate_limits`, or the document under `rate_limit:<key>`. -/
structure RateLimitRow where
  key : String
  tokens : ℚ
  maxTokens : ℚ
  refillRate : ℚ
  lastRefill : Int
  deriving DecidableEq

abbrev Buckets := Table String RateLimitRow RateLimitRow.key

def RateLimitRow.fresh (key : String) (maxTokens refillRate : ℚ) (now : Int) : RateLimitRow :=
  ⟨key, maxTokens, maxTokens, refillRate, now⟩

/-- The refill all backends make: up to `now`, which becomes the instant of
the last refill whether it is later or not. -/
def RateLimitRow.refilled (row : RateLimitRow) (maxTokens refillRate : ℚ) (now : Int) :
    RateLimitRow :=
  let elapsedSec : ℚ := (max (now - row.lastRefill) 0 : Int) / 1000
  { row with
    tokens := min (row.tokens + elapsedSec * refillRate) maxTokens
    lastRefill := now }

/-- All of the tokens, or none. -/
def RateLimitRow.consume (row : RateLimitRow) (count : Nat) : Bool × RateLimitRow :=
  if (count : ℚ) ≤ row.tokens then (true, { row with tokens := row.tokens - count })
  else (false, row)

namespace Sqlite

/-- `try_acquire_tokens`, on SQLite. -/
def tryAcquireTokens (buckets : Buckets) (key : String) (count : Nat) (maxTokens refillRate : ℚ)
    (now : Int) : Bool × Buckets :=
  let row := (buckets.find key).getD (.fresh key maxTokens refillRate now)
  let (acquired, row) := (row.refilled maxTokens refillRate now).consume count
  (acquired, buckets.upsert row)

end Sqlite

namespace Postgres

/-- `try_acquire_tokens`, on Postgres: insert where there is none, then lock
the row. -/
def tryAcquireTokens (buckets : Buckets) (key : String) (count : Nat) (maxTokens refillRate : ℚ)
    (now : Int) : Bool × Buckets :=
  let buckets := (buckets.insert (.fresh key maxTokens refillRate now)).getD buckets
  match buckets.find key with
  | none => (false, buckets)
  | some row =>
    let (acquired, row) := (row.refilled maxTokens refillRate now).consume count
    (acquired, buckets.upsert row)

end Postgres

namespace Redis

/-- `try_acquire_tokens`, on Redis: the document is encoded anew, under the
caller's configuration. -/
def tryAcquireTokens (buckets : Buckets) (key : String) (count : Nat) (maxTokens refillRate : ℚ)
    (now : Int) : Bool × Buckets :=
  let (tokens, lastRefill) := match buckets.find key with
    | some doc => (doc.tokens, doc.lastRefill)
    | none => (maxTokens, now)
  let doc : RateLimitRow := ⟨key, tokens, maxTokens, refillRate, lastRefill⟩
  let (acquired, doc) := (doc.refilled maxTokens refillRate now).consume count
  (acquired, buckets.upsert doc)

end Redis

inductive Backend
  | sqlite
  | postgres
  | redis
  deriving DecidableEq, Repr

def Backend.tryAcquireTokens : Backend → Buckets → String → Nat → ℚ → ℚ → Int → Bool × Buckets
  | .sqlite => Sqlite.tryAcquireTokens
  | .postgres => Postgres.tryAcquireTokens
  | .redis => Redis.tryAcquireTokens

/-- `RateLimitConfig`: what `parse` accepts holds at least one token, and
refills. -/
structure RateLimitConfig where
  maxTokens : ℚ
  refillRate : ℚ
  one_le : 1 ≤ maxTokens
  pos : 0 < refillRate

/-! ## Callers -/

structure Caller where
  key : String
  count : Nat
  now : Int
  deriving DecidableEq, Repr

/-- The buckets, the clock, the callers between their two steps, and what
each bucket gave out. -/
structure Meter where
  buckets : Buckets
  clock : Int
  callers : List Caller
  grants : String → Spending

namespace Meter

def start : Meter := ⟨.empty, 0, [], fun _ => []⟩

inductive Move
  | tick (now : Int)
  | read (key : String) (count : Nat)
  | draw (i : Nat)
  deriving DecidableEq, Repr

variable (b : Backend) (config : String → RateLimitConfig)

def answer (m : Meter) (c : Caller) : Bool × Buckets :=
  b.tryAcquireTokens m.buckets c.key c.count (config c.key).maxTokens (config c.key).refillRate
    c.now

/-- One step: the clock moves on, a call reads it, or a call draws. -/
def next (m : Meter) : Move → Option Meter
  | .tick now => if m.clock ≤ now then some { m with clock := now } else none
  | .read key count => some { m with callers := m.callers ++ [⟨key, count, m.clock⟩] }
  | .draw i =>
    match m.callers[i]? with
    | none => none
    | some c =>
      let (acquired, buckets) := m.answer b config c
      some { m with
        buckets := buckets
        callers := m.callers.eraseIdx i
        grants := fun key =>
          if acquired = true ∧ c.key = key then (c.now, (c.count : ℚ)) :: m.grants key
          else m.grants key }

/-- The caller's reading is not older than the bucket's last refill. -/
def Timely (m : Meter) (c : Caller) : Prop :=
  ∀ row, m.buckets.find c.key = some row → row.lastRefill ≤ c.now

instance (m : Meter) (c : Caller) : Decidable (m.Timely c) :=
  inferInstanceAs (Decidable (∀ row ∈ m.buckets.find c.key, row.lastRefill ≤ c.now))

/-- Nobody draws with a reading older than the bucket's last refill. -/
def InOrder (m : Meter) : Move → Prop
  | .draw i => ∀ c ∈ m.callers[i]?, m.Timely c
  | _ => True

instance (m : Meter) (move : Move) : Decidable (m.InOrder move) :=
  by cases move <;> unfold InOrder <;> infer_instance

end Meter

/-! ## One draw -/

/-- What is in a bucket at `now`, from its row or from none. -/
def level (old : Option RateLimitRow) (maxTokens refillRate : ℚ) (now : Int) : ℚ :=
  let elapsedSec : ℚ := (max (now - old.elim now RateLimitRow.lastRefill) 0 : Int) / 1000
  min (old.elim maxTokens RateLimitRow.tokens + elapsedSec * refillRate) maxTokens

/-- A draw brought the bucket up to the reading, and gave out all that was
asked for or nothing. -/
structure Drawn (buckets : Buckets) (key : String) (count : Nat) (maxTokens refillRate : ℚ)
    (now : Int) (out : Bool × Buckets) : Prop where
  others : ∀ k, k ≠ key → out.2.find k = buckets.find k
  granted : out.1 = true → (count : ℚ) ≤ level (buckets.find key) maxTokens refillRate now ∧
    ∃ row, out.2.find key = some row ∧ row.lastRefill = now ∧
      row.tokens = level (buckets.find key) maxTokens refillRate now - count
  refused : out.1 = false → level (buckets.find key) maxTokens refillRate now < count ∧
    ∃ row, out.2.find key = some row ∧ row.lastRefill = now ∧
      row.tokens = level (buckets.find key) maxTokens refillRate now

/-- The refill, the consumption and the write, from a row that stands for
what was found. -/
theorem drawn_of_row {buckets buckets' : Buckets} {key : String} {row : RateLimitRow}
    {maxTokens refillRate : ℚ} {now : Int} (count : Nat) (hkey : row.key = key)
    (hrow : (row.refilled maxTokens refillRate now).tokens =
      level (buckets.find key) maxTokens refillRate now)
    (hothers : ∀ k, k ≠ key → buckets'.find k = buckets.find k) :
    Drawn buckets key count maxTokens refillRate now
      (((row.refilled maxTokens refillRate now).consume count).1,
        buckets'.upsert ((row.refilled maxTokens refillRate now).consume count).2) := by
  have hput : ∀ written : RateLimitRow, written.key = key →
      (∀ k, k ≠ key → (buckets'.upsert written).find k = buckets.find k) ∧
        (buckets'.upsert written).find key = some written := by
    intro written hwritten
    refine ⟨fun k hk => ?_, by rw [find_upsert, if_pos hwritten]⟩
    rw [find_upsert, if_neg fun h => hk (h.symm.trans hwritten)]
    exact hothers k hk
  unfold RateLimitRow.consume
  split
  · next hfit =>
    obtain ⟨hrest, hfound⟩ := hput { row.refilled maxTokens refillRate now with
      tokens := (row.refilled maxTokens refillRate now).tokens - count } hkey
    exact ⟨hrest, fun _ => ⟨hrow ▸ hfit, _, hfound, rfl, congrArg (· - (count : ℚ)) hrow⟩,
      fun hrefused => nomatch hrefused⟩
  · next hlack =>
    obtain ⟨hrest, hfound⟩ := hput (row.refilled maxTokens refillRate now) hkey
    exact ⟨hrest, (fun hgranted => nomatch hgranted), fun _ =>
      ⟨hrow ▸ not_le.mp hlack, _, hfound, rfl, hrow⟩⟩

/-- **One draw**, on every backend. -/
theorem tryAcquireTokens_drawn (b : Backend) (buckets : Buckets) (key : String) (count : Nat)
    (maxTokens refillRate : ℚ) (now : Int) : Drawn buckets key count maxTokens refillRate now
      (b.tryAcquireTokens buckets key count maxTokens refillRate now) := by
  cases b with
  | sqlite =>
    refine drawn_of_row count ?_ ?_ fun _ _ => rfl
    · cases hfind : buckets.find key with
      | none => rfl
      | some row => exact key_of_find hfind
    · cases buckets.find key <;> rfl
  | postgres =>
    show Drawn _ _ _ _ _ _ (Postgres.tryAcquireTokens _ _ _ _ _ _)
    unfold Postgres.tryAcquireTokens
    cases hfind : buckets.find key with
    | none =>
      obtain ⟨buckets', hins⟩ :=
        insert_isSome (t := buckets) (r := .fresh key maxTokens refillRate now) hfind
      have hrow : ∀ k, buckets'.find k =
          if key = k then some (.fresh key maxTokens refillRate now) else buckets.find k :=
        find_insert hins
      dsimp only
      rw [hins, Option.getD_some, hrow, if_pos rfl]
      refine drawn_of_row count rfl ?_ fun k hk => ?_
      · rw [hfind]
        rfl
      · rw [hrow, if_neg (Ne.symm hk)]
    | some row =>
      -- The insert finds the key taken.
      have hins : buckets.insert (.fresh key maxTokens refillRate now) = none := by
        cases hins : buckets.insert (.fresh key maxTokens refillRate now) with
        | none => rfl
        | some buckets' =>
          have hfree : buckets.find key = none := (insert_eq_some hins).1
          cases hfree.symm.trans hfind
      dsimp only
      rw [hins, Option.getD_none, hfind]
      refine drawn_of_row count (key_of_find hfind) ?_ fun _ _ => rfl
      rw [hfind]
      rfl
  | redis =>
    cases hfind : buckets.find key with
    | none | some =>
      refine drawn_of_row count rfl ?_ fun _ _ => rfl
      rw [hfind]
      rfl

/-! ## Runs -/

namespace Meter

/-- The bucket under `key` is metered against what it gave out. -/
def Accounted (config : String → RateLimitConfig) (m : Meter) (key : String) : Prop :=
  match m.buckets.find key with
  | none => m.grants key = []
  | some row =>
    Metered (config key).maxTokens (config key).refillRate row.tokens row.lastRefill (m.grants key)

variable {b : Backend} {config : String → RateLimitConfig}

theorem metered_at {m : Meter} {c : Caller} (h : m.Accounted config c.key) (ht : m.Timely c) :
    Metered (config c.key).maxTokens (config c.key).refillRate
      (level (m.buckets.find c.key) (config c.key).maxTokens (config c.key).refillRate c.now) c.now
      (m.grants c.key) := by
  have hcap : 0 ≤ (config c.key).maxTokens := le_trans zero_le_one (config c.key).one_le
  have hrate : 0 ≤ (config c.key).refillRate := le_of_lt (config c.key).pos
  unfold Accounted at h
  cases hfind : m.buckets.find c.key with
  | none =>
    rw [hfind] at h
    have hlevel : level none (config c.key).maxTokens (config c.key).refillRate c.now =
        (config c.key).maxTokens := by simp [level]
    rw [hlevel, h]
    exact .start hcap hrate c.now
  | some row =>
    rw [hfind] at h
    have hle : row.lastRefill ≤ c.now := ht row hfind
    have hlevel : level (some row) (config c.key).maxTokens (config c.key).refillRate c.now =
        min (config c.key).maxTokens
          (row.tokens + (config c.key).refillRate * (c.now - row.lastRefill : Int) / 1000) := by
      have helapsed : max (c.now - row.lastRefill) 0 = c.now - row.lastRefill :=
        max_eq_left (by omega)
      unfold level
      rw [Option.elim_some, Option.elim_some, helapsed, min_comm]
      congr 1
      ring
    rw [hlevel]
    exact h.wait hrate hle

/-- **One step** keeps every bucket accounted for. -/
theorem accounted_next {m m' : Meter} {move : Move} (h : ∀ key, m.Accounted config key)
    (hord : m.InOrder move) (hnext : m.next b config move = some m') :
    ∀ key, m'.Accounted config key := by
  intro key
  cases move with
  | tick now =>
    simp only [next] at hnext
    split at hnext <;> cases hnext
    exact h key
  | read k count =>
    cases hnext
    exact h key
  | draw i =>
    simp only [next] at hnext
    cases hc : m.callers[i]? with
    | none =>
      rw [hc] at hnext
      cases hnext
    | some c =>
      rw [hc] at hnext
      cases hnext
      have hdrawn := tryAcquireTokens_drawn b m.buckets c.key c.count
        (config c.key).maxTokens (config c.key).refillRate c.now
      have hmeter := metered_at (h c.key) (hord c hc)
      show match (m.answer b config c).2.find key with
        | none => _
        | some row => _
      by_cases hkey : key = c.key
      · subst hkey
        have hrate : 0 ≤ (config c.key).refillRate := le_of_lt (config c.key).pos
        cases hans : (m.answer b config c).1 with
        | true =>
          obtain ⟨hfit, row, hrow, hlast, htokens⟩ := hdrawn.granted hans
          have hfound : (m.answer b config c).2.find c.key = some row := hrow
          rw [hfound]
          dsimp only
          rw [if_pos ⟨rfl, rfl⟩, hlast, htokens]
          exact hmeter.spend hrate (Nat.cast_nonneg c.count) hfit
        | false =>
          obtain ⟨-, row, hrow, hlast, htokens⟩ := hdrawn.refused hans
          have hfound : (m.answer b config c).2.find c.key = some row := hrow
          rw [hfound]
          dsimp only
          rw [if_neg fun hg => (by cases hg.1), hlast, htokens]
          exact hmeter
      · have hother : (m.answer b config c).2.find key = m.buckets.find key :=
          hdrawn.others key hkey
        rw [hother]
        dsimp only
        rw [if_neg fun hg => hkey hg.2.symm]
        exact h key

theorem accounted_of_reaches {m : Meter}
    (h : Reaches (next b config) InOrder start m) (key : String) : m.Accounted config key :=
  h.invariant (I := fun m => ∀ key, m.Accounted config key) (fun _ => rfl)
    (fun _ _ _ hI hord hnext => accounted_next hI hord hnext) key

end Meter

/-- **A rate limit bounds what it grants**, on every backend, in every
interleaving of callers none of whom draws with a reading older than the
bucket's last refill: at most the capacity and what the window refills. -/
theorem rate_limit_bounds (b : Backend) (config : String → RateLimitConfig) {m : Meter}
    (h : Reaches (Meter.next b config) Meter.InOrder .start m) :
    (∀ key t₁ t₂, t₁ ≤ t₂ → spent (m.grants key) t₁ t₂ ≤
      allowance (config key).maxTokens (config key).refillRate (t₂ - t₁)) ∧
    ∀ c ∈ m.callers, m.Timely c → (m.answer b config c).1 = false → ∃ t₁ ≤ c.now,
      allowance (config c.key).maxTokens (config c.key).refillRate (c.now - t₁) <
        spent (m.grants c.key) t₁ c.now + c.count := by
  have haccount := Meter.accounted_of_reaches h
  refine ⟨fun key t₁ t₂ ht => ?_, fun c _ htimely hrefused => ?_⟩
  · have hkey := haccount key
    unfold Meter.Accounted at hkey
    cases hfind : m.buckets.find key with
    | none =>
      rw [hfind] at hkey
      rw [hkey]
      have hcap : 0 ≤ (config key).maxTokens := le_trans zero_le_one (config key).one_le
      exact (Metered.start hcap (le_of_lt (config key).pos) 0).bounded t₁ t₂ ht
    | some row =>
      rw [hfind] at hkey
      exact hkey.bounded t₁ t₂ ht
  · have hdrawn := tryAcquireTokens_drawn b m.buckets c.key c.count
      (config c.key).maxTokens (config c.key).refillRate c.now
    exact (Meter.metered_at (haccount c.key) htimely).refuse (hdrawn.refused hrefused).1

def oneASecond : String → RateLimitConfig := fun _ => ⟨1, 1, le_refl _, one_pos⟩

def overtaken : List Meter.Move :=
  [.read "task" 1, .read "task" 1, .tick 1000, .read "task" 1, .read "task" 1,
    .draw 0, .draw 1, .draw 0, .draw 0]

/-- An old reading makes the bucket refill the same second twice: three
tokens for a second in which there are two. -/
theorem old_reading_refills : ∃ m,
    Reaches (Meter.next .redis oneASecond) (fun _ _ => True) .start m ∧
      m.grants "task" = [(1000, 1), (1000, 1), (0, 1)] ∧
      allowance (oneASecond "task").maxTokens (oneASecond "task").refillRate (1000 - 0) <
        spent (m.grants "task") 0 1000 := by
  exact exists_reached overtaken

theorem punctual_callers : ∃ m,
    Reaches (Meter.next .redis oneASecond) Meter.InOrder .start m ∧
      m.grants "task" = [(1000, 1), (0, 1)] ∧
      spent (m.grants "task") 0 1000 ≤
        allowance (oneASecond "task").maxTokens (oneASecond "task").refillRate (1000 - 0) := by
  refine exists_reached_and [.read "task" 1, .tick 1000, .read "task" 1, .read "task" 1, .draw 0,
    .draw 0, .draw 0] ?_
  exact fun m hrun _ => (rate_limit_bounds .redis oneASecond hrun).1 "task" 0 1000 (by decide)

end FlexiQ.Resilience
