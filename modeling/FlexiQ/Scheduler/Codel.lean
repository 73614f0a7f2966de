/-
# `Scheduler.Codel` — the controller that sheds a standing queue

`scheduler/codel.rs`.  One controller per queue is shown every candidate's
sojourn.  It arms a timer when a sojourn reaches the target, disarms it when
one stays below, and answers `true` (shed this job) from the timer on, at
instants that `control_law` spaces.

The spacing is a float computation and a parameter here: what is proved needs
only that at least one millisecond is added.
-/
import FlexiQ.Quota.Admission

namespace FlexiQ.Scheduler

open List FlexiQ.Quota FlexiQ.Resilience

structure CodelConfig where
  targetMs : Int
  intervalMs : Int

/-- `CodelState`.  A `first_above_time` of 0 is a timer that is not armed. -/
structure CodelState where
  firstAboveTime : Int
  dropNext : Int
  count : Nat
  dropping : Bool

def CodelState.start : CodelState := ⟨0, 0, 0, false⟩

structure Sample where
  sojourn : Int
  now : Int

namespace CodelState

variable (spacing : Int → Nat → Int) (cfg : CodelConfig)

def controlLaw (count : Nat) (now : Int) : Int :=
  saturatingAdd now (max (spacing cfg.intervalMs (max count 1)) 1)

def shouldDrop (x : Sample) (s : CodelState) : Bool × CodelState :=
  if x.sojourn < cfg.targetMs then (false, { s with firstAboveTime := 0, dropping := false })
  else if s.firstAboveTime = 0 then
    (false, { s with firstAboveTime := saturatingAdd x.now cfg.intervalMs })
  else if x.now < s.firstAboveTime then (false, s)
  else if s.dropping = false then
    -- The product wraps; either count only changes the spacing.
    let count := if s.count > 2 ∧
        saturatingSub x.now s.dropNext < Int.bmod (8 * cfg.intervalMs) (2 ^ 64) then s.count - 2
      else 1
    (true, { s with dropping := true, count, dropNext := controlLaw spacing cfg count x.now })
  else if x.now ≥ s.dropNext then
    let count := min (s.count + 1) (2 ^ 32 - 1)
    (true, { s with count, dropNext := controlLaw spacing cfg count x.now })
  else (false, s)

def after (s : CodelState) (past : List Sample) : CodelState :=
  past.foldl (fun s x => (shouldDrop spacing cfg x s).2) s

variable {spacing cfg} {s : CodelState} {x : Sample}

inductive Turn (spacing : Int → Nat → Int) (cfg : CodelConfig) (x : Sample) (s : CodelState) :
    Bool × CodelState → Prop
  | disarms (hlow : x.sojourn < cfg.targetMs) :
      Turn spacing cfg x s (false, { s with firstAboveTime := 0, dropping := false })
  | arms (hhigh : cfg.targetMs ≤ x.sojourn) :
      Turn spacing cfg x s (false, { s with firstAboveTime := saturatingAdd x.now cfg.intervalMs })
  | holds (hhigh : cfg.targetMs ≤ x.sojourn) : Turn spacing cfg x s (false, s)
  | sheds {s' : CodelState} (hhigh : cfg.targetMs ≤ x.sojourn) (harmed : s.firstAboveTime ≠ 0)
      (hdue : s.firstAboveTime ≤ x.now) (hspaced : s.dropping = true → s.dropNext ≤ x.now)
      (htimer : s'.firstAboveTime = s.firstAboveTime) (hdropping : s'.dropping = true)
      (hnext : ∃ count, s'.dropNext = controlLaw spacing cfg count x.now) :
      Turn spacing cfg x s (true, s')

theorem shouldDrop_turn : Turn spacing cfg x s (shouldDrop spacing cfg x s) := by
  unfold shouldDrop
  split
  · next hlow => exact .disarms hlow
  next hhigh =>
  rw [not_lt] at hhigh
  split
  · exact .arms hhigh
  next harmed =>
  split
  · exact .holds hhigh
  next hdue =>
  rw [not_lt] at hdue
  split
  · next hidle => exact .sheds hhigh harmed hdue (by simp [hidle]) rfl rfl ⟨_, rfl⟩
  next hdropping =>
  split
  · next hspaced =>
    exact .sheds hhigh harmed hdue (fun _ => hspaced) rfl (by simpa using hdropping) ⟨_, rfl⟩
  · exact .holds hhigh

theorem le_saturatingAdd {a b : Int} (h : saturatingAdd a b < 2 ^ 63 - 1) :
    a + b ≤ saturatingAdd a b := by
  unfold saturatingAdd at h ⊢
  omega

theorem lt_saturatingAdd {a b : Int} (ha : a < 2 ^ 63 - 1) (hb : 1 ≤ b) :
    a < saturatingAdd a b := by
  unfold saturatingAdd
  omega

/-! ## The timer -/

/-- An armed timer was armed by a sample since when none was below the
target. -/
def Armed (cfg : CodelConfig) (past : List Sample) (s : CodelState) : Prop :=
  s.firstAboveTime ≠ 0 → ∃ pre first mid, past = pre ++ first :: mid ∧
    saturatingAdd first.now cfg.intervalMs = s.firstAboveTime ∧
    ∀ y ∈ first :: mid, cfg.targetMs ≤ y.sojourn

theorem Armed.concat {past : List Sample} {s' : CodelState} (h : Armed cfg past s)
    (hhigh : cfg.targetMs ≤ x.sojourn) (hsame : s'.firstAboveTime = s.firstAboveTime) :
    Armed cfg (past ++ [x]) s' := by
  intro hne
  rw [hsame] at hne ⊢
  obtain ⟨pre, first, mid, rfl, htimer, hall⟩ := h hne
  refine ⟨pre, first, mid ++ [x], by simp, htimer, ?_⟩
  rw [← cons_append, forall_mem_append]
  exact ⟨hall, by simpa using hhigh⟩

theorem armed_after (past : List Sample) : Armed cfg past (after spacing cfg .start past) := by
  induction past using List.reverseRecOn with
  | nil => exact fun hne => absurd rfl hne
  | append_singleton past x ih =>
    rw [after, foldl_concat, ← after]
    generalize hout : shouldDrop spacing cfg x (after spacing cfg .start past) = out
    cases (hout ▸ shouldDrop_turn : Turn spacing cfg x _ out) with
    | disarms => exact fun hne => absurd rfl hne
    | arms hhigh => exact fun _ => ⟨past, x, [], rfl, rfl, by simpa using hhigh⟩
    | holds hhigh => exact ih.concat hhigh rfl
    | sheds hhigh _ _ _ htimer => exact ih.concat hhigh htimer

/-! ## The spacing -/

/-- Nothing is shed at `t` any more. -/
def Past (t : Int) (s : CodelState) : Prop :=
  (s.dropping = true → t < s.dropNext) ∧
    (s.dropping = false → s.firstAboveTime = 0 ∨ t < s.firstAboveTime)

/-- What is shed is the last at its instant, and what comes later leaves it
so. -/
theorem past_shouldDrop {t : Int} (ht : t ≤ x.now) (hx : x.now < 2 ^ 63 - 1)
    (hint : 1 ≤ cfg.intervalMs) (h : Past t s ∨ (shouldDrop spacing cfg x s).1 = true) :
    Past t (shouldDrop spacing cfg x s).2 ∧
      (Past t s → (shouldDrop spacing cfg x s).1 = true → t < x.now) := by
  generalize hout : shouldDrop spacing cfg x s = out at h ⊢
  cases (hout ▸ shouldDrop_turn : Turn spacing cfg x s out) with
  | disarms => exact ⟨⟨nofun, fun _ => .inl rfl⟩, fun _ => nofun⟩
  | arms =>
    obtain ⟨hnext, -⟩ := h.resolve_right nofun
    exact ⟨⟨hnext, fun _ => .inr (ht.trans_lt (lt_saturatingAdd hx hint))⟩, fun _ => nofun⟩
  | holds => exact ⟨h.resolve_right nofun, fun _ => nofun⟩
  | sheds _ harmed hdue hspaced _ hdropping hnext =>
    obtain ⟨count, hnext⟩ := hnext
    have hlater : t < controlLaw spacing cfg count x.now :=
      ht.trans_lt (lt_saturatingAdd hx (le_max_right _ _))
    refine ⟨⟨fun _ => hnext ▸ hlater, by simp [hdropping]⟩, fun hpast _ => ?_⟩
    cases hs : s.dropping with
    | true => exact (hpast.1 hs).trans_le (hspaced hs)
    | false => exact ((hpast.2 hs).resolve_left harmed).trans_le hdue

theorem past_after {t : Int} (hint : 1 ≤ cfg.intervalMs) {mid : List Sample}
    (hmid : ∀ y ∈ mid, t ≤ y.now ∧ y.now < 2 ^ 63 - 1) (h : Past t s) :
    Past t (after spacing cfg s mid) := by
  induction mid generalizing s with
  | nil => exact h
  | cons y mid ih =>
    obtain ⟨⟨ht, hy⟩, hmid⟩ := forall_mem_cons.mp hmid
    exact ih hmid (past_shouldDrop ht hy hint (.inl h)).1

/-- **CoDel sheds only under standing delay**: whatever is shed has a sample an
interval earlier since when no sojourn was below the target. -/
theorem shed_under_standing_delay {past : List Sample} (hint : 1 ≤ cfg.intervalMs)
    (hsorted : (past ++ [x]).Pairwise fun y z => y.now ≤ z.now)
    (hbefore : ∀ y ∈ past ++ [x], y.now < 2 ^ 63 - 1)
    (hshed : (shouldDrop spacing cfg x (after spacing cfg .start past)).1 = true) :
    (∃ pre first mid, past = pre ++ first :: mid ∧ first.now ≤ x.now - cfg.intervalMs ∧
      ∀ y ∈ first :: mid ++ [x], cfg.targetMs ≤ y.sojourn) ∧
    ∀ pre y mid, past = pre ++ y :: mid →
      (shouldDrop spacing cfg y (after spacing cfg .start pre)).1 = true → y.now ≠ x.now := by
  have hx : x.now < 2 ^ 63 - 1 := hbefore x (by simp)
  refine ⟨?_, ?_⟩
  · generalize hout : shouldDrop spacing cfg x (after spacing cfg .start past) = out at hshed
    cases (hout ▸ shouldDrop_turn : Turn spacing cfg x _ out) with
    | sheds hhigh harmed hdue =>
      obtain ⟨pre, first, mid, hpast, htimer, hall⟩ := armed_after past harmed
      rw [← htimer] at hdue
      have hle := le_saturatingAdd (hdue.trans_lt hx)
      refine ⟨pre, first, mid, hpast, by omega, ?_⟩
      rw [List.forall_mem_append]
      exact ⟨hall, by simpa using hhigh⟩
    | _ => cases hshed
  · rintro pre y mid rfl hy heq
    rw [List.append_assoc, List.cons_append] at hsorted hbefore
    obtain ⟨hfirst, hrest⟩ := List.forall_mem_cons.mp (List.forall_mem_append.mp hbefore).2
    have hle := (List.pairwise_cons.mp (List.pairwise_append.mp hsorted).2.1).1
    have hpast : Past y.now (after spacing cfg (shouldDrop spacing cfg y _).2 mid) :=
      past_after hint (fun z hz => ⟨hle z (List.mem_append_left _ hz),
        hrest z (List.mem_append_left _ hz)⟩) (past_shouldDrop le_rfl hfirst hint (.inr hy)).1
    rw [after, List.foldl_append, List.foldl_cons] at hshed
    exact ((past_shouldDrop (hle x (by simp)) hx hint (.inl hpast)).2 hpast hshed).ne heq

/-- `interval / sqrt(count)` over exact numbers. -/
def exactSpacing (interval : Int) (count : Nat) : Int := Nat.sqrt (interval.toNat ^ 2 / count)

/-- At the last instant a timer set a millisecond before is up, and two jobs
are shed at once. -/
theorem shed_at_the_end_of_time :
    (shouldDrop exactSpacing ⟨5, 100⟩ ⟨10, 2 ^ 63 - 1⟩
      (after exactSpacing ⟨5, 100⟩ .start [⟨10, 2 ^ 63 - 2⟩])).1 = true ∧
    (shouldDrop exactSpacing ⟨5, 100⟩ ⟨10, 2 ^ 63 - 1⟩
      (after exactSpacing ⟨5, 100⟩ .start [⟨10, 2 ^ 63 - 2⟩, ⟨10, 2 ^ 63 - 1⟩])).1 = true := by
  decide +kernel

theorem shed_after_an_interval :
    ∃ pre first mid, [(⟨10, 0⟩ : Sample), ⟨10, 50⟩] = pre ++ first :: mid ∧
      first.now ≤ 120 - 100 ∧ ∀ y ∈ first :: mid ++ [⟨10, 120⟩], 5 ≤ y.sojourn :=
  (@shed_under_standing_delay exactSpacing ⟨5, 100⟩ ⟨10, 120⟩ _
    (by decide) (by decide) (by decide) (by decide +kernel)).1

end CodelState

end FlexiQ.Scheduler
