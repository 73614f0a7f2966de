/-
# `Lib.Overshoot` — how far count-then-add can run past a cap

A level is kept under a cap by callers that count first and add later: a call
that brings `n` goes ahead if `level + n ≤ cap`, and lands at some later
moment, when others may have landed in between.  Anybody may lower the level.

The level can run past the cap, but never by more than was in flight at ONE
moment of the past: the moment at which the last to count of those that have
landed did count.  At that moment the level left room for it, and whatever has
landed since was in flight already.
-/
import FlexiQ.Lib.Pool
import Mathlib.Data.List.Nodup
import Mathlib.Algebra.BigOperators.Group.List.Basic
import Mathlib.Algebra.Ring.Nat

namespace FlexiQ.Lib

open List

structure Flight where
  since : Nat
  size : Nat
  deriving DecidableEq, Repr

/-- The level, and the calls in flight. -/
structure Moment where
  level : Int
  window : List Flight
  deriving DecidableEq, Repr

def Moment.inFlight (m : Moment) : Nat := (m.window.map Flight.size).sum

/-- How much of it was in flight at `μ` already. -/
def Moment.overlap (m μ : Moment) : Nat :=
  ((m.window.filter fun f => f ∈ μ.window).map Flight.size).sum

structure Gauge where
  past : List Moment
  now : Moment
  deriving DecidableEq, Repr

def Gauge.moments (g : Gauge) : List Moment := g.past ++ [g.now]

def Gauge.next (g : Gauge) (m : Moment) : Gauge := ⟨g.moments, m⟩

inductive Gauge.Step (cap : Int) (g : Gauge) : Gauge → Prop
  | count {n : Nat} (hfits : g.now.level + n ≤ cap) :
      Step cap g (g.next ⟨g.now.level, g.now.window ++ [⟨g.moments.length, n⟩]⟩)
  | land {f : Flight} {level : Int} (hf : f ∈ g.now.window) (hle : level ≤ g.now.level + f.size) :
      Step cap g (g.next ⟨level, g.now.window.erase f⟩)
  | ease {level : Int} (hle : level ≤ g.now.level) : Step cap g (g.next ⟨level, g.now.window⟩)

/-! ## Sums over flights -/

theorem Moment.overlap_self (m : Moment) : m.overlap m = m.inFlight := by
  have hall : (m.window.filter fun f => f ∈ m.window) = m.window :=
    filter_eq_self.mpr fun f hf => decide_eq_true hf
  unfold overlap inFlight
  rw [hall]

theorem Moment.overlap_erase {m μ : Moment} {f : Flight} (level : Int) (hnodup : m.window.Nodup)
    (hf : f ∈ m.window) (hμ : f ∈ μ.window) :
    (⟨level, m.window.erase f⟩ : Moment).overlap μ + f.size = m.overlap μ := by
  have hin : f ∈ m.window.filter fun f => f ∈ μ.window :=
    mem_filter.mpr ⟨hf, decide_eq_true hμ⟩
  have herase : ((m.window.erase f).filter fun f => f ∈ μ.window) =
      (m.window.filter fun f => f ∈ μ.window).erase f := by
    rw [hnodup.erase_eq_filter, (hnodup.filter _).erase_eq_filter, filter_filter,
      filter_filter]
    exact filter_congr fun x _ => Bool.and_comm _ _
  have hperm := ((perm_cons_erase hin).map Flight.size).sum_eq
  unfold overlap
  rw [herase, hperm, map_cons, sum_cons, Nat.add_comm]

theorem Moment.overlap_concat {m μ : Moment} {f : Flight} (level : Int) (hμ : f ∉ μ.window) :
    (⟨level, m.window ++ [f]⟩ : Moment).overlap μ = m.overlap μ := by
  simp [overlap, filter_append, hμ]

/-! ## The invariant -/

def Gauge.At (g : Gauge) (i : Nat) (μ : Moment) : Prop := g.moments[i]? = some μ

theorem Gauge.at_next {g : Gauge} {m μ : Moment} {i : Nat} :
    (g.next m).At i μ ↔ g.At i μ ∨ (i = g.moments.length ∧ μ = m) :=
  getElem?_concat_cases

/-- What is known of a gauge that was started within the cap. -/
structure Gauge.Sound (cap : Int) (g : Gauge) : Prop where
  nodup : g.now.window.Nodup
  fresh : ∀ i μ, g.At i μ → ∀ f ∈ μ.window, f.since ≤ i
  counted : ∀ f ∈ g.now.window, (∃ μ, g.At f.since μ ∧ μ.level ≤ cap) ∧
    ∀ i μ, g.At i μ → f.since ≤ i → f ∈ μ.window
  witness : ∃ k, (∃ μ, g.At k μ ∧ μ.level ≤ cap) ∧
    ∀ i μ, g.At i μ → k ≤ i → g.now.level + g.now.overlap μ ≤ μ.level + μ.inFlight

namespace Gauge

variable {cap : Int} {g g' : Gauge} {m μ : Moment} {i : Nat}

theorem at_now (g : Gauge) : g.At g.past.length g.now := by
  simp [At, moments]

theorem lt_of_at (h : g.At i μ) : i < g.moments.length :=
  (List.getElem?_eq_some_iff.mp h).1

theorem bound_self (m : Moment) : m.level + m.overlap m ≤ m.level + m.inFlight :=
  Int.le_of_eq (congrArg (fun n : Nat => m.level + n) m.overlap_self)

theorem sound_start (hlevel : m.level ≤ cap) (hwindow : m.window = []) : Sound cap ⟨[], m⟩ := by
  have honly : ∀ i μ, (⟨[], m⟩ : Gauge).At i μ → μ = m := by
    intro i μ h
    cases i with
    | zero => exact (Option.some.inj h).symm
    | succ i => cases h
  refine ⟨hwindow ▸ nodup_nil, ?_, ?_, 0, ⟨m, rfl, hlevel⟩, ?_⟩
  · intro i μ h f hf
    rw [honly i μ h, hwindow] at hf
    cases hf
  · intro f hf
    rw [hwindow] at hf
    cases hf
  · intro i μ h _
    cases honly i μ h
    exact bound_self m

/-- The next moment, whoever is in flight then: those who were, and those who
counted just now. -/
theorem Sound.next (hg : Sound cap g) (hnodup : m.window.Nodup)
    (hwindow : ∀ f ∈ m.window, f ∈ g.now.window ∨ (f.since = g.moments.length ∧ m.level ≤ cap))
    (hwitness : ∃ k, (∃ μ, g.At k μ ∧ μ.level ≤ cap) ∧
      ∀ i μ, g.At i μ → k ≤ i → m.level + m.overlap μ ≤ μ.level + μ.inFlight) :
    Sound cap (g.next m) := by
  refine ⟨hnodup, ?_, ?_, ?_⟩
  · intro i μ hi f hf
    rcases at_next.mp hi with hi | ⟨rfl, rfl⟩
    · exact hg.fresh i μ hi f hf
    · rcases hwindow f hf with hold | ⟨hnew, -⟩
      · exact Nat.le_trans (hg.fresh _ _ g.at_now f hold) (Nat.le_of_lt (lt_of_at g.at_now))
      · exact Nat.le_of_eq hnew
  · intro f hf
    rcases hwindow f hf with hold | ⟨hnew, hroom⟩
    · obtain ⟨⟨μ₀, hat, hle⟩, hall⟩ := hg.counted f hold
      refine ⟨⟨μ₀, at_next.mpr (.inl hat), hle⟩, fun i μ hi hsince => ?_⟩
      rcases at_next.mp hi with hi | ⟨-, rfl⟩
      · exact hall i μ hi hsince
      · exact hf
    · refine ⟨⟨m, at_next.mpr (.inr ⟨hnew, rfl⟩), hroom⟩, fun i μ hi hsince => ?_⟩
      rcases at_next.mp hi with hi | ⟨-, rfl⟩
      · exact absurd (lt_of_at hi) (Nat.not_lt.mpr (hnew ▸ hsince))
      · exact hf
  · obtain ⟨k, ⟨μ₀, hat, hle⟩, hbound⟩ := hwitness
    refine ⟨k, ⟨μ₀, at_next.mpr (.inl hat), hle⟩, fun i μ hi hk => ?_⟩
    rcases at_next.mp hi with hi | ⟨-, rfl⟩
    · exact hbound i μ hi hk
    · exact bound_self _

/-- **Every move keeps the gauge sound.** -/
theorem Step.sound (h : Step cap g g') (hg : Sound cap g) : Sound cap g' := by
  obtain ⟨k, hcap, hbound⟩ := hg.witness
  cases h with
  | @count n hfits =>
    have hnew : ∀ i μ, g.At i μ → (⟨g.moments.length, n⟩ : Flight) ∉ μ.window := fun i μ hi hin =>
      absurd (lt_of_at hi) (Nat.not_lt.mpr (hg.fresh i μ hi _ hin))
    refine hg.next ?_ ?_ ⟨k, hcap, fun i μ hi hk => ?_⟩
    · exact nodup_append'.mpr ⟨hg.nodup, nodup_singleton _,
        disjoint_singleton.mpr (hnew _ _ g.at_now)⟩
    · intro f hf
      rcases mem_append.mp hf with hf | hf
      · exact .inl hf
      · cases mem_singleton.mp hf
        exact .inr ⟨rfl, by dsimp only; omega⟩
    · rw [Moment.overlap_concat _ (hnew i μ hi)]
      exact hbound i μ hi hk
  | @land f level hf hle =>
    -- The one that lands takes over as the witness if it counted later.
    obtain ⟨hcounted, hflying⟩ := hg.counted f hf
    refine hg.next (hg.nodup.erase f) (fun f' hf' => .inl (mem_of_mem_erase hf'))
      ⟨max k f.since, ?_, fun i μ hi hk => ?_⟩
    · rcases Nat.le_total k f.since with hlater | hearlier
      · rw [Nat.max_eq_right hlater]
        exact hcounted
      · rw [Nat.max_eq_left hearlier]
        exact hcap
    · have hin := hflying i μ hi (Nat.le_trans (Nat.le_max_right k f.since) hk)
      have hold := hbound i μ hi (Nat.le_trans (Nat.le_max_left k f.since) hk)
      have hless := Moment.overlap_erase level hg.nodup hf hin
      dsimp only at hless ⊢
      omega
  | @ease level hle =>
    refine hg.next hg.nodup (fun f hf => .inl hf) ⟨k, hcap, fun i μ hi hk => ?_⟩
    have hold := hbound i μ hi hk
    have hsame : (⟨level, g.now.window⟩ : Moment).overlap μ = g.now.overlap μ := rfl
    dsimp only at hsame ⊢
    omega

/-- **The overshoot is bounded** by what was in flight at one moment. -/
theorem Sound.overshoot (hg : Sound cap g) : ∃ μ ∈ g.moments, g.now.level ≤ cap + μ.inFlight := by
  obtain ⟨k, ⟨μ, hat, hle⟩, hbound⟩ := hg.witness
  refine ⟨μ, mem_of_getElem? hat, ?_⟩
  have hnow := hbound k μ hat (Nat.le_refl k)
  omega

end Gauge

end FlexiQ.Lib
