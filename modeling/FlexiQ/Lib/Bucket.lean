/-
# `Lib.Bucket` — what a token bucket lets through

A bucket holds at most `cap` tokens, gains `rate` of them a second, and is
brought up to date at the times it is asked.  `Metered` ties what is in it to
everything it ever gave out: for each instant `t` up to now, what was given
out since `t` and what is left are together at most `allowance cap rate t`;
and there is an instant for which they are exactly that.  The first half is
why no window sees more than its allowance, the second is why a request is
turned away only when it would.
-/
import Mathlib.Algebra.BigOperators.Group.List.Basic
import Mathlib.Data.Rat.Cast.Order
import Mathlib.Tactic.Linarith
import Mathlib.Tactic.Ring
import Mathlib.Tactic.Positivity

namespace FlexiQ.Lib

abbrev Spending := List (Int × ℚ)

def spent (log : Spending) (t₁ t₂ : Int) : ℚ :=
  ((log.filter fun e => t₁ ≤ e.1 ∧ e.1 ≤ t₂).map Prod.snd).sum

def allowance (cap rate : ℚ) (ms : Int) : ℚ := cap + rate * ms / 1000

theorem allowance_add (cap rate : ℚ) (a b : Int) :
    allowance cap rate (a + b) = allowance cap rate a + rate * b / 1000 := by
  unfold allowance
  push_cast
  ring

theorem allowance_mono {cap rate : ℚ} (hrate : 0 ≤ rate) {a b : Int} (h : a ≤ b) :
    allowance cap rate a ≤ allowance cap rate b := by
  unfold allowance
  have hcast : (a : ℚ) ≤ b := by exact_mod_cast h
  have hmul := mul_le_mul_of_nonneg_left hcast hrate
  linarith

@[simp] theorem allowance_zero (cap rate : ℚ) : allowance cap rate 0 = cap := by
  simp [allowance]

theorem cap_le_allowance {cap rate : ℚ} (hrate : 0 ≤ rate) {ms : Int} (h : 0 ≤ ms) :
    cap ≤ allowance cap rate ms :=
  (allowance_zero cap rate).symm.le.trans (allowance_mono hrate h)

section Spent

variable {log : Spending} {t₁ t₂ : Int}

theorem spent_cons (t : Int) (n : ℚ) : spent ((t, n) :: log) t₁ t₂ =
    (if t₁ ≤ t ∧ t ≤ t₂ then n else 0) + spent log t₁ t₂ := by
  unfold spent
  rw [List.filter_cons]
  by_cases h : t₁ ≤ t ∧ t ≤ t₂ <;> simp [h]

theorem spent_extend {t : Int} (hpast : ∀ e ∈ log, e.1 ≤ t₂) (h : t₂ ≤ t) :
    spent log t₁ t = spent log t₁ t₂ := by
  unfold spent
  congr 2
  refine List.filter_congr fun e he => ?_
  have hle := hpast e he
  exact decide_eq_decide.mpr ⟨fun hw => ⟨hw.1, hle⟩, fun hw => ⟨hw.1, by omega⟩⟩

theorem spent_after (hpast : ∀ e ∈ log, e.1 < t₁) : spent log t₁ t₂ = 0 := by
  have hnone : log.filter (fun e => decide (t₁ ≤ e.1 ∧ e.1 ≤ t₂)) = [] := by
    rw [List.filter_eq_nil_iff]
    intro e he
    have hlt := hpast e he
    simp only [decide_eq_true_eq]
    omega
  rw [spent, hnone]
  rfl

end Spent

/-- The bucket, which was last brought up to date at `last`, against what it
gave out. -/
structure Metered (cap rate tokens : ℚ) (last : Int) (log : Spending) : Prop where
  past : ∀ e ∈ log, e.1 ≤ last
  full : tokens ≤ cap
  bounded : ∀ t₁ t₂, t₁ ≤ t₂ → spent log t₁ t₂ ≤ allowance cap rate (t₂ - t₁)
  below : ∀ t ≤ last, spent log t last + tokens ≤ allowance cap rate (last - t)
  tight : ∃ t ≤ last, spent log t last + tokens = allowance cap rate (last - t)

namespace Metered

variable {cap rate tokens : ℚ} {last now : Int} {log : Spending}

theorem start (hcap : 0 ≤ cap) (hrate : 0 ≤ rate) (now : Int) : Metered cap rate cap now [] := by
  have hempty : ∀ t₁ t₂, spent [] t₁ t₂ = 0 := fun _ _ => rfl
  refine ⟨fun e he => absurd he List.not_mem_nil, le_refl _, ?_, ?_, now, le_refl _, ?_⟩
  · intro t₁ t₂ h
    rw [hempty]
    exact hcap.trans (cap_le_allowance hrate (by omega))
  · intro t h
    rw [hempty, zero_add]
    exact cap_le_allowance hrate (by omega)
  · rw [hempty, zero_add, sub_self, allowance_zero]

section

variable (h : Metered cap rate tokens last log)
include h

theorem wait (hrate : 0 ≤ rate) (hle : last ≤ now) :
    Metered cap rate (min cap (tokens + rate * (now - last : Int) / 1000)) now log := by
  have hspent : ∀ t, spent log t now = spent log t last := fun t => spent_extend h.past hle
  have hgain : ∀ t : Int, allowance cap rate (now - t) =
      allowance cap rate (last - t) + rate * (now - last : Int) / 1000 := by
    intro t
    rw [← allowance_add]
    congr 1
    omega
  refine ⟨fun e he => (h.past e he).trans hle, min_le_left _ _, h.bounded, ?_, ?_⟩
  · intro t ht
    by_cases hold : t ≤ last
    · have hbelow := h.below t hold
      have hmin : min cap (tokens + rate * (now - last : Int) / 1000) ≤ _ := min_le_right _ _
      rw [hspent, hgain]
      linarith
    · -- Nothing was given out since `t`.
      have hzero : spent log t now = 0 :=
        spent_after fun e he => lt_of_le_of_lt (h.past e he) (not_le.mp hold)
      rw [hzero, zero_add]
      exact (min_le_left _ _).trans (cap_le_allowance hrate (by omega))
  · obtain ⟨t, ht, htight⟩ := h.tight
    rcases le_total (tokens + rate * (now - last : Int) / 1000) cap with hfit | hover
    · refine ⟨t, ht.trans hle, ?_⟩
      rw [min_eq_right hfit, hspent, hgain]
      linarith
    · -- The bucket is full again: count from now, unless no time has passed.
      by_cases hsame : last = now
      · subst hsame
        have hzero : tokens + rate * (last - last : Int) / 1000 = tokens := by simp
        rw [hzero] at hover ⊢
        have hfull : tokens = cap := le_antisymm h.full hover
        refine ⟨t, ht, ?_⟩
        rw [min_eq_left hover, ← hfull]
        rw [hfull] at htight ⊢
        exact htight
      · refine ⟨now, le_refl _, ?_⟩
        have hzero : spent log now now = 0 :=
          spent_after fun e he => lt_of_le_of_lt (h.past e he) (lt_of_le_of_ne hle hsame)
        rw [hzero, zero_add, min_eq_left hover, sub_self, allowance_zero]

theorem spend (hrate : 0 ≤ rate) {n : ℚ} (hn : 0 ≤ n)
    (hfit : n ≤ tokens) : Metered cap rate (tokens - n) last ((last, n) :: log) := by
  have hnew : ∀ t ≤ last, spent ((last, n) :: log) t last = n + spent log t last := by
    intro t ht
    rw [spent_cons, if_pos ⟨ht, le_refl _⟩]
  refine ⟨?_, by linarith [h.full], ?_, ?_, ?_⟩
  · intro e he
    rcases List.mem_cons.mp he with rfl | he
    · exact le_refl _
    · exact h.past e he
  · intro t₁ t₂ ht
    rw [spent_cons]
    split
    · next hin =>
      -- The window ends at `last` or after it, and nothing is after it.
      have hbelow := h.below t₁ hin.1
      have hmono : allowance cap rate (last - t₁) ≤ allowance cap rate (t₂ - t₁) :=
        allowance_mono hrate (by omega)
      rw [spent_extend h.past hin.2]
      linarith
    · rw [zero_add]
      exact h.bounded t₁ t₂ ht
  · intro t ht
    have hbelow := h.below t ht
    rw [hnew t ht]
    linarith
  · obtain ⟨t, ht, htight⟩ := h.tight
    refine ⟨t, ht, ?_⟩
    rw [hnew t ht]
    linarith

theorem refuse {n : ℚ} (hlack : tokens < n) :
    ∃ t ≤ last, allowance cap rate (last - t) < spent log t last + n := by
  obtain ⟨t, ht, htight⟩ := h.tight
  exact ⟨t, ht, by linarith⟩

end

end Metered

end FlexiQ.Lib
