/-
# `Lib.Goes` — the ways a program can go

A program (`Lib.Prog`) whose calls are answered by a service and by an
OUTSIDE that nobody controls: a clock, a failing connection, a minted id.
`p.Goes exec ok w a w'` says that from `w` the program can return `a` and
leave `w'`, each call having met something from outside that `ok` allows.

A statement about all ways a program can go is proved by taking them apart,
one equation for each way of building a program.  One way is exhibited by
listing what each call met (`goes_of_play`).
-/
import FlexiQ.Lib.Prog
import Mathlib.Data.Option.Basic

namespace FlexiQ.Lib

namespace Prog

variable {C O W α β : Type} {R : C → Type}

def Goes (exec : O → (c : C) → W → R c × W) (ok : O → C → W → Prop) : Prog C R α → W → α → W → Prop
  | .ret a, w, a', w' => a' = a ∧ w' = w
  | .step c k, w, a', w' => ∃ o, ok o c w ∧ (k (exec o c w).1).Goes exec ok (exec o c w).2 a' w'

variable {exec : O → (c : C) → W → R c × W} {ok : O → C → W → Prop} {w w' : W} {p : Prog C R α}
  {a : α}

@[simp] theorem goes_call {c : C} {r : R c} :
    (call c : Prog C R (R c)).Goes exec ok w r w' ↔ ∃ o, ok o c w ∧ exec o c w = (r, w') := by
  constructor
  · rintro ⟨o, ho, rfl, rfl⟩
    exact ⟨o, ho, rfl⟩
  · rintro ⟨o, ho, h⟩
    refine ⟨o, ho, ?_, ?_⟩
    · rw [h]
    · rw [h]

@[simp] theorem goes_bind {f : α → Prog C R β} {w'' : W} {b : β} : (p >>= f).Goes exec ok w b w'' ↔
      ∃ a w', p.Goes exec ok w a w' ∧ (f a).Goes exec ok w' b w'' := by
  induction p generalizing w with
  | ret a =>
    constructor
    · intro h
      exact ⟨a, w, ⟨rfl, rfl⟩, h⟩
    · rintro ⟨a', w', ⟨rfl, rfl⟩, h⟩
      exact h
  | step c k ih =>
    constructor
    · rintro ⟨o, ho, h⟩
      obtain ⟨a, w', hk, hf⟩ := (ih _).mp h
      exact ⟨a, w', ⟨o, ho, hk⟩, hf⟩
    · rintro ⟨a, w', ⟨o, ho, hk⟩, hf⟩
      exact ⟨o, ho, (ih _).mpr ⟨a, w', hk, hf⟩⟩

/-! ## By the calls a program can issue -/

theorem Goes.kept {Q : C → Prop} {P : α → Prop} {I : W → Prop} (h : p.Goes exec ok w a w')
    (hp : p.Sat Q P) (hcall : ∀ o c w, Q c → ok o c w → I w → I (exec o c w).2) (hw : I w) :
    I w' := by
  induction p generalizing w with
  | ret _ => exact h.2 ▸ hw
  | step c k ih =>
    obtain ⟨o, ho, hk⟩ := h
    exact ih _ hk (hp.2 _) (hcall o c w hp.1 ho hw)

/-! ## One way -/

theorem goes_somewhere (hok : ∀ c w, ∃ o, ok o c w) (p : Prog C R α) (w : W) :
    ∃ a w', p.Goes exec ok w a w' := by
  induction p generalizing w with
  | ret a => exact ⟨a, w, rfl, rfl⟩
  | step c k ih =>
    obtain ⟨o, ho⟩ := hok c w
    obtain ⟨a, w', hk⟩ := ih (exec o c w).1 (exec o c w).2
    exact ⟨a, w', o, ho, hk⟩

/-- Run on a list of what the calls meet, one for each; `none` if a call
meets what is not allowed, or nothing. -/
def play (exec : O → (c : C) → W → R c × W) (ok : O → C → W → Prop)
    [∀ o c w, Decidable (ok o c w)] : List O → Prog C R α → W → Option (α × W)
  | _, .ret a, w => some (a, w)
  | [], .step _ _, _ => none
  | o :: os, .step c k, w =>
    if ok o c w then play exec ok os (k (exec o c w).1) (exec o c w).2 else none

theorem goes_of_play [∀ o c w, Decidable (ok o c w)] {os : List O}
    (h : play exec ok os p w = some (a, w')) : p.Goes exec ok w a w' := by
  induction p generalizing os w with
  | ret b =>
    have heq : some (b, w) = some (a, w') := by
      cases os <;> exact h
    cases heq
    exact ⟨rfl, rfl⟩
  | step c k ih =>
    cases os with
    | nil => cases h
    | cons o os =>
      rw [play] at h
      split at h
      · next ho => exact ⟨o, ho, ih _ h⟩
      · cases h

theorem exists_goes [∀ o c w, Decidable (ok o c w)] (os : List O) {P : α → W → Prop}
    [∀ a w, Decidable (P a w)]
    (h : (play exec ok os p w).any (fun r => decide (P r.1 r.2)) = true := by decide +kernel) :
    ∃ a w', p.Goes exec ok w a w' ∧ P a w' := by
  obtain ⟨⟨a, w'⟩, hplay, hP⟩ := (Option.any_eq_true _ _).mp h
  exact ⟨a, w', goes_of_play hplay, of_decide_eq_true hP⟩

end Prog

end FlexiQ.Lib
