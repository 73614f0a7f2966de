/-
# `Lib.Runs` — runs of a labelled system, and the invariant rule

A system is a partial step function `S → L → Option S`.  The label carries
every choice the environment makes — which call is made, with which
arguments, at what time — so that one label from one state has one
successor, and a concrete run can be evaluated.

`Reaches step ok s s'` is a run from `s` to `s'` EVERY step of which met `ok`
in the state it was taken from.  All inductions over runs in the development
go through `Reaches.invariant`.
-/
import Mathlib.Logic.Basic
import Mathlib.Data.Option.Basic

namespace FlexiQ.Lib

section Runs

variable {S L : Type}

/-- A run from `s`, each of whose steps met `ok` where it was taken. -/
inductive Reaches (step : S → L → Option S) (ok : S → L → Prop) (s : S) : S → Prop
  | refl : Reaches step ok s s
  | tail {t t' : S} {l : L} : Reaches step ok s t → ok t l → step t l = some t' →
      Reaches step ok s t'

variable {step : S → L → Option S} {ok : S → L → Prop} {s s' : S}

/-- **The invariant rule.**  What holds at the start and survives each step
that meets `ok` holds wherever such steps lead. -/
theorem Reaches.invariant {I : S → Prop} (hr : Reaches step ok s s') (hs : I s)
    (hstep : ∀ t l t', I t → ok t l → step t l = some t' → I t') : I s' := by
  induction hr with
  | refl => exact hs
  | tail _ hok hl ih => exact hstep _ _ _ ih hok hl

theorem Reaches.mono {ok' : S → L → Prop} (hr : Reaches step ok s s')
    (h : ∀ t l, ok t l → ok' t l) : Reaches step ok' s s' := by
  induction hr with
  | refl => exact .refl
  | tail _ hok hl ih => exact .tail ih (h _ _ hok) hl

theorem Reaches.relabel {L' : Type} {ok' : S → L' → Prop} (f : L' → L)
    (hok : ∀ t l, ok' t l → ok t (f l)) (hr : Reaches (fun s l => step s (f l)) ok' s s') :
    Reaches step ok s s' := by
  induction hr with
  | refl => exact .refl
  | tail _ hl hnext ih => exact .tail ih (hok _ _ hl) hnext

theorem Reaches.head {t : S} {l : L} (hok : ok s l) (hl : step s l = some t)
    (hr : Reaches step ok t s') : Reaches step ok s s' := by
  induction hr with
  | refl => exact .tail .refl hok hl
  | tail _ hok' hl' ih => exact .tail ih hok' hl'

/-- Take the labels one by one; `none` as soon as a step is refused or fails
`ok`. -/
def exec (step : S → L → Option S) (ok : S → L → Prop) [∀ s l, Decidable (ok s l)] :
    S → List L → Option S
  | s, [] => some s
  | s, l :: ls => if ok s l then (step s l).bind fun t => exec step ok t ls else none

theorem reaches_of_exec [∀ s l, Decidable (ok s l)] {ls : List L}
    (h : exec step ok s ls = some s') : Reaches step ok s s' := by
  induction ls generalizing s with
  | nil =>
    cases h
    exact .refl
  | cons l ls ih =>
    rw [exec] at h
    split at h
    · next hok =>
        obtain ⟨t, ht, hrest⟩ := Option.bind_eq_some_iff.mp h
        exact .head hok ht (ih hrest)
    · cases h

/-- A property found at the end of an evaluated run holds of a state that is
reached. -/
theorem exists_reached [∀ s l, Decidable (ok s l)] (ls : List L) {P : S → Prop} [DecidablePred P]
    (h : (exec step ok s ls).any (fun t => decide (P t)) = true := by decide +kernel) :
    ∃ t, Reaches step ok s t ∧ P t := by
  obtain ⟨t, ht, hP⟩ := (Option.any_eq_true _ _).mp h
  exact ⟨t, reaches_of_exec ht, of_decide_eq_true hP⟩

section

variable [∀ s l, Decidable (ok s l)] (ls : List L) {P Q : S → Prop} [DecidablePred P]
  (hQ : ∀ t, Reaches step ok s t → P t → Q t)
include hQ

theorem exists_reached_imp
    (h : (exec step ok s ls).any (fun t => decide (P t)) = true := by decide +kernel) :
    ∃ t, Reaches step ok s t ∧ Q t := by
  obtain ⟨t, ht, hP⟩ := exists_reached ls h
  exact ⟨t, ht, hQ t ht hP⟩

theorem exists_reached_and
    (h : (exec step ok s ls).any (fun t => decide (P t)) = true := by decide +kernel) :
    ∃ t, Reaches step ok s t ∧ P t ∧ Q t :=
  exists_reached_imp ls (fun t ht hP => ⟨hP, hQ t ht hP⟩) h

end

instance decidableExistsOk {ε α : Type} (r : Except ε α) : Decidable (∃ a, r = .ok a) :=
  match r with
  | .ok a => isTrue ⟨a, rfl⟩
  | .error _ => isFalse nofun

end Runs

end FlexiQ.Lib
