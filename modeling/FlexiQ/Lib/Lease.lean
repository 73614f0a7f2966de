/-
# `Lib.Lease` — a lease with tokens, as an observer sees it

A store that leases a task out shows three things of it: whether the task is
being executed, and at which attempt; the claim on record, with the token it
was taken under if it carries one; and the marker of a promise to settle
later, with its deadline.  That is a `Lease`.

A `Watch` is what an observer remembers who sees every change of one lease.
Three things are then worth knowing of a store, and each is carried through a
change by one rule:

* `Fenced` — no spent token is on record;
* `Kept` — a marker belongs to the claim it was written under;
* `Single` — a promise is settled at most once.
-/
import Mathlib.Data.Option.Basic
import Mathlib.Data.List.Basic

namespace FlexiQ.Lib

/-- What a store shows of one task.  `stage` is `none` when the task is not
live, and otherwise says whether it is being executed. -/
structure Lease where
  stage : Option (Bool × Int)
  claim : Option (Option Int)
  marker : Option Int
  deriving DecidableEq, Repr

/-- The attempt is over: the task left the stage it was in, and not in order
to be executed. -/
def Lease.Ends (a b : Lease) : Prop :=
  a.stage.isSome = true ∧ b.stage ≠ a.stage ∧ b.stage.all (fun s => !s.1) = true
  deriving Decidable

/-- What the observer is told about a change, beside what it sees: a promise
to settle was accepted, or one was settled. -/
inductive Note
  | quiet
  | promised
  | settled
  deriving DecidableEq, Repr

/-- What the observer remembers.  `tenant` outlives the claim it came with:
a claim that merely disappears has been superseded by nobody. -/
structure Watch where
  minted : List Int
  tenant : Option Int
  spent : List Int
  promise : Option (Option Int)
  settles : Nat
  deriving DecidableEq, Repr

namespace Watch

def start : Watch := ⟨[], none, [], none, 0⟩

def heir (w : Watch) (a b : Lease) : Option Int :=
  if a.Ends b then none else b.claim.join <|> w.tenant

def spends (w : Watch) (a b : Lease) : List Int :=
  if w.heir a b = w.tenant then w.spent
  else (w.tenant.filter (· ∈ w.minted)).toList ++ w.spent

/-- The promise that stands after a change: the one just accepted, or the
one before, unless the attempt is over or the claim is another. -/
def stands (w : Watch) (note : Note) (a b : Lease) : Option (Option Int) :=
  if note = .promised then b.claim
  else if a.Ends b ∨ (b.claim ≠ none ∧ b.claim ≠ w.promise) then none
  else w.promise

/-- How often the last promise has been settled after a change. -/
def tally (w : Watch) : Note → Nat
  | .quiet => w.settles
  | .promised => 0
  | .settled => w.settles + 1

/-- One change, during which the tokens `mints` were minted. -/
def see (w : Watch) (mints : List Int) (note : Note) (a b : Lease) : Watch where
  minted := mints ++ w.minted
  tenant := w.heir a b
  spent := w.spends a b
  promise := w.stands note a b
  settles := w.tally note

/-! ## Spent tokens -/

/-- A spent token is neither the tenant's nor on record. -/
def Fenced (w : Watch) (a : Lease) : Prop :=
  ∀ e ∈ w.spent, e ∈ w.minted ∧ w.tenant ≠ some e ∧ a.claim ≠ some (some e)

theorem Fenced.start (a : Lease) : start.Fenced a := by
  intro e he
  cases he

variable {w : Watch} {mints : List Int} {note : Note} {a b : Lease}

theorem heir_of_claim {e : Int} (hends : ¬ a.Ends b) (hb : b.claim = some (some e)) :
    w.heir a b = some e := by
  rw [heir, if_neg hends, hb]
  rfl

theorem heir_eq_some {e : Int} (h : w.heir a b = some e) :
    b.claim = some (some e) ∨ w.tenant = some e := by
  unfold heir at h
  split at h
  · cases h
  · rcases hb : b.claim with _ | _ | e' <;> rw [hb] at h
    · exact Or.inr h
    · exact Or.inr h
    · cases h
      exact Or.inl rfl

/-- Spent tokens stay off the record, if an attempt that ends takes its
claim along and every token that comes on record is one nobody has spent. -/
theorem Fenced.see (h : w.Fenced a) (hends : a.Ends b → b.claim = none)
    (hclaim : ∀ e, b.claim = some (some e) → a.claim = some (some e) ∨ e ∉ w.spent) :
    (w.see mints note a b).Fenced b := by
  -- A token spent before the change is not the one that came on record.
  have hold : ∀ e ∈ w.spent, b.claim ≠ some (some e) := by
    intro e he hb
    rcases hclaim e hb with ha | hnot
    · exact (h e he).2.2 ha
    · exact hnot he
  intro e he
  have he : e ∈ w.spends a b := he
  unfold spends at he
  by_cases hheir : w.heir a b = w.tenant
  · rw [if_pos hheir] at he
    refine ⟨List.mem_append_right _ (h e he).1, ?_, hold e he⟩
    intro htenant
    have hsame : w.heir a b = some e := htenant
    exact (h e he).2.1 (hheir ▸ hsame)
  · rw [if_neg hheir] at he
    rcases List.mem_append.mp he with hnew | he
    · rw [Option.mem_toList, Option.filter_eq_some_iff] at hnew
      obtain ⟨htenant, hminted⟩ := hnew
      refine ⟨List.mem_append_right _ (of_decide_eq_true hminted), ?_, ?_⟩
      · intro hsame
        exact hheir (hsame.trans htenant.symm)
      · intro hb
        by_cases hends' : a.Ends b
        · rw [hends hends'] at hb
          cases hb
        · exact hheir ((heir_of_claim hends' hb).trans htenant.symm)
    · refine ⟨List.mem_append_right _ (h e he).1, ?_, hold e he⟩
      intro hsame
      rcases heir_eq_some hsame with hb | ht
      · exact hold e he hb
      · exact (h e he).2.1 ht

/-! ## Promises -/

/-- A marker stands under the claim its promise was accepted under. -/
def Kept (w : Watch) (a : Lease) : Prop :=
  a.marker.isSome = true → a.claim.isSome = true ∧ w.promise = a.claim

/-- Markers stay with their claims, if a marker that is not written anew
only survives a change that leaves the claim and the attempt alone. -/
theorem Kept.see (h : w.Kept a) (hquiet : note ≠ .promised → b.marker.isSome = true →
      a.marker.isSome = true ∧ b.claim = a.claim ∧ ¬ a.Ends b)
    (hpromised : note = .promised → b.claim.isSome = true) :
    (w.see mints note a b).Kept b := by
  intro hmarker
  show b.claim.isSome = true ∧ w.stands note a b = b.claim
  unfold stands
  by_cases hnote : note = .promised
  · rw [if_pos hnote]
    exact ⟨hpromised hnote, rfl⟩
  · obtain ⟨hbefore, hclaim, hends⟩ := hquiet hnote hmarker
    obtain ⟨hsome, hpromise⟩ := h hbefore
    have hstands : ¬ (a.Ends b ∨ (b.claim ≠ none ∧ b.claim ≠ w.promise)) := by
      rintro (he | ⟨-, hne⟩)
      · exact hends he
      · exact hne (hclaim.trans hpromise.symm)
    rw [if_neg hnote, if_neg hstands, hclaim]
    exact ⟨hsome, hpromise⟩

/-- A promise is settled once, and not again while its marker stands. -/
def Single (w : Watch) (a : Lease) : Prop :=
  w.settles ≤ 1 ∧ (a.marker.isSome = true → w.settles = 0)

/-- Promises stay single, if a marker only ever comes with a promise and a
settlement takes it. -/
theorem Single.see (h : w.Single a)
    (hquiet : note = .quiet → b.marker.isSome = true → a.marker.isSome = true)
    (hsettled : note = .settled → a.marker.isSome = true ∧ b.marker = none) :
    (w.see mints note a b).Single b := by
  cases note with
  | quiet => exact ⟨h.1, fun hb => h.2 (hquiet rfl hb)⟩
  | promised => exact ⟨Nat.zero_le 1, fun _ => rfl⟩
  | settled =>
    obtain ⟨hbefore, hnone⟩ := hsettled rfl
    refine ⟨?_, ?_⟩
    · show w.settles + 1 ≤ 1
      have hzero := h.2 hbefore
      omega
    · rw [hnone]
      intro hb
      cases hb

end Watch

end FlexiQ.Lib
