/-
# `Lib.Grant` — locks that lapse, and what was granted under them

A lock with an expiry is one cell: nobody's, or somebody's until an instant.
`LockStep` lists what may happen to the cell at a time `now`; in particular it
is granted only when it is nobody's or has lapsed, while the owner on record
may put its expiry off even after it has.

What the owners were PROMISED is kept apart from the cell: every grant is the
half-open interval from the call to the expiry it was given, and it is cut
short when its owner extends or releases.  `Exclusive` says that no instant is
promised to two owners, and `Kept.step` carries it along any sequence of steps
at times that do not go back.
-/
import Mathlib.Data.List.Basic
import Mathlib.Data.Option.Basic
import Mathlib.Order.Lattice

namespace FlexiQ.Lib

open List

variable {O : Type}

structure Held (O : Type) where
  owner : O
  expiry : Int
  deriving DecidableEq, Repr

structure Grant (O : Type) where
  owner : O
  start : Int
  stop : Int
  deriving DecidableEq, Repr

inductive LockEvent (O : Type)
  | granted (owner : O) (expiry : Int)
  | extended (owner : O) (expiry : Int)
  | released (owner : O)
  | reaped
  | quiet
  deriving DecidableEq, Repr

def Held.Recorded (now : Int) (held : Held O) (cell : Option (Held O)) : Prop :=
  cell = some held ∨ cell = none ∧ held.expiry ≤ now

inductive LockStep (now : Int) : Option (Held O) → LockEvent O → Option (Held O) → Prop
  | grant {cell cell' : Option (Held O)} {owner : O} {expiry : Int}
      (hfree : ∀ held, cell = some held → held.expiry ≤ now)
      (hcell : Held.Recorded now ⟨owner, expiry⟩ cell') :
      LockStep now cell (.granted owner expiry) cell'
  | extend {held : Held O} {cell' : Option (Held O)} {expiry : Int}
      (hcell : Held.Recorded now ⟨held.owner, expiry⟩ cell') :
      LockStep now (some held) (.extended held.owner expiry) cell'
  | release {held : Held O} : LockStep now (some held) (.released held.owner) none
  | reap {cell : Option (Held O)} :
      LockStep now cell .reaped (cell.filter fun held => now < held.expiry)
  | idle {cell : Option (Held O)} : LockStep now cell .quiet cell

namespace Grant

def Valid (g : Grant O) (t : Int) : Prop := g.start ≤ t ∧ t < g.stop

variable [DecidableEq O]

section

variable (owner : O) (now : Int) (g : Grant O)

/-- The promises of `owner` end at `now`, where they had not ended before. -/
def cut : Grant O :=
  if g.owner = owner then { g with stop := min g.stop now } else g

theorem cut_owner : (g.cut owner now).owner = g.owner := by
  unfold cut
  split <;> rfl

theorem cut_start : (g.cut owner now).start = g.start := by
  unfold cut
  split <;> rfl

theorem cut_stop_le : (g.cut owner now).stop ≤ g.stop := by
  unfold cut
  split
  · exact min_le_left _ _
  · exact le_refl _

end

theorem cut_stop_le_now {owner : O} (now : Int) {g : Grant O} (h : g.owner = owner) :
    (g.cut owner now).stop ≤ now := by
  rw [cut, if_pos h]
  exact min_le_right _ _

end Grant

/-- Everything that was promised so far, the latest first, once an event at
`now` is added. -/
def LockEvent.promise [DecidableEq O] (now : Int) (grants : List (Grant O)) :
    LockEvent O → List (Grant O)
  | .granted owner expiry => ⟨owner, now, expiry⟩ :: grants
  | .extended owner expiry => ⟨owner, now, expiry⟩ :: grants.map (Grant.cut owner now)
  | .released owner => grants.map (Grant.cut owner now)
  | .reaped | .quiet => grants

/-- Who holds the lock, once an event at `now` is added, and until when. -/
def LockEvent.holder (now : Int) (holder : Option (Held O)) : LockEvent O → Option (Held O)
  | .granted owner expiry | .extended owner expiry => some ⟨owner, expiry⟩
  | .released _ => none
  | .reaped => holder.filter fun held => now < held.expiry
  | .quiet => holder

/-- No instant is promised to two owners. -/
def Exclusive (grants : List (Grant O)) : Prop :=
  ∀ g ∈ grants, ∀ g' ∈ grants, ∀ t, g.Valid t → g'.Valid t → g.owner = g'.owner

/-- The lock at the time `clock`, against what was promised. -/
structure Kept (clock : Int) (cell holder : Option (Held O)) (grants : List (Grant O)) : Prop where
  exclusive : Exclusive grants
  started : ∀ g ∈ grants, g.start ≤ clock
  held : ∀ g ∈ grants, clock < g.stop → ∃ h, cell = some h ∧ h.owner = g.owner ∧ g.stop ≤ h.expiry
  recorded : ∀ h, cell = some h → holder = some h
  latest : ∀ h, holder = some h → grants.head?.map Grant.owner = some h.owner

namespace Kept

variable {clock now : Int} {cell cell' holder : Option (Held O)} {grants : List (Grant O)}

theorem start (clock : Int) : Kept clock (none : Option (Held O)) none [] where
  exclusive g hg := absurd hg not_mem_nil
  started g hg := absurd hg not_mem_nil
  held g hg := absurd hg not_mem_nil
  recorded h hh := by cases hh
  latest h hh := by cases hh

theorem later (h : Kept clock cell holder grants) (hle : clock ≤ now) :
    Kept now cell holder grants where
  exclusive := h.exclusive
  started g hg := (h.started g hg).trans hle
  held g hg hlt := h.held g hg (lt_of_le_of_lt hle hlt)
  recorded := h.recorded
  latest := h.latest

/-- A promise from `now` on conflicts with none, if those that have not ended
are the same owner's. -/
theorem exclusive_cons {owner : O} {expiry : Int} (h : Exclusive grants)
    (hother : ∀ g ∈ grants, g.owner ≠ owner → g.stop ≤ now) :
    Exclusive (⟨owner, now, expiry⟩ :: grants) := by
  -- An older promise that covers an instant of the new one has not ended.
  have hold : ∀ g ∈ grants, ∀ t, now ≤ t → g.Valid t → g.owner = owner := by
    intro g hg t ht hvalid
    by_contra hne
    have hstop := hother g hg hne
    have hlt := hvalid.2
    omega
  intro g hg g' hg' t hvalid hvalid'
  rcases mem_cons.mp hg with rfl | hg
  · rcases mem_cons.mp hg' with rfl | hg'
    · rfl
    · exact (hold g' hg' t hvalid.1 hvalid').symm
  · rcases mem_cons.mp hg' with rfl | hg'
    · exact hold g hg t hvalid'.1 hvalid
    · exact h g hg g' hg' t hvalid hvalid'

theorem renewed {owner : O} {expiry : Int} (hexclusive : Exclusive grants)
    (hstarted : ∀ g ∈ grants, g.start ≤ now) (hended : ∀ g ∈ grants, g.stop ≤ now)
    (hcell : Held.Recorded now ⟨owner, expiry⟩ cell) :
    Kept now cell (some ⟨owner, expiry⟩) (⟨owner, now, expiry⟩ :: grants) := by
  refine ⟨exclusive_cons hexclusive fun g hg _ => hended g hg, ?_, ?_, ?_, ?_⟩
  · intro g hg
    rcases mem_cons.mp hg with rfl | hg
    · exact le_refl _
    · exact hstarted g hg
  · intro g hg hlt
    rcases mem_cons.mp hg with rfl | hg
    · rcases hcell with rfl | ⟨-, hpassed⟩
      · exact ⟨_, rfl, rfl, le_refl _⟩
      · exact absurd hlt (not_lt.mpr hpassed)
    · exact absurd hlt (not_lt.mpr (hended g hg))
  · intro held hheld
    rcases hcell with rfl | ⟨rfl, -⟩ <;> cases hheld
    rfl
  · rintro held ⟨⟩
    rfl

variable [DecidableEq O]

theorem exclusive_cut {owner : O} (h : Exclusive grants) :
    Exclusive (grants.map (Grant.cut owner now)) := by
  have hshrink : ∀ (g : Grant O) t, (g.cut owner now).Valid t → g.Valid t := by
    intro g t hvalid
    have hstart := hvalid.1
    rw [Grant.cut_start] at hstart
    exact ⟨hstart, lt_of_lt_of_le hvalid.2 (Grant.cut_stop_le owner now g)⟩
  intro g hg g' hg' t hvalid hvalid'
  obtain ⟨g, hmem, rfl⟩ := mem_map.mp hg
  obtain ⟨g', hmem', rfl⟩ := mem_map.mp hg'
  rw [Grant.cut_owner, Grant.cut_owner]
  exact h g hmem g' hmem' t (hshrink g t hvalid) (hshrink g' t hvalid')

theorem started_cut {owner : O} (h : ∀ g ∈ grants, g.start ≤ now) :
    ∀ g ∈ grants.map (Grant.cut owner now), g.start ≤ now := by
  intro g hg
  obtain ⟨g, hmem, rfl⟩ := mem_map.mp hg
  rw [Grant.cut_start]
  exact h g hmem

/-- Once the promises of the owner on record are cut at `now`, none reaches
beyond it. -/
theorem ended_cut {held : Held O} (h : Kept now (some held) holder grants) :
    ∀ g ∈ grants.map (Grant.cut held.owner now), g.stop ≤ now := by
  intro g hg
  obtain ⟨g, hmem, rfl⟩ := mem_map.mp hg
  by_cases howner : g.owner = held.owner
  · exact Grant.cut_stop_le_now now howner
  · refine le_trans (Grant.cut_stop_le held.owner now g) ?_
    by_contra hlt
    obtain ⟨h', hcell, heq, -⟩ := h.held g hmem (not_le.mp hlt)
    cases hcell
    exact howner heq.symm

theorem step {event : LockEvent O} (h : Kept clock cell holder grants) (hle : clock ≤ now)
    (hstep : LockStep now cell event cell') :
    Kept now cell' (event.holder now holder) (event.promise now grants) := by
  have h := h.later hle
  cases hstep with
  | grant hfree hcell =>
    -- Whatever was promised has ended.
    have hended : ∀ g ∈ grants, g.stop ≤ now := by
      intro g hg
      by_contra hlt
      obtain ⟨held, hcell, -, hstop⟩ := h.held g hg (not_le.mp hlt)
      have hexp := hfree held hcell
      omega
    exact renewed h.exclusive h.started hended hcell
  | extend hcell =>
    exact renewed (exclusive_cut h.exclusive) (started_cut h.started) h.ended_cut hcell
  | release =>
    refine ⟨exclusive_cut h.exclusive, started_cut h.started, ?_, ?_, ?_⟩
    · intro g hg hlt
      exact absurd hlt (not_lt.mpr (h.ended_cut g hg))
    · rintro held ⟨⟩
    · rintro held ⟨⟩
  | reap =>
    refine ⟨h.exclusive, h.started, ?_, ?_, ?_⟩
    · intro g hg hlt
      obtain ⟨held, hcell, howner, hstop⟩ := h.held g hg hlt
      refine ⟨held, ?_, howner, hstop⟩
      rw [hcell, Option.filter_some, if_pos (decide_eq_true (lt_of_lt_of_le hlt hstop))]
    · intro held hheld
      obtain ⟨hcell, hruns⟩ := Option.filter_eq_some_iff.mp hheld
      exact Option.filter_eq_some_iff.mpr ⟨h.recorded held hcell, hruns⟩
    · intro held hheld
      exact h.latest held (Option.filter_eq_some_iff.mp hheld).1
  | idle => exact h

end Kept

end FlexiQ.Lib
