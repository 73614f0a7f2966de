/-
# `Step.Body` — task bodies as blocks of step calls

A task body is a list of BLOCKS: one unkeyed step, or a set of keyed steps
each attempt may issue in an order of its own.  This module computes the keys
such a body is stored under, block by block, and shows that they do not depend
on the order an attempt picks.
-/
import FlexiQ.Step.Sequence

namespace FlexiQ.Step

open List StepSequence

/-! ## Bodies -/

/-- One `step.run` call site. -/
structure StepCall where
  name : String
  key : Option String
  deriving DecidableEq, Repr

inductive Block
  | unkeyed (name : String)
  | keyed (steps : List (String × String))
  deriving DecidableEq, Repr

def Block.calls : Block → List StepCall
  | .unkeyed name => [⟨name, none⟩]
  | .keyed steps => steps.map fun step => ⟨step.1, some step.2⟩

/-- Valid names and keys, and no keyed step twice in a block. -/
def Block.Valid : Block → Prop
  | .unkeyed name => ValidName name
  | .keyed steps => steps.Nodup ∧ ∀ step ∈ steps, ValidName step.1 ∧ ValidKey step.1 step.2

instance : DecidablePred Block.Valid := fun b => by
  cases b <;> unfold Block.Valid <;> infer_instance

/-- The same block with its keyed steps in another order. -/
inductive Block.Reorder : Block → Block → Prop
  | unkeyed (name : String) : Reorder (.unkeyed name) (.unkeyed name)
  | keyed {steps steps' : List (String × String)} : steps.Perm steps' →
      Reorder (.keyed steps) (.keyed steps')

def keysFrom : (String → Nat) → List StepCall → List String
  | _, [] => []
  | occ, c :: cs => StepSequence.keyOf occ c.name c.key ::
      keysFrom (StepSequence.spend occ c.name c.key) cs

def occAfter : (String → Nat) → List StepCall → String → Nat
  | occ, [] => occ
  | occ, c :: cs => occAfter (StepSequence.spend occ c.name c.key) cs

def keyGroups : (String → Nat) → List Block → List (List String)
  | _, [] => []
  | occ, b :: bs => keysFrom occ b.calls :: keyGroups (occAfter occ b.calls) bs

def stepKeys (body : List Block) : List String :=
  (keyGroups (fun _ => 0) body).flatten

theorem keysFrom_append : ∀ (occ : String → Nat) (cs ds : List StepCall),
    keysFrom occ (cs ++ ds) = keysFrom occ cs ++ keysFrom (occAfter occ cs) ds
  | _, [], _ => rfl
  | occ, c :: cs, ds => by
    simp only [cons_append, keysFrom, occAfter, keysFrom_append _ cs ds]

theorem occAfter_append : ∀ (occ : String → Nat) (cs ds : List StepCall),
    occAfter occ (cs ++ ds) = occAfter (occAfter occ cs) ds
  | _, [], _ => rfl
  | occ, c :: cs, ds => by
    simp only [cons_append, occAfter, occAfter_append _ cs ds]

theorem keyGroups_append : ∀ (occ : String → Nat) (bs cs : List Block),
    keyGroups occ (bs ++ cs) =
      keyGroups occ bs ++ keyGroups (occAfter occ (bs.flatMap Block.calls)) cs
  | _, [], _ => rfl
  | occ, b :: bs, cs => by
    simp only [cons_append, keyGroups, keyGroups_append _ bs cs, flatMap_cons,
      occAfter_append]

theorem flatten_keyGroups : ∀ (occ : String → Nat) (bs : List Block),
    (keyGroups occ bs).flatten = keysFrom occ (bs.flatMap Block.calls)
  | _, [] => rfl
  | occ, b :: bs => by
    simp only [keyGroups, flatten_cons, flatMap_cons, keysFrom_append,
      flatten_keyGroups _ bs]

theorem occAfter_keyed (occ : String → Nat) : ∀ steps : List (String × String),
    occAfter occ (Block.keyed steps).calls = occ
  | [] => rfl
  | _ :: steps => occAfter_keyed occ steps

theorem keysFrom_keyed (occ : String → Nat) : ∀ steps : List (String × String),
    keysFrom occ (Block.keyed steps).calls =
      steps.map fun step => stepKeyOf step.1 (.inl step.2)
  | [] => rfl
  | step :: steps => by
    have ih := keysFrom_keyed occ steps
    simp only [Block.calls] at ih
    simp only [Block.calls, map_cons, keysFrom, spend,
      keyOf, ih]

theorem keyGroups_reorder : ∀ {bs cs : List Block} (occ : String → Nat),
    List.Forall₂ Block.Reorder bs cs →
      List.Forall₂ List.Perm (keyGroups occ bs) (keyGroups occ cs)
  | [], [], _, _ => .nil
  | _ :: _, _ :: _, occ, .cons (.unkeyed name) h =>
    .cons (List.Perm.refl _) (keyGroups_reorder _ h)
  | _ :: _, _ :: _, occ, .cons (.keyed hperm) h => by
    simp only [keyGroups, occAfter_keyed, keysFrom_keyed]
    exact .cons (hperm.map _) (keyGroups_reorder occ h)

theorem exists_block {c : StepCall} {todo : List StepCall} :
    ∀ {order : List Block} {consumed : List StepCall},
      order.flatMap Block.calls = consumed ++ c :: todo →
      ∃ bs b cs before after, order = bs ++ b :: cs ∧ b.calls = before ++ c :: after ∧
        consumed = bs.flatMap Block.calls ++ before
  | [], consumed, h => by simp at h
  | b :: order, consumed, h => by
    rw [flatMap_cons] at h
    rcases append_eq_append_iff.mp h with ⟨as, rfl, hrest⟩ | ⟨cs, hcalls, hrest⟩
    · obtain ⟨bs, b', cs', before, after, rfl, hb', rfl⟩ := exists_block hrest
      exact ⟨b :: bs, b', cs', before, after, rfl, hb', by simp⟩
    · cases cs with
      | nil =>
        have hnil : order.flatMap Block.calls = [] ++ c :: todo := by simpa using hrest.symm
        obtain ⟨bs, b', cs', before, after, rfl, hb', hbefore⟩ := exists_block hnil
        refine ⟨b :: bs, b', cs', before, after, rfl, hb', ?_⟩
        rw [flatMap_cons, append_assoc, ← hbefore, hcalls, append_nil, append_nil]
      | cons c' cs =>
        obtain ⟨rfl, -⟩ := List.cons.inj hrest
        exact ⟨[], b, order, consumed, cs, rfl, hcalls, by simp⟩

/-- Only an unkeyed block issues an unkeyed call, and it issues that call
alone. -/
theorem Block.calls_of_unkeyed {b : Block} {before after : List StepCall} {c : StepCall}
    (h : b.calls = before ++ c :: after) (hc : c.key = none) : before = [] ∧ after = [] := by
  cases b with
  | unkeyed name =>
    cases before with
    | nil => exact ⟨rfl, (List.cons.inj h).2.symm⟩
    | cons d before => simp [Block.calls] at h
  | keyed steps =>
    have hmem : c ∈ (Block.keyed steps).calls := by rw [h]; simp
    obtain ⟨step, -, rfl⟩ := mem_map.mp hmem
    cases hc

/-- The group of the next call: everything in the groups before it has been
issued, and an unkeyed call is a group of its own. -/
theorem exists_group {order : List Block} {consumed todo : List StepCall} {c : StepCall}
    (occ : String → Nat) (h : order.flatMap Block.calls = consumed ++ c :: todo) :
    ∃ pre g post, keyGroups occ order = pre ++ g :: post ∧
      (∃ rest, keysFrom occ consumed = pre.flatten ++ rest) ∧
      keyOf (occAfter occ consumed) c.name c.key ∈ g ∧
      (c.key = none → g = [keyOf (occAfter occ consumed) c.name c.key]) := by
  obtain ⟨bs, b, cs, before, after, rfl, hb, rfl⟩ := exists_block h
  refine ⟨keyGroups occ bs, keysFrom (occAfter occ (bs.flatMap Block.calls)) b.calls, _,
    keyGroups_append occ bs (b :: cs), ?_, ?_, ?_⟩
  · exact ⟨_, by rw [keysFrom_append, flatten_keyGroups]⟩
  · rw [hb, keysFrom_append, occAfter_append]
    exact mem_append_right _ mem_cons_self
  · intro hc
    obtain ⟨rfl, rfl⟩ := Block.calls_of_unkeyed hb hc
    rw [hb, occAfter_append]
    rfl

theorem Block.Valid.call {b : Block} (hb : b.Valid) {c : StepCall} (hc : c ∈ b.calls) :
    ValidCall c.name c.key := by
  cases b with
  | unkeyed name =>
    obtain rfl := mem_singleton.mp hc
    exact ⟨hb, by simp⟩
  | keyed steps =>
    obtain ⟨step, hstep, rfl⟩ := mem_map.mp hc
    obtain ⟨hname, hkey⟩ := hb.2 step hstep
    refine ⟨hname, ?_⟩
    rintro k ⟨⟩
    exact hkey

theorem Block.Reorder.valid {b b' : Block} (h : b.Reorder b') (hb : b.Valid) : b'.Valid := by
  cases h with
  | unkeyed name => exact hb
  | keyed hperm =>
    exact ⟨hperm.nodup_iff.mp hb.1, fun step hstep => hb.2 step (hperm.mem_iff.mpr hstep)⟩

theorem valid_of_reorder : ∀ {body order : List Block}, List.Forall₂ Block.Reorder body order →
    (∀ b ∈ body, b.Valid) → ∀ c ∈ order.flatMap Block.calls,
      ValidCall c.name c.key
  | [], [], _, _, c, hc => by simp at hc
  | b :: body, b' :: order, .cons hb hrest, hvalid, c, hc => by
    rw [flatMap_cons] at hc
    rcases mem_append.mp hc with h | h
    · exact (hb.valid (hvalid b (by simp))).call h
    · exact valid_of_reorder hrest (fun b hb => hvalid b (mem_cons_of_mem _ hb)) c h

end FlexiQ.Step
