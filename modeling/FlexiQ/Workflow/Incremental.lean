/-
# `Workflow.Incremental` — which results of a base run are used again

`compute_dirty_set` keeps, of the nodes it is given, those the base run has
completed with a hash, and takes away, round after round, those with a dirty
predecessor; a round sees what it has taken away itself.  It is given the steps
that have a payload.  A gate, a fan-out, a fan-in and a sub-workflow have none,
and a predecessor that is not among the names hands nothing on.  What it hides
is what `reuse_is_ancestor_closed` turns on.
-/
import FlexiQ.Workflow.State
import Mathlib.Data.Rat.Defs
import Mathlib.Logic.Relation

namespace FlexiQ.Workflow

open List

abbrev BaseNodes := List (String × WorkflowNodeStatus × Option String)

/-- The hash of a node that was completed with one; of two entries of one name
the later one is in the lookup. -/
def reusable (base : BaseNodes) (name : String) : Option String :=
  match base.reverse.lookup name with
  | some (.completed, some hash) => some hash
  | _ => none

structure Marks where
  dirty : List String
  cached : List (String × String)

def Marks.first (base : BaseNodes) (names : List String) : Marks where
  dirty := names.filter fun name => (reusable base name).isNone
  cached := names.filterMap fun name => (reusable base name).map (Prod.mk name)

def Marks.spoil (m : Marks) (name : String) : Marks :=
  ⟨name :: m.dirty, m.cached.filter fun e => e.1 ≠ name⟩

section Passes

variable (edges : List (String × String)) (names : List String)

/-- One of the `predecessors` that `build_dag_maps` lists is dirty. -/
def Marks.tainted (m : Marks) (name : String) : Bool :=
  ((edges.filter fun e => e.2 = name).map Prod.fst).any fun p => p ∈ names && p ∈ m.dirty

/-- One round over the keys there were at its start: has it changed anything,
and what is left. -/
def sweep (m : Marks) : List String → Bool × Marks
  | [] => (false, m)
  | name :: keys =>
    if m.tainted edges names name then (true, (sweep (m.spoil name) keys).2) else sweep m keys

end Passes

/-- `p` is `name`, or comes before it in the graph. -/
abbrev Before (edges : List (String × String)) : String → String → Prop :=
  Relation.ReflTransGen fun a b => (a, b) ∈ edges

/-- The edges a mark is handed along: those out of a node among the names. -/
def handing (names : List String) (edges : List (String × String)) : List (String × String) :=
  edges.filter fun e => e.1 ∈ names

structure Marks.Sound (base : BaseNodes) (names : List String) (edges : List (String × String))
    (m : Marks) : Prop where
  hit : ∀ {name hash}, (name, hash) ∈ m.cached ↔
    name ∈ names ∧ name ∉ m.dirty ∧ reusable base name = some hash
  rest : ∀ name ∈ names, reusable base name = none → name ∈ m.dirty
  spoiled : ∀ name ∈ m.dirty, ∃ p, Before (handing names edges) p name ∧ reusable base p = none

section Runs

variable {base : BaseNodes} {names keys : List String} {edges : List (String × String)} {m : Marks}

theorem tainted_iff {name : String} : m.tainted edges names name = true ↔
    ∃ p, (p, name) ∈ edges ∧ p ∈ names ∧ p ∈ m.dirty := by
  simp [Marks.tainted]

theorem Marks.Sound.spoil (h : m.Sound base names edges) {x : String}
    (hx : m.tainted edges names x = true) : (m.spoil x).Sound base names edges := by
  obtain ⟨p, hedge, hnamed, hp⟩ := tainted_iff.mp hx
  refine ⟨fun {name hash} => ?_, fun name hname hnone => ?_, fun name hdirty => ?_⟩
  · simp only [Marks.spoil, mem_filter, h.hit, mem_cons, decide_eq_true_eq]
    tauto
  · exact mem_cons_of_mem x (h.rest name hname hnone)
  · rcases mem_cons.mp hdirty with rfl | hdirty
    · obtain ⟨q, hq, hnone⟩ := h.spoiled p hp
      exact ⟨q, hq.tail (mem_filter.mpr ⟨hedge, decide_eq_true hnamed⟩), hnone⟩
    · exact h.spoiled name hdirty

end Runs

end FlexiQ.Workflow
