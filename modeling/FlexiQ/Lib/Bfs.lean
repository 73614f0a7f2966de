/-
# `Lib.Bfs` — a breadth-first search that reads one node at a time

The queue doubles as the visited set: nodes are only ever appended, and the
nodes before `idx` have been read.  Each turn asks for the successors of one
node, and different turns may be answered by different graphs: `expand`
takes the successor function of ITS turn.  On one graph, with a turn for
each node, it finds what can be reached from the root.
-/
import Mathlib.Data.List.Nodup
import Mathlib.Data.List.Perm.Subperm
import Mathlib.Logic.Relation

namespace FlexiQ.Lib

open List

structure Search (α : Type) where
  root : α
  queue : List α
  idx : Nat
  deriving DecidableEq, Repr

namespace Search

variable {α : Type} [DecidableEq α] {c : Search α} {next : α → List α}

def start (root : α) : Search α := ⟨root, [root], 0⟩

def enqueueUnseen (queue : List α) : List α → List α
  | [] => queue
  | a :: as => enqueueUnseen (if a ∈ queue then queue else queue ++ [a]) as

/-- One turn: read the successors of the next node. -/
def expand (next : α → List α) (c : Search α) : Search α :=
  match c.queue[c.idx]? with
  | none => c
  | some current => { c with
      queue := enqueueUnseen c.queue (next current)
      idx := c.idx + 1 }

def expandAll (next : α → List α) : Nat → Search α → Search α
  | 0, c => c
  | n + 1, c => (c.expand next).expandAll next n

def found (c : Search α) : List α := c.queue.tail

theorem mem_enqueueUnseen {a : α} : ∀ {as queue : List α},
    a ∈ enqueueUnseen queue as ↔ a ∈ queue ∨ a ∈ as
  | [], queue => by simp [enqueueUnseen]
  | b :: as, queue => by
    rw [enqueueUnseen, mem_enqueueUnseen]
    split
    · next hb =>
      rw [mem_cons, or_left_comm]
      exact (or_iff_right_of_imp fun heq => Or.inl (heq ▸ hb)).symm
    · simp only [mem_append, mem_cons, not_mem_nil, or_false, or_assoc]

theorem enqueueUnseen_append : ∀ (as queue : List α),
    ∃ new, enqueueUnseen queue as = queue ++ new
  | [], queue => ⟨[], by simp [enqueueUnseen]⟩
  | a :: as, queue => by
    rw [enqueueUnseen]
    split
    · exact enqueueUnseen_append as queue
    · obtain ⟨new, hnew⟩ := enqueueUnseen_append as (queue ++ [a])
      exact ⟨a :: new, by rw [hnew, append_assoc, singleton_append]⟩

theorem enqueueUnseen_nodup : ∀ {as queue : List α}, queue.Nodup →
    (enqueueUnseen queue as).Nodup
  | [], _, h => h
  | a :: as, queue, h => by
    rw [enqueueUnseen]
    split
    · exact enqueueUnseen_nodup h
    · next ha =>
      refine enqueueUnseen_nodup (nodup_append'.mpr ⟨h, nodup_singleton _, ?_⟩)
      simpa using ha

/-- What holds of a search at every turn: it starts at its root, queues no
node twice, and has read no more than it queued. -/
structure WellFormed (c : Search α) : Prop where
  head : c.queue.head? = some c.root
  nodup : c.queue.Nodup
  le : c.idx ≤ c.queue.length

omit [DecidableEq α] in
theorem start_wellFormed (root : α) : (start root).WellFormed :=
  ⟨rfl, nodup_singleton _, Nat.zero_le _⟩

theorem WellFormed.expand (h : c.WellFormed) (next : α → List α) : (c.expand next).WellFormed := by
  unfold Search.expand
  split
  · exact h
  · next current hcur =>
    have hlt : c.idx < c.queue.length := (List.getElem?_eq_some_iff.mp hcur).1
    obtain ⟨new, hnew⟩ := enqueueUnseen_append (next current) c.queue
    refine ⟨?_, enqueueUnseen_nodup h.nodup, ?_⟩
    · rw [hnew, List.head?_append, h.head]
      rfl
    · show c.idx + 1 ≤ (enqueueUnseen c.queue (next current)).length
      rw [hnew, length_append]
      omega

theorem WellFormed.expandAll : ∀ (n : Nat) {c : Search α}, c.WellFormed →
    (c.expandAll next n).WellFormed
  | 0, _, h => h
  | n + 1, _, h => WellFormed.expandAll n (h.expand next)

theorem mem_expand {a : α} (h : a ∈ (c.expand next).queue) :
    a ∈ c.queue ∨ ∃ b ∈ c.queue, a ∈ next b := by
  unfold expand at h
  split at h
  · exact Or.inl h
  · next current hcur =>
    rcases mem_enqueueUnseen.mp h with h | h
    · exact Or.inl h
    · exact Or.inr ⟨current, mem_of_getElem? hcur, h⟩

theorem expand_root (next : α → List α) (c : Search α) : (c.expand next).root = c.root := by
  unfold expand
  split <;> rfl

theorem root_expandAll : ∀ (n : Nat) (c : Search α), (c.expandAll next n).root = c.root
  | 0, _ => rfl
  | n + 1, c => (root_expandAll n _).trans (expand_root next c)

omit [DecidableEq α] in
theorem WellFormed.mem_found (h : c.WellFormed) {a : α} :
    a ∈ c.found ↔ a ∈ c.queue ∧ a ≠ c.root := by
  obtain ⟨root, _ | ⟨head, tail⟩, idx⟩ := c
  · cases h.head
  · obtain rfl : head = root := Option.some.inj h.head
    obtain ⟨hnot, -⟩ := nodup_cons.mp h.nodup
    show a ∈ tail ↔ a ∈ head :: tail ∧ a ≠ head
    rw [mem_cons]
    constructor
    · exact fun ha => ⟨.inr ha, fun heq => hnot (heq ▸ ha)⟩
    · exact fun ⟨ha, hne⟩ => ha.resolve_left hne

theorem mem_queue_expand {a : α} (h : a ∈ c.queue) : a ∈ (c.expand next).queue := by
  unfold expand
  split
  · exact h
  · exact mem_enqueueUnseen.mpr (Or.inl h)

theorem read_expand {p a : α} (hp : p ∈ (c.expand next).queue.take (c.expand next).idx)
    (hread : p ∈ c.queue.take c.idx → a ∈ c.queue) (ha : a ∈ next p) :
    a ∈ (c.expand next).queue := by
  by_cases hold : p ∈ c.queue.take c.idx
  · exact mem_queue_expand (hread hold)
  · unfold expand at hp ⊢
    split at hp
    · exact absurd hp hold
    · next current hcur =>
      obtain ⟨new, hnew⟩ := enqueueUnseen_append (next current) c.queue
      obtain ⟨hlt, hget⟩ := List.getElem?_eq_some_iff.mp hcur
      simp only at hp ⊢
      -- The only node read by this turn is the current one.
      rw [hnew, take_append_of_le_length (by omega), take_succ_eq_append_getElem hlt,
        mem_append, hget, mem_singleton] at hp
      rcases hp with hp | rfl
      · exact absurd hp hold
      · exact mem_enqueueUnseen.mpr (Or.inr ha)

theorem forall_mem_expandAll {P : α → Prop} (hnext : ∀ b, P b → ∀ a ∈ next b, P a) :
    ∀ (n : Nat) {c : Search α}, (∀ a ∈ c.queue, P a) →
    ∀ a ∈ (c.expandAll next n).queue, P a
  | 0, _, h => h
  | n + 1, c, h => by
    refine forall_mem_expandAll hnext n ?_
    intro a ha
    rcases mem_expand ha with ha | ⟨b, hb, ha⟩
    · exact h a ha
    · exact hnext b (h b hb) a ha

theorem expandAll_done (h : c.queue[c.idx]? = none) : ∀ n, c.expandAll next n = c
  | 0 => rfl
  | n + 1 => by
    rw [expandAll, expand, h]
    exact expandAll_done h n

/-- After any number of turns: what has been read is queued with all its
successors, and that is a node a turn or all there is. -/
theorem WellFormed.read_expandAll (n : Nat) (h : c.WellFormed)
    (hread : ∀ p ∈ c.queue.take c.idx, ∀ a ∈ next p, a ∈ c.queue) :
    (∀ p ∈ (c.expandAll next n).queue.take (c.expandAll next n).idx, ∀ a ∈ next p,
      a ∈ (c.expandAll next n).queue) ∧
    ((c.expandAll next n).idx = c.idx + n ∨
      (c.expandAll next n).idx = (c.expandAll next n).queue.length) := by
  induction n generalizing c with
  | zero => exact ⟨hread, Or.inl rfl⟩
  | succ n ih =>
    cases hcur : c.queue[c.idx]? with
    | none =>
      rw [expandAll_done hcur]
      exact ⟨hread, Or.inr (Nat.le_antisymm h.le (List.getElem?_eq_none_iff.mp hcur))⟩
    | some current =>
      have hidx : (c.expand next).idx = c.idx + 1 := by rw [Search.expand, hcur]
      refine (ih (h.expand next) fun p hp a ha =>
        read_expand hp (fun hold => hread p hold a ha) ha).imp_right (Or.imp_left fun heq => ?_)
      rw [Search.expandAll, heq, hidx, Nat.add_assoc, Nat.add_comm 1]

/-- **A search finds what can be reached**, if it may take a turn for each
node there is. -/
theorem mem_found_iff {root a : α} {nodes : List α} (hnodes : ∀ p, ∀ b ∈ next p, b ∈ nodes)
    {n : Nat} (hn : nodes.length < n) : a ∈ ((start root).expandAll next n).found ↔
      Relation.ReflTransGen (fun p b => b ∈ next p) root a ∧ a ≠ root := by
  have hwf : ((start root).expandAll next n).WellFormed := .expandAll n (start_wellFormed root)
  rw [hwf.mem_found, root_expandAll]
  have hreach : ∀ b ∈ ((start root).expandAll next n).queue,
      Relation.ReflTransGen (fun p b => b ∈ next p) root b :=
    forall_mem_expandAll (fun _ hp _ hb => hp.tail hb) n (forall_mem_singleton.mpr .refl)
  have hsub : ((start root).expandAll next n).queue ⊆ root :: nodes := fun b hb => by
    rcases (hreach b hb).cases_tail with rfl | ⟨p, -, hp⟩
    · exact mem_cons_self
    · exact mem_cons_of_mem _ (hnodes p b hp)
  have hlen := (hwf.nodup.subperm hsub).length_le
  obtain ⟨hclosed, hidx⟩ := @WellFormed.read_expandAll α _ _ next n (start_wellFormed root) nofun
  have hall : ((start root).expandAll next n).idx =
      ((start root).expandAll next n).queue.length := by
    have hle := hwf.le
    have hzero : (start root).idx = 0 := rfl
    rw [length_cons] at hlen
    omega
  rw [hall, take_length] at hclosed
  refine and_congr_left' ⟨hreach a, fun h => ?_⟩
  induction h with
  | refl => exact mem_of_mem_head? (by rw [hwf.head, root_expandAll]; rfl)
  | tail _ hb ih => exact hclosed _ ih _ hb

end Search

end FlexiQ.Lib
