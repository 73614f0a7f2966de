/-
# `Lib.Keyspace` — families of sets and of sorted sets

The two container types of a key-value server that hold members rather than
a document.  A FAMILY holds all the sets of one kind: a member is filed
under the name of its set, so that the whole family is one `Table` and each
command has one equation for membership.

A sorted set is read back in the order of the scores, and of the members
where scores are equal.
-/
import FlexiQ.Lib.Table
import Mathlib.Data.List.Sort
import Mathlib.Order.Basic
import Mathlib.Data.Prod.Lex

namespace FlexiQ.Lib

open List Table

/-! ## Sets -/

/-- A family of sets of `M`, named by `K`. -/
abbrev Sets (K M : Type) := Table (K × M) (K × M) id

namespace Sets

variable {K M : Type} [DecidableEq K] [DecidableEq M]

section

variable (s : Sets K M)

def sadd (k : K) (m : M) : Sets K M := s.upsert (k, m)

def srem (k : K) (m : M) : Sets K M := s.delete (fun r => id r = (k, m))

def drop (k : K) : Sets K M := s.delete (fun r => r.1 = k)

def sismember (k : K) (m : M) : Bool := (s.find (k, m)).isSome

def smembers (k : K) : List M :=
  (s.rows.filter (fun r => r.1 = k)).map Prod.snd

theorem sismember_sadd (k k' : K) (m m' : M) :
    sismember (s.sadd k m) k' m' = (decide (k' = k ∧ m' = m) || sismember s k' m') := by
  unfold sismember sadd
  rw [find_upsert]
  by_cases h : k' = k ∧ m' = m
  · obtain ⟨rfl, rfl⟩ := h
    simp
  · rw [if_neg fun heq => h (Prod.mk.inj heq.symm)]
    simp [h]

theorem sismember_srem (k k' : K) (m m' : M) :
    sismember (s.srem k m) k' m' = (decide (¬ (k' = k ∧ m' = m)) && sismember s k' m') := by
  unfold sismember srem
  rw [find_delete_key]
  by_cases h : k' = k ∧ m' = m
  · obtain ⟨rfl, rfl⟩ := h
    simp
  · rw [if_neg fun heq => h (Prod.mk.inj heq)]
    simp [h]

theorem sismember_drop (k k' : K) (m : M) :
    sismember (s.drop k) k' m = (decide (k' ≠ k) && sismember s k' m) := by
  unfold sismember drop
  rw [find_delete]
  cases h : s.find (k', m) with
  | none => simp
  | some r =>
    obtain rfl : r = (k', m) := key_of_find h
    by_cases hk : k' = k <;> simp [Option.filter, hk]

end

theorem mem_smembers {s : Sets K M} {k : K} {m : M} :
    m ∈ smembers s k ↔ sismember s k m = true := by
  unfold smembers sismember
  rw [Option.isSome_iff_exists]
  constructor
  · intro h
    obtain ⟨⟨k', m'⟩, hr, rfl⟩ := mem_map.mp h
    obtain ⟨hmem, hk⟩ := mem_filter.mp hr
    obtain rfl : k' = k := by simpa using hk
    exact ⟨_, find_of_mem hmem⟩
  · rintro ⟨r, hr⟩
    obtain ⟨hmem, rfl⟩ := find_eq_some.mp hr
    exact mem_map.mpr ⟨_, mem_filter.mpr ⟨hmem, by simp⟩, rfl⟩

omit [DecidableEq M] in
theorem nodup_smembers (s : Sets K M) (k : K) : (smembers s k).Nodup := by
  refine List.Nodup.map_on ?_ (s.nodup_rows.filter _)
  intro r hr r' hr' hsnd
  have hfst : ∀ x ∈ s.rows.filter (fun r => r.1 = k), x.1 = k := fun x hx => by
    simpa using (mem_filter.mp hx).2
  exact Prod.ext ((hfst r hr).trans (hfst r' hr').symm) hsnd

def sintercard (s : Sets K M) (k k' : K) : Nat :=
  ((smembers s k).filter (sismember s k')).length

theorem mem_sinter {s : Sets K M} {k k' : K} {m : M} : m ∈ (smembers s k).filter (sismember s k') ↔
      (sismember s k m && sismember s k' m) = true := by
  rw [mem_filter, mem_smembers, Bool.and_eq_true]

theorem sintercard_congr {s s' : Sets K M} {k k' : K}
    (h : ∀ m, (sismember s' k m && sismember s' k' m) = (sismember s k m && sismember s k' m)) :
    sintercard s' k k' = sintercard s k k' := by
  refine List.Perm.length_eq ((perm_ext_iff_of_nodup ((nodup_smembers s' k).filter _)
    ((nodup_smembers s k).filter _)).mpr fun m => ?_)
  rw [mem_sinter, mem_sinter, h]

theorem sintercard_mono {s s' : Sets K M} {k k' : K}
    (h : ∀ m, (sismember s k m && sismember s k' m) = true →
      (sismember s' k m && sismember s' k' m) = true) :
    sintercard s k k' ≤ sintercard s' k k' :=
  (subperm_of_subset ((nodup_smembers s k).filter _) fun m hm =>
    mem_sinter.mpr (h m (mem_sinter.mp hm))).length_le

theorem sintercard_lt {s s' : Sets K M} {k k' : K} (m₀ : M)
    (h : ∀ m, (sismember s k m && sismember s k' m) = true →
      (sismember s' k m && sismember s' k' m) = true)
    (hnew : (sismember s' k m₀ && sismember s' k' m₀) = true)
    (hold : (sismember s k m₀ && sismember s k' m₀) = false) :
    sintercard s k k' < sintercard s' k k' := by
  have hout : m₀ ∉ (smembers s k).filter (sismember s k') := by
    rw [mem_sinter, hold]
    exact Bool.false_ne_true
  have hsub : m₀ :: (smembers s k).filter (sismember s k') ⊆
      (smembers s' k).filter (sismember s' k') := by
    intro m hm
    rcases mem_cons.mp hm with rfl | hm
    · exact mem_sinter.mpr hnew
    · exact mem_sinter.mpr (h m (mem_sinter.mp hm))
  exact (subperm_of_subset (nodup_cons.mpr ⟨hout, (nodup_smembers s k).filter _⟩) hsub).length_le

theorem sintercard_le_succ {s s' : Sets K M} {k k' : K} (m₀ : M)
    (h : ∀ m, m ≠ m₀ → (sismember s' k m && sismember s' k' m) = true →
      (sismember s k m && sismember s k' m) = true) :
    sintercard s' k k' ≤ sintercard s k k' + 1 := by
  have hsub : (smembers s' k).filter (sismember s' k') ⊆
      m₀ :: (smembers s k).filter (sismember s k') := by
    intro m hm
    by_cases hm₀ : m = m₀
    · exact hm₀ ▸ mem_cons_self
    · exact mem_cons_of_mem _ (mem_sinter.mpr (h m hm₀ (mem_sinter.mp hm)))
  exact (subperm_of_subset ((nodup_smembers s' k).filter _) hsub).length_le

end Sets

/-! ## Sorted sets -/

structure Scored (K M : Type) where
  set : K
  member : M
  score : Int
  deriving DecidableEq, Repr

def Scored.key {K M : Type} (r : Scored K M) : K × M := (r.set, r.member)

abbrev SortedSets (K M : Type) := Table (K × M) (Scored K M) Scored.key

namespace SortedSets

variable {K M : Type} [DecidableEq K] [DecidableEq M]

section

variable (s : SortedSets K M)

/-- `ZADD`: a member that is there already takes the new score. -/
def zadd (k : K) (m : M) (score : Int) : SortedSets K M :=
  s.upsert ⟨k, m, score⟩

def zrem (k : K) (m : M) : SortedSets K M :=
  s.delete (fun r => r.key = (k, m))

def zscore (k : K) (m : M) : Option Int :=
  (s.find (k, m)).map Scored.score

theorem zscore_zadd (k k' : K) (m m' : M) (score : Int) :
    zscore (s.zadd k m score) k' m' = if k' = k ∧ m' = m then some score else zscore s k' m' := by
  unfold zscore zadd
  rw [find_upsert]
  by_cases h : k' = k ∧ m' = m
  · obtain ⟨rfl, rfl⟩ := h
    simp [Scored.key]
  · rw [if_neg fun heq => h (Prod.mk.inj heq.symm), if_neg h]

theorem zscore_zrem (k k' : K) (m m' : M) :
    zscore (s.zrem k m) k' m' = if k' = k ∧ m' = m then none else zscore s k' m' := by
  unfold zscore zrem
  rw [find_delete_key]
  by_cases h : k' = k ∧ m' = m
  · obtain ⟨rfl, rfl⟩ := h
    simp
  · rw [if_neg fun heq => h (Prod.mk.inj heq), if_neg h]

end

end SortedSets

namespace SortedSets

variable {K M : Type} [DecidableEq K] [LinearOrder M]

def before (a b : Scored K M) : Prop :=
  a.score < b.score ∨ (a.score = b.score ∧ a.member ≤ b.member)

instance : DecidableRel (before : Scored K M → Scored K M → Prop) := fun _ _ =>
  inferInstanceAs (Decidable (_ ∨ _))

def zrange (s : SortedSets K M) (k : K) : List (Scored K M) :=
  (s.rows.filter (fun r => r.set = k)).insertionSort before

theorem nodup_zrange (s : SortedSets K M) (k : K) : ((zrange s k).map Scored.member).Nodup := by
  have hperm : ((zrange s k).map Scored.member).Perm
      ((s.rows.filter (fun r => r.set = k)).map Scored.member) :=
    (perm_insertionSort _ _).map _
  refine hperm.nodup_iff.mpr ?_
  refine List.Nodup.map_on ?_ ((s.nodup.of_map _).filter _)
  intro a ha b hb heq
  have hak : a.set = k := by simpa using (mem_filter.mp ha).2
  have hbk : b.set = k := by simpa using (mem_filter.mp hb).2
  refine inj_on_of_nodup_map s.nodup (mem_filter.mp ha).1 (mem_filter.mp hb).1 ?_
  rw [Scored.key, Scored.key, hak, hbk, heq]

omit [DecidableEq K] in
theorem before_iff {a b : Scored K M} :
    before a b ↔ toLex (a.score, a.member) ≤ toLex (b.score, b.member) :=
  (Prod.Lex.toLex_le_toLex (x := (a.score, a.member)) (y := (b.score, b.member))).symm

instance : Std.Total (before : Scored K M → Scored K M → Prop) :=
  ⟨fun _ _ => by simpa only [before_iff] using le_total _ _⟩

instance : IsTrans (Scored K M) before :=
  ⟨fun _ _ _ => by simpa only [before_iff] using le_trans⟩

theorem mem_zrange_iff {s : SortedSets K M} {k : K} {r : Scored K M} :
    r ∈ zrange s k ↔ r.set = k ∧ zscore s k r.member = some r.score := by
  rw [zrange, mem_insertionSort, mem_filter, decide_eq_true_eq, zscore,
    Option.map_eq_some_iff]
  constructor
  · rintro ⟨hr, rfl⟩
    exact ⟨rfl, r, find_of_mem hr, rfl⟩
  · rintro ⟨rfl, r', hr', hscore⟩
    obtain ⟨hmem, hkey⟩ := find_eq_some.mp hr'
    obtain ⟨hset, hmember⟩ := Prod.mk.inj hkey
    obtain rfl : r' = r := by
      cases r; cases r'; cases hset; cases hmember; cases hscore; rfl
    exact ⟨hmem, rfl⟩

end SortedSets

end FlexiQ.Lib
