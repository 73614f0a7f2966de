/-
# `Lib.Table` — rows under a primary key

A relational table, reduced to what a proof about a store needs: a list of
rows, each carrying its own key, and the fact that no key occurs twice.  The
key is read OFF the row, so a lookup can never answer with a row of another
key and no lemma has to carry that side condition.

Three statements change a table — `insert`, `update`, `delete` — and each
comes with ONE equation for `find`.  A proof about a sequence of statements
rewrites with those three equations and never looks at the list.
-/
import Mathlib.Data.List.Nodup
import Mathlib.Data.Option.Basic
import Mathlib.Data.List.Perm.Subperm

namespace FlexiQ.Lib

open List

theorem lookup_cons_of_ne {α β : Type} [BEq α] [LawfulBEq α] {k a : α} {b : β} {l : List (α × β)}
    (h : k ≠ a) : ((a, b) :: l).lookup k = l.lookup k := by
  rw [lookup_cons, beq_false_of_ne h]

/-- Rows of type `R`, each filed under `key r`, no key twice. -/
structure Table (K R : Type) (key : R → K) where
  rows : List R
  nodup : (rows.map key).Nodup
  deriving DecidableEq

namespace Table

variable {K R : Type} {key : R → K}

def empty : Table K R key := ⟨[], List.nodup_nil⟩

theorem nodup_rows (t : Table K R key) : t.rows.Nodup := t.nodup.of_map

/-- `DELETE … WHERE p`. -/
def delete (t : Table K R key) (p : R → Bool) : Table K R key where
  rows := t.rows.filter (fun r => !p r)
  nodup := t.nodup.sublist (List.filter_sublist.map key)

/-- `UPDATE … SET f WHERE p`, for an assignment that leaves the key alone. -/
def update (t : Table K R key) (p : R → Bool) (f : R → R)
    (hf : ∀ r, key (f r) = key r := by intro _; rfl) : Table K R key where
  rows := t.rows.map (fun r => if p r then f r else r)
  nodup := by
    have hkeys : (t.rows.map (fun r => if p r then f r else r)).map key = t.rows.map key := by
      rw [List.map_map]
      refine List.map_congr_left fun r _ => ?_
      by_cases h : p r <;> simp [h, hf]
    rw [hkeys]
    exact t.nodup

variable [DecidableEq K] {t t' : Table K R key} {r : R}

def find (t : Table K R key) (k : K) : Option R :=
  t.rows.find? (fun r => key r = k)

/-- `INSERT`: refused with `none` when the key is taken. -/
def insert (t : Table K R key) (r : R) : Option (Table K R key) :=
  if h : key r ∈ t.rows.map key then none
  else some
    { rows := t.rows ++ [r]
      nodup := by
        rw [List.map_append, List.map_singleton]
        exact List.nodup_append'.mpr ⟨t.nodup, List.nodup_singleton _, by simpa using h⟩ }

/-- `INSERT … ON CONFLICT … REPLACE`: the row takes its key over. -/
def upsert (t : Table K R key) (r : R) : Table K R key where
  rows := t.rows.filter (fun r' => key r' ≠ key r) ++ [r]
  nodup := by
    rw [List.map_append, List.map_singleton]
    refine List.nodup_append'.mpr ⟨t.nodup.sublist (List.filter_sublist.map key),
      List.nodup_singleton _, ?_⟩
    simp

/-! ## What `find` answers -/

theorem find_eq_some {k : K} : t.find k = some r ↔ r ∈ t.rows ∧ key r = k := by
  constructor
  · intro h
    exact ⟨mem_of_find?_eq_some h, by simpa using List.find?_some h⟩
  · rintro ⟨hr, rfl⟩
    -- The first row under the key exists, and by `nodup` it is `r`.
    obtain ⟨r', hr'⟩ : ∃ r', t.find (key r) = some r' := by
      rw [← Option.isSome_iff_exists, find, List.find?_isSome]
      exact ⟨r, hr, by simp⟩
    have hmem := mem_of_find?_eq_some hr'
    have hkey : key r' = key r := by simpa using List.find?_some hr'
    rw [hr', inj_on_of_nodup_map t.nodup hmem hr hkey]

theorem find_eq_none {k : K} : t.find k = none ↔ ∀ r ∈ t.rows, key r ≠ k := by
  simp [find]

theorem key_of_find {k : K} (h : t.find k = some r) : key r = k :=
  (find_eq_some.mp h).2

theorem find_of_mem (h : r ∈ t.rows) : t.find (key r) = some r :=
  find_eq_some.mpr ⟨h, rfl⟩

/-! ## One equation per statement -/

theorem find_delete (t : Table K R key) (p : R → Bool) (k : K) :
    (t.delete p).find k = (t.find k).filter (fun r => !p r) := by
  ext r
  simp only [find_eq_some, delete, mem_filter, Option.filter_eq_some_iff]
  tauto

theorem find_update (t : Table K R key) (p : R → Bool) (f : R → R)
    (hf : ∀ r, key (f r) = key r) (k : K) :
    (t.update p f hf).find k = (t.find k).map (fun r => if p r then f r else r) := by
  have hkey : ∀ r, key (if p r then f r else r) = key r := by
    intro r
    by_cases h : p r <;> simp [h, hf]
  ext r
  simp only [find_eq_some, update, mem_map, Option.map_eq_some_iff]
  constructor
  · rintro ⟨⟨r₀, hr₀, rfl⟩, rfl⟩
    exact ⟨r₀, ⟨hr₀, (hkey r₀).symm⟩, rfl⟩
  · rintro ⟨r₀, ⟨hr₀, rfl⟩, rfl⟩
    exact ⟨⟨r₀, hr₀, rfl⟩, hkey r₀⟩

theorem insert_eq_some (h : t.insert r = some t') :
    t.find (key r) = none ∧ t'.rows = t.rows ++ [r] := by
  unfold insert at h
  split at h
  · cases h
  · next hk =>
    cases h
    refine ⟨find_eq_none.mpr fun r' hr' hkey => hk ?_, rfl⟩
    exact mem_map.mpr ⟨r', hr', hkey⟩

theorem find_insert (h : t.insert r = some t') (k : K) :
    t'.find k = if key r = k then some r else t.find k := by
  obtain ⟨hnone, hrows⟩ := insert_eq_some h
  unfold find
  rw [hrows, List.find?_append]
  by_cases hk : key r = k
  · subst hk
    unfold find at hnone
    simp [hnone]
  · simp [hk]

theorem find_upsert (t : Table K R key) (r : R) (k : K) :
    (t.upsert r).find k = if key r = k then some r else t.find k := by
  ext r'
  split
  · next hk =>
    simp only [find_eq_some, upsert, mem_append, mem_filter, mem_singleton]
    constructor
    · rintro ⟨⟨-, hne⟩ | rfl, hk'⟩
      · simp [hk, hk'] at hne
      · rfl
    · intro h
      cases h
      exact ⟨Or.inr rfl, hk⟩
  · next hk =>
    simp only [find_eq_some, upsert, mem_append, mem_filter, mem_singleton]
    constructor
    · rintro ⟨⟨hr, -⟩ | rfl, hk'⟩
      · exact ⟨hr, hk'⟩
      · exact absurd hk' hk
    · rintro ⟨hr, hk'⟩
      refine ⟨Or.inl ⟨hr, ?_⟩, hk'⟩
      simp only [ne_eq, decide_not, Bool.not_eq_eq_eq_not, Bool.not_true, decide_eq_false_iff_not]
      exact fun h => hk (h.symm.trans hk')

theorem find_delete_key (t : Table K R key) (k₀ k : K) :
    (t.delete (fun r => key r = k₀)).find k = if k = k₀ then none else t.find k := by
  rw [find_delete]
  cases h : t.find k with
  | none => simp
  | some r =>
    have hkey := key_of_find h
    by_cases hk : k = k₀ <;> simp [Option.filter, hkey, hk]

theorem find_update_key (t : Table K R key) (k₀ k : K) (f : R → R) (hf : ∀ r, key (f r) = key r) :
    (t.update (fun r => key r = k₀) f hf).find k =
      if k = k₀ then (t.find k).map f else t.find k := by
  rw [find_update]
  cases h : t.find k with
  | none => simp
  | some r =>
    have hkey := key_of_find h
    by_cases hk : k = k₀ <;> simp [hkey, hk]

theorem insert_isSome (h : t.find (key r) = none) : ∃ t', t.insert r = some t' := by
  have hk : key r ∉ t.rows.map key := by
    intro hmem
    obtain ⟨r', hr', hkey⟩ := mem_map.mp hmem
    exact find_eq_none.mp h r' hr' hkey
  exact ⟨_, dif_neg hk⟩

/-! ## Counting rows -/

theorem find_iff_mem : t.find (key r) = some r ↔ r ∈ t.rows :=
  ⟨fun h => (find_eq_some.mp h).1, find_of_mem⟩

theorem perm_of_find (h : ∀ k, t'.find k = t.find k) : t'.rows.Perm t.rows := by
  refine (perm_ext_iff_of_nodup t'.nodup_rows t.nodup_rows).mpr fun r => ?_
  rw [← find_iff_mem, ← find_iff_mem, h]

theorem perm_cons_delete {k : K} (h : t.find k = some r) :
    t.rows.Perm (r :: (t.delete fun x => key x = k).rows) := by
  have hrest : ∀ x, x ∈ (t.delete fun x => key x = k).rows ↔ x ∈ t.rows ∧ key x ≠ k := by
    simp [delete]
  obtain ⟨hmem, hkey⟩ := find_eq_some.mp h
  refine (perm_ext_iff_of_nodup t.nodup_rows ?_).mpr fun x => ?_
  · exact nodup_cons.mpr ⟨fun hin => ((hrest r).mp hin).2 hkey, nodup_rows _⟩
  · rw [mem_cons, hrest]
    constructor
    · intro hx
      by_cases hk : key x = k
      · exact .inl (inj_on_of_nodup_map t.nodup hx hmem (hk.trans hkey.symm))
      · exact .inr ⟨hx, hk⟩
    · rintro (rfl | ⟨hx, -⟩)
      · exact hmem
      · exact hx

theorem countP_delete {k : K} (h : t.find k = some r) (p : R → Bool) : t.rows.countP p =
    (t.delete fun x => key x = k).rows.countP p + if p r then 1 else 0 := by
  rw [(perm_cons_delete h).countP_eq, countP_cons]

theorem countP_replace {r' : R} (p : R → Bool)
    (h : ∀ k, t'.find k = if k = key r then some r' else t.find k) (hr : t.find (key r) = some r) :
    t'.rows.countP p + [r].countP p = t.rows.countP p + [r'].countP p := by
  have hr' : t'.find (key r) = some r' := (h _).trans (if_pos rfl)
  have hrest : (t'.delete fun x => key x = key r).rows.Perm
      (t.delete fun x => key x = key r).rows := by
    refine perm_of_find fun k => ?_
    rw [find_delete_key, find_delete_key, h]
    split <;> rfl
  rw [countP_delete hr, countP_delete hr', hrest.countP_eq]
  simp only [countP_cons, countP_nil]
  omega

theorem length_filter_congr (p : R → Bool) (h : ∀ k, (t'.find k).filter p = (t.find k).filter p) :
    (t'.rows.filter p).length = (t.rows.filter p).length := by
  have hperm : (t'.delete fun r => !p r).rows.Perm (t.delete fun r => !p r).rows :=
    perm_of_find fun k => by simpa [find_delete] using h k
  simpa [delete] using hperm.length_eq

end Table

end FlexiQ.Lib
