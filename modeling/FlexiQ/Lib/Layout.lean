/-
# `Lib.Layout` — a log filled group by group

A plan is a list of groups.  A log follows the plan when it runs through
the groups in order, each group complete before the next begins, in ANY
order inside a group, and stops somewhere — possibly in the middle of the
last group it reached.  `Layout plan log` says so.
-/
import Mathlib.Data.List.Perm.Basic
import Mathlib.Data.List.Flatten
import Mathlib.Data.List.Forall2
import Mathlib.Data.List.Nodup

namespace FlexiQ.Lib

open List

variable {α : Type}

/-- `log` runs through the groups of `plan` in order, stopping anywhere. -/
def Layout : List (List α) → List α → Prop
  | [], log => log = []
  | g :: plan, log =>
    (∃ done rest, log = done ++ rest ∧ done.Perm g ∧ Layout plan rest) ∨ log ⊆ g

theorem layout_nil : ∀ plan : List (List α), Layout plan []
  | [] => rfl
  | _ :: _ => Or.inr (nil_subset _)

theorem Layout.perm : ∀ {plan plan' : List (List α)} {log : List α},
    List.Forall₂ List.Perm plan plan' → Layout plan log → Layout plan' log
  | [], [], _, _, h => h
  | _ :: _, _ :: _, _, .cons hg hplan, .inl ⟨done, rest, hlog, hdone, hrest⟩ =>
    Or.inl ⟨done, rest, hlog, hdone.trans hg, hrest.perm hplan⟩
  | _ :: _, _ :: _, _, .cons hg _, .inr hsub =>
    Or.inr (fun _ hx => hg.subset (hsub hx))

theorem Layout.subset : ∀ {plan : List (List α)} {log : List α},
    Layout plan log → log ⊆ plan.flatten
  | [], log, h => by
    rw [show log = [] from h]
    exact nil_subset _
  | g :: plan, log, .inl ⟨done, rest, hlog, hdone, hrest⟩ => by
    subst hlog
    rw [flatten_cons]
    intro x hx
    rcases mem_append.mp hx with h | h
    · exact mem_append_left _ (hdone.subset h)
    · exact mem_append_right _ (hrest.subset h)
  | g :: plan, log, .inr hsub => by
    rw [flatten_cons]
    exact fun x hx => mem_append_left _ (hsub hx)

/-- Splitting a list at its first element outside `done` skips any part of
it that lies inside. -/
theorem split_past {done l r a b : List α} {x : α} (hl : ∀ y ∈ l, y ∈ done) (hx : x ∉ done)
    (h : l ++ r = a ++ x :: b) : ∃ a', a = l ++ a' ∧ r = a' ++ x :: b := by
  rcases append_eq_append_iff.mp h with ⟨a', rfl, hr⟩ | ⟨c, hlc, hc⟩
  · exact ⟨a', rfl, hr⟩
  · cases c with
    | nil =>
      rw [append_nil] at hlc
      exact ⟨[], by rw [hlc, append_nil], by simpa using hc.symm⟩
    | cons y c =>
      obtain ⟨rfl, -⟩ := List.cons.inj hc
      exact absurd (hl x (by rw [hlc]; simp)) hx

/-- **The next entry.**  With the groups before it accounted for, the first
entry of a log that is not is the element of the one-element group. -/
theorem Layout.next {k x : α} {post : List (List α)} {done : List α} (hk : k ∉ done)
    (hx : x ∉ done) : ∀ {pre : List (List α)} {log a b : List α},
    Layout (pre ++ [k] :: post) log → pre.flatten ⊆ done →
    log = a ++ x :: b → (∀ y ∈ a, y ∈ done) → x = k
  | [], log, a, b, .inl ⟨l, r, hlog, hl, _⟩, _, hsplit, ha => by
    obtain rfl := perm_singleton.mp hl
    rw [hlog, singleton_append] at hsplit
    cases a with
    | nil => exact (List.cons.inj hsplit).1.symm
    | cons y a =>
      obtain ⟨rfl, -⟩ := List.cons.inj hsplit
      exact absurd (ha k (by simp)) hk
  | [], log, a, b, .inr hsub, _, hsplit, _ => by
    have hmem : x ∈ log := by rw [hsplit]; simp
    simpa using hsub hmem
  | g :: pre, log, a, b, .inl ⟨l, r, hlog, hl, hr⟩, hpre, hsplit, ha => by
    rw [flatten_cons] at hpre
    have hdone : ∀ y ∈ l, y ∈ done := fun y hy =>
      hpre (mem_append_left _ (hl.subset hy))
    obtain ⟨a', rfl, hr'⟩ := split_past hdone hx (hlog.symm.trans hsplit)
    exact Layout.next hk hx hr (fun y hy => hpre (mem_append_right _ hy)) hr'
      (fun y hy => ha y (mem_append_right _ hy))
  | g :: pre, log, a, b, .inr hsub, hpre, hsplit, _ => by
    rw [flatten_cons] at hpre
    have hmem : x ∈ log := by rw [hsplit]; simp
    exact absurd (hpre (mem_append_left _ (hsub hmem))) hx

/-- **One more entry.**  With the earlier groups complete, a fresh element of
the next group may be appended. -/
theorem Layout.snoc {k : α} {g : List α} {post : List (List α)} (hk : k ∈ g) :
    ∀ {pre : List (List α)} {log : List α}, Layout (pre ++ g :: post) log →
      pre.flatten.Nodup → log.Nodup → pre.flatten ⊆ log → k ∉ log →
      Layout (pre ++ g :: post) (log ++ [k])
  | [], log, .inl ⟨l, r, hlog, hl, _⟩, _, _, _, hfresh => by
    refine absurd ?_ hfresh
    rw [hlog]
    exact mem_append_left _ (hl.symm.subset hk)
  | [], log, .inr hsub, _, _, _, _ => by
    refine Or.inr fun x hx => ?_
    rcases mem_append.mp hx with h | h
    · exact hsub h
    · rw [mem_singleton.mp h]
      exact hk
  | g' :: pre, log, .inl ⟨l, r, hlog, hl, hr⟩, hnodup, hlognodup, hpre, hfresh => by
    rw [flatten_cons] at hnodup hpre
    obtain ⟨-, hpn, hdisj⟩ := nodup_append'.mp hnodup
    subst hlog
    refine Or.inl ⟨l, r ++ [k], append_assoc .., hl, hr.snoc hk hpn ?_ ?_ ?_⟩
    · exact (nodup_append'.mp hlognodup).2.1
    · intro x hx
      rcases mem_append.mp (hpre (mem_append_right _ hx)) with h | h
      · exact absurd hx (disjoint_left.mp hdisj (hl.subset h))
      · exact h
    · exact fun h => hfresh (mem_append_right _ h)
  | g' :: pre, log, .inr hsub, hnodup, hlognodup, hpre, hfresh => by
    -- The log lies inside a group that is complete, so it IS that group.
    rw [flatten_cons] at hnodup hpre
    obtain ⟨hgn, hpn, hdisj⟩ := nodup_append'.mp hnodup
    have hperm : log.Perm g' := (perm_ext_iff_of_nodup hlognodup hgn).mpr fun x =>
      ⟨fun hx => hsub hx, fun hx => hpre (mem_append_left _ hx)⟩
    refine Or.inl ⟨log, [k], rfl, hperm, ?_⟩
    have hrest : Layout (pre ++ g :: post) [] := layout_nil _
    refine hrest.snoc hk hpn nodup_nil ?_ (not_mem_nil)
    intro x hx
    exact absurd hx (disjoint_left.mp hdisj
      (hsub (hpre (mem_append_right _ hx))))

end FlexiQ.Lib
