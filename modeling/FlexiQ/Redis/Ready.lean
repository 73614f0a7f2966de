/-
# `Redis.Ready` — a ready job in the window is not passed over

The Redis twin of `Sql.Ready`.  The script stops as soon as it has claimed
or deferred enough, and until it claims anything it changes nothing but
entries of the sorted set that lead nowhere.  So either it claimed
something, or whatever it deferred is still pending when Rust comes back to
claim it: the ids Rust archives in between are expired, the deferred ones
are not.
-/
import FlexiQ.Redis.Dequeue
import FlexiQ.Redis.Effects

namespace FlexiQ.Redis

open List FlexiQ.Lib

variable {s : Store} {now : Int} {job : Job} {ids : List String} {queue : String}

/-- A job the queue holds that nothing keeps from running. -/
structure Ready (s : Store) (queue : String) (now : Int) (ns : Scope) (job : Job) :
    Prop where
  live : s.jobs.find job.id = some job
  queued : (s.zsets.zscore (.pending queue) job.id).isSome = true
  pending : job.status = .pending
  indexed : s.sets.sismember (.status .pending) job.id = true
  due : job.scheduledAt ≤ now
  unexpired : job.expiredAt now = false
  inNamespace : job.namespace = ns
  deps : ∀ dep ∈ s.sets.smembers (.dependsOn job.id),
    (getJob s dep none).map Job.status = some .complete

theorem depsComplete_of_complete {id : String} (h : ∀ dep ∈ s.sets.smembers (.dependsOn id),
      (getJob s dep none).map Job.status = some .complete) : depsComplete s id = true := by
  rw [depsComplete, all_eq_true]
  intro dep hdep
  have hstatus := h dep hdep
  cases hlive : s.jobs.find dep with
  | some row =>
    simpa [getJob, loadJob, hlive, visibleIn, Option.filter] using hstatus
  | none =>
    cases harch : s.archived.find dep with
    | none => simp [getJob, loadJob, loadArchivedJob, hlive, harch] at hstatus
    | some row =>
      simpa [getJob, loadJob, loadArchivedJob, hlive, harch, visibleIn, Option.filter]
        using hstatus

/-! ## The script -/

def Kept (now : Int) (s₀ : Store) (out : Selected) (s : Store) : Prop :=
  out.claimed ≠ [] ∨
    (s.jobs = s₀.jobs ∧ s.archived = s₀.archived ∧ s.sets = s₀.sets ∧
      (∀ job ∈ out.deferred, s₀.jobs.find job.id = some job ∧ job.expiredAt now = false ∧
        s₀.sets.sismember (.status .pending) job.id = true) ∧
      ∀ id ∈ out.expired, ∃ job, s₀.jobs.find id = some job ∧ job.expiredAt now = true)

section Script

variable {ns : Scope} {max : Nat} {s₀ : Store} {out : Selected}

theorem selectOne_claimed (s : Store) (out : Selected) (id : String) :
    out.claimed ≠ [] → (selectOne queue now ns s out id).1.claimed ≠ [] := by
  intro h
  unfold selectOne
  repeat' split
  all_goals first | exact h | simp

theorem selectOne_kept (id : String) (h : Kept now s₀ out s) :
    Kept now s₀ (selectOne queue now ns s out id).1 (selectOne queue now ns s out id).2 := by
  rcases h with hclaimed | ⟨hjobs, harch, hsets, hdef, hexp⟩
  · exact Or.inl (selectOne_claimed s out id hclaimed)
  · unfold selectOne
    cases hjob : loadJob s id with
    | none => exact Or.inr ⟨hjobs, harch, hsets, hdef, hexp⟩
    | some job =>
      have hlive : s₀.jobs.find id = some job := by
        rw [← hjobs]
        exact hjob
      dsimp only
      split
      · exact Or.inr ⟨hjobs, harch, hsets, hdef, hexp⟩
      split
      · next hexpired =>
        refine Or.inr ⟨hjobs, harch, hsets, hdef, ?_⟩
        intro id' hid'
        rcases mem_append.mp hid' with hid' | hid'
        · exact hexp id' hid'
        · cases mem_singleton.mp hid'
          exact ⟨job, hlive, hexpired⟩
      next hfresh =>
      split
      · next hfree =>
        rw [Bool.and_eq_true] at hfree
        split
        · exact Or.inl (by simp)
        · -- The job is deferred as it stands.
          refine Or.inr ⟨hjobs, harch, hsets, ?_, hexp⟩
          intro d hd
          rcases mem_append.mp hd with hd | hd
          · exact hdef d hd
          · cases mem_singleton.mp hd
            have hkey : job.id = id := Table.key_of_find hlive
            rw [hkey, ← hsets]
            exact ⟨hlive, by simpa using hfresh, hfree.2⟩
      · exact Or.inr ⟨hjobs, harch, hsets, hdef, hexp⟩

theorem selectAndClaim_kept : ∀ {ids : List String} {s : Store} {out : Selected},
    Kept now s₀ out s →
    Kept now s₀ (selectAndClaim queue now ns max s out ids).1
      (selectAndClaim queue now ns max s out ids).2
  | [], _, _, h => h
  | id :: ids, s, out, h => by
    rw [selectAndClaim]
    split
    · exact h
    · exact selectAndClaim_kept (selectOne_kept id h)

/-- Something is in the script's hands. -/
def Selected.some (out : Selected) : Prop := out.claimed ≠ [] ∨ out.deferred ≠ []

theorem selectOne_some (s : Store) (out : Selected) (id : String) (h : out.some) :
    (selectOne queue now ns s out id).1.some := by
  unfold selectOne
  repeat' split
  all_goals first | exact h | simp [Selected.some]

theorem selectAndClaim_some : ∀ {ids : List String} {s : Store} {out : Selected}, out.some →
    (selectAndClaim queue now ns max s out ids).1.some
  | [], _, _, h => h
  | id :: ids, s, out, h => by
    rw [selectAndClaim]
    split
    · exact h
    · exact selectAndClaim_some (selectOne_some s out id h)

theorem selectOne_ready (hready : Ready s₀ queue now ns job) (hkept : Kept now s₀ out s) :
    (selectOne queue now ns s out job.id).1.some := by
  rcases hkept with hclaimed | ⟨hjobs, harch, hsets, -, -⟩
  · exact Or.inl (selectOne_claimed s out job.id hclaimed)
  · have hload : loadJob s job.id = Option.some job := by
      rw [loadJob, hjobs]
      exact hready.live
    have hdeps : depsComplete s job.id = true := by
      have h₀ := depsComplete_of_complete hready.deps
      rw [depsComplete, ← hjobs, ← harch, ← hsets] at h₀
      exact h₀
    have hindexed : s.sets.sismember (.status .pending) job.id = true := by
      rw [hsets]
      exact hready.indexed
    have hworth : (worthDecoding now ns job && claimable now ns job) = true := by
      simp only [worthDecoding, claimable, hready.pending, hready.due, hready.inNamespace,
        decide_true, Bool.and_self]
      cases ns <;> rfl
    simp only [selectOne, hload, hworth, hready.unexpired, hdeps, hindexed, Bool.not_true,
      Bool.false_eq_true, if_false, Bool.or_true, Bool.and_self, if_true]
    split
    · exact Or.inl (by simp)
    · exact Or.inr (by simp)

/-- **The script takes something in hand** if a ready job is among its
candidates. -/
theorem selectAndClaim_ready (hmax : 1 ≤ max) (hready : Ready s₀ queue now ns job) :
    ∀ {ids : List String} {s : Store} {out : Selected}, job.id ∈ ids → Kept now s₀ out s →
      (selectAndClaim queue now ns max s out ids).1.some
  | [], _, _, hmem, _ => by cases hmem
  | id :: ids, s, out, hmem, hkept => by
    rw [selectAndClaim]
    split
    · next hfull =>
      -- The budget is spent, and it was not empty.
      by_contra hnone
      simp only [Selected.some, not_or, not_not] at hnone
      rw [hnone.1, hnone.2] at hfull
      simp only [length_nil, Nat.add_zero] at hfull
      omega
    · rcases mem_cons.mp hmem with rfl | hmem
      · exact selectAndClaim_some (selectOne_ready hready hkept)
      · exact selectAndClaim_ready hmax hready hmem (selectOne_kept id hkept)

end Script

/-! ## What Rust does with the answer -/

theorem archiveExpired_pending {id : String} : ∀ {ids : List String} {s : Store},
    (∀ id' ∈ ids, id ≠ id') → s.sets.sismember (.status .pending) id = true →
    (archiveExpired now s ids).2.sets.sismember (.status .pending) id = true
  | [], _, _, h => h
  | id' :: ids, s, hne, h => by
    have hrest : ∀ id' ∈ ids, id ≠ id' := fun i hi => hne i (mem_cons_of_mem _ hi)
    rw [archiveExpired]
    cases hjob : (loadJob s id').filter (fun job => job.status = .pending) with
    | none => exact archiveExpired_pending hrest h
    | some job =>
      have hkey : job.id = id' :=
        Table.key_of_find (Option.filter_eq_some_iff.mp hjob).1
      refine archiveExpired_pending hrest ?_
      rw [(archiveJobImmediately_spec s _ .pending now).status .pending id ?_]
      · exact h
      · exact fun heq => hne id' mem_cons_self (heq.trans hkey)

theorem claimDeferred_ne_nil {max : Nat} : ∀ {jobs claimed : List Job} {s : Store}, claimed ≠ [] →
      (claimDeferred queue now max s claimed jobs).1 ≠ []
  | [], _, _, h => h
  | job :: jobs, claimed, s, h => by
    rw [claimDeferred]
    split
    · exact h
    · split
      · exact claimDeferred_ne_nil (by simp)
      · exact claimDeferred_ne_nil h

theorem claimDeferred_claims {max : Nat} {jobs : List Job} (hmax : 1 ≤ max)
    (h : s.sets.sismember (.status .pending) job.id = true) :
    (claimDeferred queue now max s [] (job :: jobs)).1 ≠ [] := by
  have hbudget : ¬ ([] : List Job).length = max := by
    rw [length_nil]
    omega
  rw [claimDeferred, if_neg hbudget, if_pos h]
  exact claimDeferred_ne_nil (by simp)

/-- **A dequeue with a ready job in its window claims something.** -/
theorem dequeueBatch_claims {ns : Scope} {max : Nat} (hmax : 1 ≤ max)
    (hready : Ready s queue now ns job) (hwindow : job.id ∈ window s queue max) :
    (dequeueBatch s queue now ns max).1.1 ≠ [] := by
  have hstart : Kept now s ⟨[], [], []⟩ s := by
    refine Or.inr ⟨rfl, rfl, rfl, ?_, ?_⟩
    · intro d hd
      cases hd
    · intro id hid
      cases hid
  have hkept : Kept now s
      (selectAndClaim queue now ns max s ⟨[], [], []⟩ (window s queue max)).1
      (selectAndClaim queue now ns max s ⟨[], [], []⟩ (window s queue max)).2 :=
    selectAndClaim_kept hstart
  have hsome := selectAndClaim_ready hmax hready hwindow hstart
  rw [dequeueBatch, if_neg (by omega)]
  generalize selectAndClaim queue now ns max s ⟨[], [], []⟩ (window s queue max) = res
    at hkept hsome ⊢
  obtain ⟨⟨claimed, expired, deferred⟩, s'⟩ := res
  rcases hkept with hclaimed | ⟨-, -, hsets, hdef, hexp⟩
  · exact claimDeferred_ne_nil hclaimed
  · by_cases hnil : claimed = []
    · subst hnil
      have hdeferred : deferred ≠ [] := by
        rcases hsome with h | h
        · exact absurd rfl h
        · exact h
      obtain ⟨d, rest, rfl⟩ := exists_cons_of_ne_nil hdeferred
      obtain ⟨hlive, hfresh, hindexed⟩ := hdef d mem_cons_self
      refine claimDeferred_claims hmax (archiveExpired_pending ?_ ?_)
      · -- What was set aside is expired; the deferred job is not.
        rintro id hid rfl
        obtain ⟨j, hj, hexpired⟩ := hexp d.id hid
        rw [hlive] at hj
        cases hj
        rw [hfresh] at hexpired
        cases hexpired
      · rw [hsets]
        exact hindexed
    · exact claimDeferred_ne_nil hnil

end FlexiQ.Redis
