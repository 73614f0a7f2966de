/-
# `Sql.Fence` — a superseded epoch stays superseded

The fence compares the epoch a writer presents with the one on the claim, and
takes an ABSENT claim for agreement: the age sweep may have deleted it, and a
write puts it back.  The attempt number does not close that gap.
`requeue_stuck` and `sleep_job` leave it as it was, so between a second
dispatch and its `claim_execution` the job runs at the old attempt with no
claim, and whoever was superseded is let through
(`superseded_epoch_accepted`).
-/
import FlexiQ.Sql.Gate
import FlexiQ.Sql.Leases

namespace FlexiQ.Sql

open List FlexiQ.Lib FlexiQ.Step

/-- If the job runs at that attempt, its claim is on record and carries an
epoch. -/
def Covered (s : Store) (j : String) (attempt : Int) : Prop :=
  (leaseOf s j).stage = some (true, attempt) → (leaseOf s j).claim.join.isSome = true
  deriving Decidable

/-- A call that presents a spent epoch meets more than an absent claim. -/
def Guarded (t : Tenure) (label : Int × Act) : Prop :=
  label.2.Orderly t.store ∧
    ∀ p ∈ label.2.presents, ∀ e ∈ p.2.2, e ∈ (t.watch p.1).spent → Covered t.store p.1 p.2.1
  deriving Decidable

/-- Spent epochs are off the record, and whatever a job was minted was
issued. -/
structure FenceHolds (t : Tenure) : Prop where
  fenced : ∀ j, (t.watch j).Fenced (leaseOf t.store j)
  issued : ∀ j, ∀ e ∈ (t.watch j).minted, e ∈ t.issued

theorem FenceHolds.start : FenceHolds .start :=
  ⟨fun j => .start _, fun j e he => by cases he⟩

theorem FenceHolds.next {serde : Serde} {t t' : Tenure} {label : Int × Act} (h : FenceHolds t)
    (hguard : Guarded t label) (hnext : t.next serde label = some t') : FenceHolds t' := by
  unfold Tenure.next at hnext
  split at hnext
  swap
  · cases hnext
  next hfresh =>
  obtain ⟨timeline, htl, rfl⟩ := Option.map_eq_some_iff.mp hnext
  refine ⟨fun j => ?_, fun j e he => ?_⟩
  · have hstep := next_leaseStep htl j
    -- A minted epoch is new, so nobody has spent it.
    have hnew : ∀ e, (j, e) ∈ label.2.epochs → e ∉ (t.watch j).spent := by
      intro e he hspent
      have hnot : e ∉ t.issued := by
        simpa using all_eq_true.mp hfresh (j, e) he
      exact hnot (h.issued j e ((h.fenced j) e hspent).1)
    -- Who puts a claim back found none, so what it presents is not spent.
    have hback : ∀ {attempt : Int} {e : Int}, label.2.presents = some (j, attempt, some e) →
        (leaseOf t.store j).stage = some (true, attempt) → t.store.claims.find j = none →
        e ∉ (t.watch j).spent := by
      intro attempt e hpres hstage hnone hspent
      have hcov := hguard.2 _ hpres e rfl hspent hstage
      have hclaim : (leaseOf t.store j).claim = none := congrArg (Option.map _) hnone
      rw [hclaim] at hcov
      cases hcov
    have hheld : ∀ {owner : String} {attempt : Int} {epoch : Option Int} {claim : ClaimRow}
        {e : Int}, label.2.presents = some (j, attempt, epoch) →
        (leaseOf t.store j).stage = some (true, attempt) →
        Holds t.store j owner epoch label.1 claim → claim.epoch = some e →
        (leaseOf t.store j).claim = some (some e) ∨ e ∉ (t.watch j).spent := by
      rintro owner attempt epoch claim e hpres hstage (⟨hclaim, -, -⟩ | ⟨hnone, rfl⟩) he
      · exact Or.inl (by simp [leaseOf, hclaim, he])
      · obtain rfl : epoch = some e := he
        exact Or.inr (hback hpres hstage hnone)
    refine (h.fenced j).see ?_ ?_
    · intro hends
      cases hstep with
      | gone _ hgone => exact congrArg (Option.map _) hgone
      | same _ _ hnot => exact absurd hends (hnot hguard.1)
      | wrote hnot _ => exact absurd hends hnot
    · intro e he
      have he : (timeline.store.claims.find j).map ClaimRow.epoch = some (some e) := he
      cases hstep with
      | gone _ hgone =>
        rw [hgone] at he
        cases he
      | same _ hsame _ =>
        rw [hsame] at he
        exact Or.inl he
      | wrote _ hwrote =>
        generalize timeline.store.claims.find j = after at he hwrote
        generalize label.2.note t.store label.1 j = note at hwrote
        cases hwrote with
        | keeps => exact Or.inl he
        | claims hact | reclaims hact =>
          cases he
          exact Or.inr (hnew e (by rw [hact]; exact mem_singleton_self _))
        | holds hpres hstage hholds | awaits hpres hstage hholds =>
          exact hheld hpres hstage hholds (Option.some.inj he)
        | settles hclaim _ =>
          left
          rw [← he]
          simp [leaseOf, hclaim]
  · rcases mem_append.mp he with he | he
    · refine mem_append_left _ ?_
      obtain ⟨p, hp, rfl⟩ := mem_map.mp he
      exact mem_map_of_mem (mem_of_mem_filter hp)
    · exact mem_append_right _ (h.issued j e he)

theorem fenceHolds_of_reaches {serde : Serde} {t : Tenure}
    (h : Reaches (Tenure.next serde) Guarded .start t) : FenceHolds t :=
  h.invariant .start fun _ _ _ hI hok hnext => hI.next hok hnext

theorem fence_refuses {s : Store} {w : Watch} {j owner : String} {attempt e : Int}
    {scope : Scope} {reassert : Bool} {now : Int} (hfenced : w.Fenced (leaseOf s j))
    (hspent : e ∈ w.spent) (hcov : Covered s j attempt) :
    resolveAttemptFence s j owner attempt (some e) scope reassert now = .error (.claimLost j) := by
  unfold resolveAttemptFence
  cases hjob : s.jobs.find j with
  | none => rfl
  | some job =>
    dsimp only
    split
    · rfl
    next hguard =>
    simp only [ne_eq, Bool.or_eq_true, decide_eq_true_eq, not_or, not_not] at hguard
    have hstage : (leaseOf s j).stage = some (true, attempt) := by
      simp [leaseOf, hjob, stageOf, hguard.1.2, hguard.2]
    have hclaim := hcov hstage
    cases hrow : s.claims.find j with
    | none => simp [leaseOf, hrow] at hclaim
    | some claim =>
      dsimp only
      split
      · obtain ⟨e', he'⟩ : ∃ e', claim.epoch = some e' := by
          rw [← Option.isSome_iff_exists]
          simpa [leaseOf, hrow] using hclaim
        have hne : e' ≠ e := by
          rintro rfl
          exact (hfenced e' hspent).2.2 (by simp [leaseOf, hrow, he'])
        rw [if_neg (by simp [he', epochsAgree, hne])]
      · rfl

/-- Nothing a writer can ask for under these credentials is granted. -/
structure Refused (s : Store) (j owner : String) (attempt : Int) (epoch : Option Int)
    (scope : Scope) (now : Int) : Prop where
  record : ∀ step limits, step.jobId = j →
    ∃ e, recordStepResult s step owner attempt epoch limits scope now = .error e
  sleep : ∀ step wakeAt limits, step.jobId = j →
    sleepJob s step owner attempt epoch wakeAt limits scope now = .error (.claimLost j)
  await : ∀ deadlineMs, awaitSettle s j owner attempt epoch deadlineMs scope now = .ok (none, s)
  authorize : authorizeAttempt s j owner attempt epoch scope = .ok .superseded

/-- **A superseded epoch is refused for ever**, in any state of a history in
which the calls that present it meet more than an absent claim. -/
theorem superseded_epoch_refused {serde : Serde} {t : Tenure}
    (h : Reaches (Tenure.next serde) Guarded .start t) {j : String} {e : Int}
    (hspent : e ∈ (t.watch j).spent) (owner : String) (attempt : Int) (scope : Option String)
    (now : Int) (hcov : Covered t.store j attempt) :
    Refused t.store j owner attempt (some e) scope now := by
  have hfence : ∀ reassert now, resolveAttemptFence t.store j owner attempt (some e) scope
      reassert now = .error (.claimLost j) := fun reassert now =>
    fence_refuses ((fenceHolds_of_reaches h).fenced j) hspent hcov
  refine ⟨?_, ?_, ?_, ?_⟩
  · rintro step limits rfl
    unfold recordStepResult
    dsimp only
    split
    · exact ⟨_, rfl⟩
    · rw [hfence]
      exact ⟨_, rfl⟩
  · rintro step wakeAt limits rfl
    unfold sleepJob
    rw [hfence]
    rfl
  · intro deadlineMs
    unfold awaitSettle
    rw [hfence]
  · unfold authorizeAttempt
    rw [hfence]

def stuckAndBack : List (Int × Act) :=
  [(0, .enqueue (plainJob []) "job"), (10, .dequeue dequeueOne), (11, .claimExecution "job" "w" 1),
    (20, .requeueStuck "job"), (30, .dequeue dequeueOne)]

def lateStep : NewJobStep := ⟨"job", 0, "charge", .run, some [1]⟩

def someLimits : StepLimits := ⟨1024, 4096, 10⟩

/-- Before the second dispatch has claimed the job, the first worker's epoch
is accepted at the attempt both share, and is on record again. -/
theorem superseded_epoch_accepted : ∃ t,
    Reaches (Tenure.next noJson) (fun _ _ => True) .start t ∧ 1 ∈ (t.watch "job").spent ∧
      (recordStepResult t.store lateStep "w" 0 (some 1) someLimits none 31).toOption.any (fun r =>
        r.1 = .committed ∧ (leaseOf r.2 "job").claim = some (some 1)) = true ∧
      (sleepJob t.store lateStep "w" 0 (some 1) 90 someLimits none 31).toOption.isSome = true ∧
      (awaitSettle t.store "job" "w" 0 (some 1) 90 none 31).toOption.any
        (fun r => r.1 = some 90) = true ∧
      (authorizeAttempt t.store "job" "w" 0 (some 1) none).toOption = some .authorized :=
  exists_reached stuckAndBack

theorem first_worker_refused : ∃ t, Reaches (Tenure.next noJson) Guarded .start t ∧
    1 ∈ (t.watch "job").spent ∧ (leaseOf t.store "job").stage = some (true, 0) ∧
      Refused t.store "job" "w" 0 (some 1) none 41 := by
  refine exists_reached_imp (P := fun t => 1 ∈ (t.watch "job").spent ∧
      (leaseOf t.store "job").stage = some (true, 0) ∧ Covered t.store "job" 0)
    (stuckAndBack ++ [(31, .claimExecution "job" "v" 2),
      (40, .recordStepResult lateStep "w" 0 (some 1) someLimits none)]) ?_
  rintro t hrun ⟨hspent, hstage, hcov⟩
  exact ⟨hspent, hstage, superseded_epoch_refused hrun hspent "w" 0 none 41 hcov⟩

end FlexiQ.Sql
