/-
# `Sql.Settle` — the settle marker on the SQL backends

The marker is a column of the claim's row, so whatever deletes the row takes
the marker along, and `claim_settle` is one `UPDATE` that clears it: a
promise is settled once, whoever asks (`single_of_reaches`).

`reclaim_execution` is the exception to the first half.  It rewrites owner,
time and epoch of the row and leaves `settle_deadline_ms` where it is: the
worker that took the job over has a marker it never asked for.
-/
import FlexiQ.Sql.Gate
import FlexiQ.Sql.Leases

namespace FlexiQ.Sql

open Option FlexiQ.Lib FlexiQ.Step

/-! ## A job without a marker -/

/-- No claim is taken over while its marker stands, and no claimed job is
rescheduled. -/
def SettledFirst (t : Tenure) (label : Int × Act) : Prop :=
  label.2.Orderly t.store ∧
    match label.2 with
    | .reclaimExecution id _ _ _ => (leaseOf t.store id).marker = none
    | _ => True

instance (t : Tenure) (label : Int × Act) : Decidable (SettledFirst t label) := by
  unfold SettledFirst
  generalize label.2 = a
  apply @Act.casesOn _ a <;> intros <;> infer_instance

theorem kept_next {serde : Serde} {t t' : Tenure} {label : Int × Act}
    (h : ∀ j, (t.watch j).Kept (leaseOf t.store j)) (hfirst : SettledFirst t label)
    (hnext : t.next serde label = some t') (j : String) :
    (t'.watch j).Kept (leaseOf t'.store j) := by
  unfold Tenure.next at hnext
  split at hnext
  swap
  · cases hnext
  obtain ⟨timeline, htl, rfl⟩ := map_eq_some_iff.mp hnext
  have hstep := next_leaseStep htl j
  -- Under the claim on record nothing changes for a marker that is there.
  have hheld : ∀ {claim : ClaimRow} {owner : String} {epoch : Option Int},
      Holds t.store j owner epoch label.1 claim → claim.settleDeadlineMs.isSome = true →
      t.store.claims.find j = some claim := by
    rintro claim owner epoch (⟨hclaim, -⟩ | ⟨-, rfl⟩) hmark
    · exact hclaim
    · cases hmark
  refine (h j).see ?_ ?_
  · intro hnote hmark
    have hmark : ((timeline.store.claims.find j).bind ClaimRow.settleDeadlineMs).isSome = true :=
      hmark
    have hsame : ∀ {row : Option ClaimRow}, timeline.store.claims.find j = row →
        t.store.claims.find j = row → ¬ (leaseOf t.store j).Ends (leaseOf timeline.store j) →
        (leaseOf t.store j).marker.isSome = true ∧
          (leaseOf timeline.store j).claim = (leaseOf t.store j).claim ∧
          ¬ (leaseOf t.store j).Ends (leaseOf timeline.store j) := by
      intro row hafter hbefore hends
      have heq := hafter.trans hbefore.symm
      rw [heq] at hmark
      exact ⟨hmark, congrArg (Option.map ClaimRow.epoch) heq, hends⟩
    cases hstep with
    | gone _ hgone =>
      rw [hgone] at hmark
      cases hmark
    | same _ hclaim hends => exact hsame hclaim rfl (hends hfirst.1)
    | wrote hends hwrote =>
      generalize hafter : timeline.store.claims.find j = after at hwrote hmark
      generalize label.2.note t.store label.1 j = note at hwrote hnote
      cases hwrote with
      | keeps => exact hsame hafter rfl hends
      | claims => cases hmark
      | reclaims hact hclaim =>
        -- The only writer that would move a marker to another claim.
        have hnone := hfirst.2
        rw [hact] at hnone
        simp only [leaseOf, hclaim, bind_some] at hnone
        simp only [bind_some, hnone] at hmark
        cases hmark
      | holds _ _ hholds => exact hsame hafter (hheld hholds hmark) hends
      | awaits => exact absurd rfl hnote
      | settles => cases hmark
  · intro hnote
    cases hstep with
    | gone hquiet | same hquiet => cases hnote.symm.trans hquiet
    | wrote _ hwrote =>
      show ((timeline.store.claims.find j).map ClaimRow.epoch).isSome = true
      generalize timeline.store.claims.find j = after at hwrote
      rw [hnote] at hwrote
      cases hwrote with
      | awaits => rfl

theorem kept_of_reaches {serde : Serde} {t : Tenure}
    (h : Reaches (Tenure.next serde) SettledFirst .start t) (j : String) :
    (t.watch j).Kept (leaseOf t.store j) := by
  have hall : ∀ j, (t.watch j).Kept (leaseOf t.store j) :=
    h.invariant (I := fun t => ∀ j, (t.watch j).Kept (leaseOf t.store j))
      (fun j hmark => by cases hmark) fun _ _ _ hI hok hnext => kept_next hI hok hnext
  exact hall j

/-! ## A promise and its settlement -/

theorem granted_entitled {s : Store} {j : String} {claimant : SettleClaimant}
    {scope : Scope} (h : (claimSettle s j claimant scope).1 = true) :
    ∃ claim, s.claims.find j = some claim ∧ claimant.entitled claim = true := by
  unfold claimSettle at h
  split at h
  · cases h
  cases hclaim : s.claims.find j with
  | none =>
    rw [hclaim] at h
    cases h
  | some claim =>
    rw [hclaim] at h
    dsimp only at h
    split at h
    · next hentitled => exact ⟨claim, rfl, hentitled⟩
    · cases h

theorem entitled_rightful {s : Store} {j : String} {claim : ClaimRow} {claimant : SettleClaimant}
    (hclaim : s.claims.find j = some claim) (h : claimant.entitled claim = true) :
    claimant.Rightful (leaseOf s j) := by
  unfold SettleClaimant.entitled at h
  cases hmark : claim.settleDeadlineMs with
  | none =>
    rw [hmark] at h
    cases h
  | some d =>
    rw [hmark] at h
    refine ⟨d, by simp [leaseOf, hclaim, hmark], ?_⟩
    cases claimant with
    | lease epoch => simpa [leaseOf, hclaim] using h
    | expired now => exact of_decide_eq_true h
    | abandoned => trivial

section Steps

variable {serde : Serde} {t t' : Tenure} {label : Int × Act}

theorem single_next (h : ∀ j, (t.watch j).Single (leaseOf t.store j))
    (hnext : t.next serde label = some t') (j : String) :
    (t'.watch j).Single (leaseOf t'.store j) := by
  unfold Tenure.next at hnext
  split at hnext
  swap
  · cases hnext
  obtain ⟨timeline, htl, rfl⟩ := map_eq_some_iff.mp hnext
  have hstep := next_leaseStep htl j
  refine (h j).see ?_ ?_
  · intro hnote hmark
    have hmark : ((timeline.store.claims.find j).bind ClaimRow.settleDeadlineMs).isSome = true :=
      hmark
    show ((t.store.claims.find j).bind ClaimRow.settleDeadlineMs).isSome = true
    cases hstep with
    | gone _ hgone =>
      rw [hgone] at hmark
      cases hmark
    | same _ hclaim _ => exact hclaim ▸ hmark
    | wrote _ hwrote =>
      generalize timeline.store.claims.find j = after at hwrote hmark
      rw [hnote] at hwrote
      cases hwrote with
      | keeps => exact hmark
      | claims => cases hmark
      | reclaims _ hclaim =>
        rw [hclaim]
        exact hmark
      | holds _ _ hholds =>
        rcases hholds with ⟨hclaim, -⟩ | ⟨-, rfl⟩
        · rw [hclaim]
          exact hmark
        · cases hmark
  · intro hnote
    cases hstep with
    | gone hquiet | same hquiet => cases hnote.symm.trans hquiet
    | wrote _ hwrote =>
      show ((t.store.claims.find j).bind ClaimRow.settleDeadlineMs).isSome = true ∧
        (timeline.store.claims.find j).bind ClaimRow.settleDeadlineMs = none
      generalize timeline.store.claims.find j = after at hwrote
      rw [hnote] at hwrote
      cases hwrote with
      | settles hclaim hentitled =>
        obtain ⟨d, hmark, -⟩ := entitled_rightful hclaim hentitled
        exact ⟨isSome_of_eq_some hmark, rfl⟩

theorem deadline_next (hnext : t.next serde label = some t') {j : String} {d d' : Int}
    (hd : (leaseOf t.store j).marker = some d) (hd' : (leaseOf t'.store j).marker = some d') :
    d ≤ d' := by
  unfold Tenure.next at hnext
  split at hnext
  swap
  · cases hnext
  obtain ⟨timeline, htl, rfl⟩ := map_eq_some_iff.mp hnext
  have hstep := next_leaseStep htl j
  have hd : (t.store.claims.find j).bind ClaimRow.settleDeadlineMs = some d := hd
  have hd' : (timeline.store.claims.find j).bind ClaimRow.settleDeadlineMs = some d' := hd'
  cases hstep with
  | gone _ hgone =>
    rw [hgone] at hd'
    cases hd'
  | same _ hclaim _ =>
    rw [hclaim] at hd'
    exact (Option.some.inj (hd.symm.trans hd')).le
  | wrote _ hwrote =>
    generalize timeline.store.claims.find j = after at hwrote hd'
    generalize label.2.note t.store label.1 j = note at hwrote
    cases hwrote with
    | keeps => exact (Option.some.inj (hd.symm.trans hd')).le
    | claims _ hfree =>
      rw [hfree] at hd
      cases hd
    | reclaims _ hclaim =>
      rw [hclaim] at hd
      exact (Option.some.inj (hd.symm.trans hd')).le
    | holds _ _ hholds =>
      rcases hholds with ⟨hclaim, -⟩ | ⟨hfree, -⟩
      · rw [hclaim] at hd
        exact (Option.some.inj (hd.symm.trans hd')).le
      · rw [hfree] at hd
        cases hd
    | awaits _ _ hholds hlater =>
      cases hd'
      rcases hholds with ⟨hclaim, -⟩ | ⟨hfree, -⟩
      · rw [hclaim] at hd
        exact hlater d hd
      · rw [hfree] at hd
        cases hd
    | settles => cases hd'

end Steps

theorem single_of_reaches {serde : Serde} {ok : Tenure → Int × Act → Prop} {t : Tenure}
    (h : Reaches (Tenure.next serde) ok .start t) (j : String) :
    (t.watch j).Single (leaseOf t.store j) := by
  have hall : ∀ j, (t.watch j).Single (leaseOf t.store j) :=
    h.invariant (I := fun t => ∀ j, (t.watch j).Single (leaseOf t.store j))
      (fun j => ⟨Nat.zero_le 1, fun hmark => by cases hmark⟩)
      fun _ _ _ hI _ hnext => single_next hI hnext
  exact hall j

end FlexiQ.Sql
