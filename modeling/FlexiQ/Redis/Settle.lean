/-
# `Redis.Settle` — the settle marker on Redis

The marker is a key of its own, with an expiry of its own, and no transition
deletes it.  A job that is retried, reclaimed, put to sleep or archived while
the marker stands loses its claim and keeps the marker.  Where nothing retires
a job whose marker stands, and the claim does not expire before it, a marker
stands under the claim it was written under (`kept_of_reaches`).

`CLAIM_SETTLE` is one script that deletes the marker, so a promise is settled
once — if the promise was answered, which it is not from fourteen digits of
the deadline on.
-/
import FlexiQ.Redis.Agree
import FlexiQ.Redis.Leases

namespace FlexiQ.Redis

open Option FlexiQ.Lib FlexiQ.Step FlexiQ.Sql Table

variable {s : Store} {now d : Int} {j : String} {w : Watch} {c : Req} {serde : Serde}
  {p : Pool Req Resp Reply (Server × (String → Watch))}

/-! ## The observer -/

def Req.epochs (c : Req) (j : String) : List Int :=
  match c with
  | .claim id _ _ epoch => if id = j then [epoch] else []
  | .reclaim id _ _ _ epoch => if id = j then [epoch] else []
  | _ => []

/-- What a request does about the settle of a job: it puts the marker on, or
takes it off. -/
def Req.wrote : (c : Req) → Resp c → Store → String → Note
  | .awaitSettle id owner attempt epoch _ scope now, _, s, j =>
    if id = j ∧ (fence s id owner attempt epoch scope true now).isSome = true then .promised
    else .quiet
  | .claimSettle id _ _, granted, _, j => if id = j then cond granted .settled .quiet else .quiet
  | _, _, _, _ => .quiet

def Req.answered : (c : Req) → Resp c → Store → String → Note
  | .awaitSettle id .., deadline, _, j =>
    if id = j ∧ Option.isSome deadline = true then .promised else .quiet
  | .claimSettle id _ _, granted, _, j => if id = j then cond granted .settled .quiet else .quiet
  | _, _, _, _ => .quiet

/-- The observer of every job, who takes note of what `note` says. -/
def tenancy (note : (c : Req) → Resp c → Store → String → Note) :
    Observer Call Int Req Resp Server (String → Watch) where
  call c r w w' g j :=
    (g j).see (c.epochs j) (note c r w.store j) (leaseOf w.store j) (leaseOf w'.store j)
  drift _ w w' g j := (g j).see [] .quiet (leaseOf w.store j) (leaseOf w'.store j)

/-! ## A job without a marker -/

/-- Writes land where they were aimed; nothing retires a job whose marker
stands, and no claim expires under one. -/
abbrev settledFirst : Terms Call Int Req Server where
  arrive _ _ := True
  call w c := Apt w.store c ∧ ∀ j ∈ c.retires, w.store.markers.find j = none
  drift w now := ∀ claim ∈ w.store.claims.rows, claim.expiresAt < now →
    (w.store.markers.find claim.jobId).all (fun m => m.expiresAt < now) = true

theorem marker_isSome {s : Store} {j : String} :
    (leaseOf s j).marker.isSome = true ↔ (s.markers.find j).isSome = true := by
  rw [show (leaseOf s j).marker = (s.markers.find j).map MarkerKey.deadline from rfl,
    isSome_map]

theorem Kept.claimed (h : w.Kept (leaseOf s j))
    (hmarker : (s.markers.find j).isSome = true) : ∃ claim, s.claims.find j = some claim := by
  have hclaim : ((s.claims.find j).map ClaimKey.epoch).isSome = true :=
    (h (marker_isSome.mpr hmarker)).1
  rw [isSome_map] at hclaim
  exact isSome_iff_exists.mp hclaim

theorem perform_kept (hc : c.tame)
    (hapt : Apt s c) (hfirst : ∀ j ∈ c.retires, s.markers.find j = none)
    (h : w.Kept (leaseOf s j)) :
    (w.see (c.epochs j) (c.wrote (perform c s).1 s j) (leaseOf s j)
      (leaseOf (perform c s).2 j)).Kept (leaseOf (perform c s).2 j) := by
  refine h.see ?_ ?_
  · intro hnote hmarker
    have hmarker := marker_isSome.mp hmarker
    -- A marker that was there keeps its job from being retired.
    have hsame : (perform c s).2.claims.find j = s.claims.find j →
        (s.markers.find j).isSome = true →
        (leaseOf s j).marker.isSome = true ∧
          (leaseOf (perform c s).2 j).claim = (leaseOf s j).claim ∧
          ¬ (leaseOf s j).Ends (leaseOf (perform c s).2 j) := by
      intro hclaim hbefore
      refine ⟨?_, congrArg (Option.map ClaimKey.epoch) hclaim,
        (perform_stage hc hapt j).not_ends ?_⟩
      · exact marker_isSome.mpr hbefore
      · intro hret
        rw [hfirst j hret] at hbefore
        cases hbefore
    have hhold := perform_hold (s := s) hc j
    generalize hafter : (perform c s).2.claims.find j = after at hhold
    generalize (perform c s).2.markers.find j = marker at hhold hmarker
    cases hhold with
    | keeps => exact hsame hafter hmarker
    | retires hret | reclaims hret =>
      rw [hfirst j hret] at hmarker
      cases hmarker
    | claims _ hfree =>
      obtain ⟨claim, hclaim⟩ := Kept.claimed h hmarker
      cases hfree.symm.trans hclaim
    | holds hpasses =>
      obtain ⟨claim, hclaim⟩ := Kept.claimed h hmarker
      refine hsame (hafter.trans ?_) hmarker
      rw [heldClaim, hclaim]
      rfl
    | awaits hreq hfence =>
      subst hreq
      exact absurd (if_pos ⟨rfl, hfence⟩) hnote
    | settles => cases hmarker
  · intro hnote
    cases c with
    | awaitSettle id owner attempt epoch deadlineMs scope now =>
      have hnote : (if id = j ∧ (fence s id owner attempt epoch scope true now).isSome = true
          then Note.promised else .quiet) = .promised := hnote
      split at hnote
      · next hhit =>
        obtain ⟨rfl, hfence⟩ := hhit
        rcases awaitSettle_card (s := s) id owner attempt epoch deadlineMs scope now with
          ⟨hnone, -⟩ | ⟨-, -, -, hcard⟩
        · rw [hnone] at hfence
          cases hfence
        · have hcard := hcard id
          rw [if_pos rfl] at hcard
          have hclaim : (perform (.awaitSettle id owner attempt epoch deadlineMs scope now)
              s).2.claims.find id = some (heldClaim s id owner now epoch) :=
            (congrArg Card.claim hcard).trans (asserted_claim s s.clock rfl _ _ _ _)
          show ((_ : Option ClaimKey).map ClaimKey.epoch).isSome = true
          rw [hclaim]
          rfl
      · cases hnote
    | claimSettle id claimant scope =>
      have hnote : (if id = j then cond (perform (.claimSettle id claimant scope) s).1
          Note.settled .quiet else .quiet) = .promised := hnote
      split at hnote
      · cases hgranted : (perform (.claimSettle id claimant scope) s).1 <;>
          rw [hgranted] at hnote <;> cases hnote
      · cases hnote
    | _ => cases hnote

theorem tick_kept (hterms : ∀ claim ∈ s.claims.rows, claim.expiresAt < now →
      (s.markers.find claim.jobId).all (fun m => m.expiresAt < now) = true)
    (h : w.Kept (leaseOf s j)) :
    (w.see [] .quiet (leaseOf s j) (leaseOf (s.tick now) j)).Kept (leaseOf (s.tick now) j) := by
  refine h.see ?_ fun hnote => (by cases hnote)
  intro _ hmarker
  have hfind : (s.tick now).markers.find j =
      (s.markers.find j).filter (fun m => !decide (m.expiresAt < now)) :=
    find_delete s.markers _ j
  have hclaims : (s.tick now).claims.find j =
      (s.claims.find j).filter (fun c => !decide (c.expiresAt < now)) :=
    find_delete s.claims _ j
  have hmarker := marker_isSome.mp hmarker
  rw [hfind] at hmarker
  obtain ⟨marker, hmark⟩ := isSome_iff_exists.mp hmarker
  obtain ⟨hbefore, halive⟩ := filter_eq_some_iff.mp hmark
  obtain ⟨claim, hclaim⟩ := Kept.claimed h (isSome_of_eq_some hbefore)
  refine ⟨?_, ?_, ?_⟩
  · exact marker_isSome.mpr (isSome_of_eq_some hbefore)
  · refine congrArg (Option.map ClaimKey.epoch) ?_
    rw [hclaims, hclaim, filter_some]
    have hstays : ¬ claim.expiresAt < now := by
      intro hexp
      have hall := hterms claim (find_eq_some.mp hclaim).1 hexp
      rw [key_of_find hclaim, hbefore] at hall
      simp only [all_some] at hall
      rw [hall] at halive
      cases halive
    simp [hstays]
  · rintro ⟨-, hne, -⟩
    exact hne rfl

theorem upholds_kept (serde : Serde) :
    Upholds ((machine serde).watched (tenancy Req.wrote)) settledFirst.watched
      (fun w => ∀ j, (w.2 j).Kept (leaseOf w.1.store j)) (fun _ c => c.tame) where
  arrive := by
    intro w call prog w' hI _ harr
    obtain ⟨server, g'⟩ := w'
    obtain ⟨hadmits, rfl⟩ := Service.watched_arrive harr
    obtain ⟨rfl, rfl⟩ := Server.admit_ok hadmits
    exact ⟨hI, prog_tame serde call, fun _ h => h⟩
  call := by
    intro w c hI hc hterms
    exact ⟨fun j => perform_kept hc hterms.1 hterms.2 (hI j), fun _ h => h⟩
  drift := by
    intro w now hI hterms
    exact ⟨fun j => tick_kept hterms (hI j), fun _ h => h⟩

def untouched : Pool Req Resp Reply (Server × (String → Watch)) :=
  ⟨(.start, fun _ => .start), []⟩

theorem kept_of_reaches
    (h : Reaches (Pool.next ((machine serde).watched (tenancy Req.wrote))) settledFirst.watched.Met
      untouched p) (j : String) : (p.world.2 j).Kept (leaseOf p.world.1.store j) := by
  have hstart : ∀ j, Watch.start.Kept (leaseOf Server.start.store j) :=
    fun j hmarker => (by cases hmarker)
  exact ((upholds_kept serde).sound (Pool.sound_start rfl hstart) h).world j

/-! ## A promise and its settlement -/

/-- The deadlines on record print digit for digit. -/
def Plain (s : Store) : Prop := ∀ j, ∀ m ∈ s.markers.find j, m.deadline.natAbs < luaPlain

theorem settleDeadline_plain {marker : Option MarkerKey}
    (hmarker : ∀ m ∈ marker, m.deadline.natAbs < luaPlain) (hd : d.natAbs < luaPlain) :
    settleDeadline marker d = (marker.map MarkerKey.deadline).elim d (max · d) ∧
      (settleDeadline marker d).natAbs < luaPlain := by
  unfold settleDeadline
  cases marker with
  | none =>
    rw [map_none, elim_none, asF64_plain hd, luaToString_plain hd]
    exact ⟨rfl, hd⟩
  | some m =>
    have hm : m.deadline.natAbs < luaPlain := hmarker m rfl
    have hmax : (max m.deadline d).natAbs < luaPlain := by
      rcases max_choice m.deadline d with h | h
      · rw [h]
        exact hm
      · rw [h]
        exact hd
    rw [map_some, elim_some, asF64_plain hm, asF64_plain hd,
      luaToString_plain hmax]
    exact ⟨rfl, hmax⟩

/-- An `await_settle` proposes a deadline that prints digit for digit. -/
def Req.plain : Req → Prop
  | .awaitSettle _ _ _ _ deadlineMs _ _ => deadlineMs.natAbs < luaPlain
  | _ => True

instance (c : Req) : Decidable c.plain := by
  unfold Req.plain
  cases c <;> infer_instance

theorem perform_plain (hc : c.tame) (hplain : c.plain) (h : Plain s) : Plain (perform c s).2 := by
  intro j m hm
  have hhold := perform_hold (s := s) hc j
  rw [show (perform c s).2.markers.find j = some m from hm] at hhold
  generalize (perform c s).2.claims.find j = after at hhold
  generalize hmarker : (some m : Option MarkerKey) = marker at hhold
  cases hhold with
  | awaits hreq =>
    cases hmarker
    subst hreq
    exact (settleDeadline_plain (h j) hplain).2
  | settles => cases hmarker
  | _ => exact h j m hmarker.symm

/-- Nobody but a promise that is answered puts a marker on, and whoever is
granted a settle takes it off. -/
theorem perform_single (hc : c.tame)
    (hplain : c.plain) (hs : Plain s) (h : w.Single (leaseOf s j)) :
    (w.see (c.epochs j) (c.answered (perform c s).1 s j) (leaseOf s j)
      (leaseOf (perform c s).2 j)).Single (leaseOf (perform c s).2 j) := by
  refine h.see ?_ ?_
  · intro hnote hmarker
    have hmarker := marker_isSome.mp hmarker
    refine marker_isSome.mpr ?_
    have hhold := perform_hold (s := s) hc j
    generalize (perform c s).2.claims.find j = after at hhold
    generalize (perform c s).2.markers.find j = marker at hhold hmarker
    cases hhold with
    | @awaits owner attempt deadlineMs now epoch scope hreq hfence =>
      -- The answer is a number, so this promise was heard.
      subst hreq
      rcases awaitSettle_card (s := s) j owner attempt epoch deadlineMs scope now with
        ⟨hnone, -⟩ | ⟨-, -, hanswer, -⟩
      · rw [hnone] at hfence
        cases hfence
      · have hheard : Option.isSome (perform (.awaitSettle j owner attempt epoch deadlineMs scope
            now) s).1 = true := by
          have hdl := (settleDeadline_plain (d := deadlineMs) (hs j) hplain).2
          refine (congrArg Option.isSome hanswer).trans ?_
          rw [show (cardOf s j).marker = s.markers.find j from rfl, parseI64, if_pos hdl]
          rfl
        have hpromised : Req.answered (.awaitSettle j owner attempt epoch deadlineMs scope now)
            (perform (.awaitSettle j owner attempt epoch deadlineMs scope now) s).1 s j =
              .promised := if_pos ⟨rfl, hheard⟩
        rw [hpromised] at hnote
        cases hnote
    | settles => cases hmarker
    | _ => exact hmarker
  · intro hnote
    cases c with
    | claimSettle id claimant scope =>
      have htold : (if id = j then cond (perform (.claimSettle id claimant scope) s).1
          Note.settled .quiet else .quiet) = .settled := hnote
      split at htold
      · next hj =>
        subst hj
        rcases claimSettle_card (s := s) id claimant scope with h | ⟨marker, hmarker, -, -, hcard⟩
        · rw [show (perform (.claimSettle id claimant scope) s).1 = false from
            congrArg Prod.fst h] at htold
          cases htold
        · have hcard := hcard id
          rw [if_pos rfl] at hcard
          have hgone : (perform (.claimSettle id claimant scope) s).2.markers.find id = none :=
            congrArg Card.marker hcard
          refine ⟨?_, congrArg (Option.map MarkerKey.deadline) hgone⟩
          exact marker_isSome.mpr (isSome_of_eq_some hmarker)
      · cases htold
    | awaitSettle id owner attempt epoch deadlineMs scope now =>
      have htold : (if id = j ∧ Option.isSome (perform (.awaitSettle id owner attempt epoch
          deadlineMs scope now) s).1 = true then Note.promised else .quiet) = .settled := hnote
      split at htold <;> cases htold
    | _ => cases hnote

theorem perform_deadline (hc : c.tame) (hplain : c.plain)
    (hs : Plain s) {d' : Int} (hd : (leaseOf s j).marker = some d)
    (hd' : (leaseOf (perform c s).2 j).marker = some d') : d ≤ d' := by
  have hafter : ((perform c s).2.markers.find j).map MarkerKey.deadline = some d' := hd'
  have hbefore : (s.markers.find j).map MarkerKey.deadline = some d := hd
  have hhold := perform_hold (s := s) hc j
  generalize (perform c s).2.claims.find j = after at hhold
  generalize (perform c s).2.markers.find j = marker at hhold hafter
  cases hhold with
  | awaits hreq =>
    subst hreq
    cases hafter
    rw [(settleDeadline_plain (hs j) hplain).1, hbefore]
    exact le_max_left d _
  | settles => cases hafter
  | _ => exact (Option.some.inj (hbefore.symm.trans hafter)).le

theorem granted_rightful {claimant : SettleClaimant}
    {scope : Scope} (hs : Plain s) (h : (claimSettle s j claimant scope).1 = true) :
    claimant.Rightful (leaseOf s j) := by
  rcases claimSettle_card (s := s) j claimant scope with hrefused | ⟨marker, hmarker, hent, -, -⟩
  · rw [hrefused] at h
    cases h
  have hmarker : s.markers.find j = some marker := hmarker
  refine ⟨marker.deadline, congrArg (Option.map MarkerKey.deadline) hmarker, ?_⟩
  cases claimant with
  | lease epoch =>
    obtain ⟨claim, hclaim, hepoch⟩ := (any_eq_true _ _).mp hent
    have hepoch : claimEpoch claim.value = some (decimal epoch) := of_decide_eq_true hepoch
    -- Lua's pattern finds digits only, so the epoch has no sign.
    have hpos : 0 ≤ epoch := by
      by_contra hneg
      have hminus : '-' ∈ decimal epoch := by
        rw [decimal, if_pos (by omega)]
        exact List.mem_cons_self
      exact absurd (isDigit_of_trailingRun hepoch '-' hminus) (by decide)
    show (s.claims.find j).map ClaimKey.epoch = some (some epoch)
    rw [hclaim, map_some, ClaimKey.epoch, hepoch, map_some, ofDecimal_decimal hpos]
  | expired now =>
    have hle : asF64 marker.deadline ≤ asF64 now := of_decide_eq_true hent
    rw [asF64_plain (hs j marker hmarker)] at hle
    exact le_of_le_asF64 (hs j marker hmarker) hle
  | abandoned => trivial

abbrev heard : Terms Call Int Req Server where
  arrive _ _ := True
  call _ c := c.plain
  drift _ _ := True

/-- Deadlines are plain, and every promise is single. -/
structure Orderly (w : Server × (String → Watch)) : Prop where
  plain : Plain w.1.store
  single : ∀ j, (w.2 j).Single (leaseOf w.1.store j)

theorem mem_tick {m : MarkerKey} (h : m ∈ (s.tick now).markers.find j) : m ∈ s.markers.find j := by
  have hfind : (s.tick now).markers.find j =
      (s.markers.find j).filter (fun m => !decide (m.expiresAt < now)) :=
    find_delete s.markers _ j
  rw [hfind] at h
  exact (filter_eq_some_iff.mp h).1

theorem upholds_orderly (serde : Serde) :
    Upholds ((machine serde).watched (tenancy Req.answered)) heard.watched Orderly
      (fun _ c => c.tame) where
  arrive := by
    intro w call prog w' hI _ harr
    obtain ⟨server, g'⟩ := w'
    obtain ⟨hadmits, rfl⟩ := Service.watched_arrive harr
    obtain ⟨rfl, rfl⟩ := Server.admit_ok hadmits
    exact ⟨⟨hI.plain, hI.single⟩, prog_tame serde call, fun _ h => h⟩
  call := by
    intro w c hI hc hplain
    exact ⟨⟨perform_plain hc hplain hI.plain,
      fun j => perform_single hc hplain hI.plain (hI.single j)⟩,
      fun _ h => h⟩
  drift := by
    intro w now hI _
    refine ⟨⟨fun j m hm => hI.plain j m (mem_tick hm), fun j => ?_⟩, fun _ h => h⟩
    refine (hI.single j).see ?_ fun hnote => (by cases hnote)
    intro _ hmarker
    obtain ⟨m, hm⟩ := isSome_iff_exists.mp (marker_isSome.mp hmarker)
    exact marker_isSome.mpr (isSome_of_eq_some (mem_tick hm))

theorem orderly_start : Orderly (Server.start, fun _ => .start) :=
  ⟨fun j m hm => (by cases hm), fun j => ⟨Nat.zero_le 1, fun hmarker => (by cases hmarker)⟩⟩

theorem sound_of_reaches
    (h : Reaches (Pool.next ((machine serde).watched (tenancy Req.answered))) heard.watched.Met
      untouched p) : p.Sound Orderly (fun _ c => c.tame) :=
  (upholds_orderly serde).sound (Pool.sound_start rfl orderly_start) h

theorem deadline_next {p' : Pool Req Resp Reply (Server × (String → Watch))}
    {turn : Turn Call Int} (hp : p.Sound Orderly (fun _ c => c.tame))
    (hmet : heard.watched.Met p turn)
    (hnext : p.next ((machine serde).watched (tenancy Req.answered)) turn = some p')
    {d' : Int} (hd : (leaseOf p.world.1.store j).marker = some d)
    (hd' : (leaseOf p'.world.1.store j).marker = some d') : d ≤ d' := by
  cases turn with
  | arrive call =>
    obtain ⟨⟨prog, server, g'⟩, harr, rfl⟩ := map_eq_some_iff.mp hnext
    obtain ⟨-, rfl⟩ := Server.admit_ok (Service.watched_arrive harr).1
    exact (Option.some.inj (hd.symm.trans hd')).le
  | step i =>
    obtain ⟨c, k, hi, hhead, rfl⟩ := Pool.next_step hnext
    have htame : c.tame := (hp.clients _ (List.mem_of_getElem? hi)).1
    have hplain : c.plain := hmet c hhead
    exact perform_deadline htame hplain hp.world.plain hd hd'
  | drift now =>
    cases hnext
    obtain ⟨m, hm, rfl⟩ := map_eq_some_iff.mp hd'
    have hbefore := congrArg (Option.map MarkerKey.deadline) (mem_tick hm)
    exact (Option.some.inj (hd.symm.trans hbefore)).le

end FlexiQ.Redis
