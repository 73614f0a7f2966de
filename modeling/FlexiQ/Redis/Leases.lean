/-
# `Redis.Leases` — who holds a job, request by request

The claim of a job is one key and the marker of a promised settle another,
each with an expiry of its own.  `perform_hold` says what a request can make
of the two, and `perform_stays` when it leaves a job in the stage it is in:
between them they are all that is needed to follow a lease through an
interleaving.

`retires` is the list to keep in mind: the requests that take a job's claim
away, hand it to another worker or send the job back.  None of them looks at
the marker.
-/
import FlexiQ.Redis.Issues
import FlexiQ.Redis.Touch
import FlexiQ.Sql.Leases

namespace FlexiQ.Redis

open List FlexiQ.Lib FlexiQ.Step FlexiQ.Sql Card

variable {s s' : Store} {c : Req} {j : String} {card : Card}

/-- The epoch of a claim, as the number Lua's pattern finds in its text. -/
def ClaimKey.epoch (claim : ClaimKey) : Option Int := (claimEpoch claim.value).map ofDecimal

def leaseOf (s : Store) (j : String) : Lease where
  stage := (s.jobs.find j).map stageOf
  claim := (s.claims.find j).map ClaimKey.epoch
  marker := (s.markers.find j).map MarkerKey.deadline

/-- The jobs whose claim a request takes away or hands over, or which it
sends back or archives. -/
def Req.retires : Req → List String
  | .cmd (.delClaim id) => [id]
  | .resurrect _ (.delClaim id) => [id]
  | .archive read .. => [read.id]
  | .deadLetter read .. => [read.id]
  | .shed jobs _ => jobs.map fun e => e.1.id
  | .requeue read .. => [read.id]
  | .requeueStuck read _ => [read.id]
  | .sleep step _ _ _ _ _ read .. => [step.jobId, read.id]
  | .reclaim jobId .. => [jobId]
  | _ => []

/-! ## Single commands -/

/-- What a command that is sent on its own does to a card, beside the
index. -/
structure Card.Tamely (card card' : Card) (j : String) (c : Cmd) : Prop where
  doc : card'.doc = card.doc ∨ ∃ job, c = .setJob job ∧ job.id = j ∧ card'.doc = some job
  claim : card'.claim = card.claim ∨ (c = .delClaim j ∧ card'.claim = none)
  marker : card'.marker = card.marker
  steps : card'.steps = card.steps

theorem exec_tamely {c : Cmd} (hc : c.tame = true) (j : String) :
    (cardOf s j).Tamely (cardOf (s.exec [c]) j) j c := by
  have hcard : cardOf (s.exec [c]) j = (cardOf s j).apply s.clock j c := exec_card j _ s
  rw [hcard]
  cases c with
  | setJob job =>
    rw [apply]
    split
    · next hj => exact ⟨Or.inr ⟨job, rfl, hj, rfl⟩, Or.inl rfl, rfl, rfl⟩
    · exact ⟨Or.inl rfl, Or.inl rfl, rfl, rfl⟩
  | delClaim id =>
    rw [apply]
    split
    · next hj => exact ⟨Or.inl rfl, Or.inr ⟨by rw [hj], rfl⟩, rfl, rfl⟩
    · exact ⟨Or.inl rfl, Or.inl rfl, rfl, rfl⟩
  | sadd key m | srem key m | delSet key | zadd key m score | zrem key m =>
    rw [apply]
    cases key <;> simp only [sadd, srem, delSet, zadd, zrem] <;>
      repeat' split
    all_goals exact ⟨Or.inl rfl, Or.inl rfl, rfl, rfl⟩
  | delArchived id =>
    rw [apply]
    split <;> exact ⟨Or.inl rfl, Or.inl rfl, rfl, rfl⟩
  | setDead entry | delDead id | setUnique pointer | delUnique ns key =>
    exact ⟨Or.inl rfl, Or.inl rfl, rfl, rfl⟩
  | _ => cases hc

/-! ## Claim and marker -/

/-- The claim of a writer the fence let through. -/
def heldClaim (s : Store) (j owner : String) (now : Int) (epoch : Option Int) : ClaimKey :=
  (s.claims.find j).getD ⟨j, claimValue owner now epoch, s.clock + claimTtlMs⟩

theorem asserted_claim (s : Store) (clock : Int) (hclock : clock = s.clock) (j owner : String)
    (now : Int) (epoch : Option Int) :
    ((cardOf s j).asserted clock j owner now epoch).claim =
      some (heldClaim s j owner now epoch) := by
  subst hclock
  unfold asserted heldClaim
  cases hclaim : s.claims.find j with
  | none => rw [show (cardOf s j).claim = none from hclaim]; rfl
  | some claim =>
    rw [show (cardOf s j).claim = some claim from hclaim]
    exact hclaim

theorem asserted_rest (card : Card) (clock : Int) (j owner : String) (now : Int)
    (epoch : Option Int) :
    (card.asserted clock j owner now epoch).doc = card.doc ∧
      (card.asserted clock j owner now epoch).marker = card.marker := by
  unfold asserted
  split <;> exact ⟨rfl, rfl⟩

/-- What request `c` can make of the claim and of the marker of job `j`. -/
inductive Hold (s : Store) (c : Req) (j : String) : Option ClaimKey → Option MarkerKey → Prop
  | keeps : Hold s c j (s.claims.find j) (s.markers.find j)
  | retires (hc : j ∈ c.retires) : Hold s c j none (s.markers.find j)
  | claims {worker : String} {now epoch : Int} (hc : c = .claim j worker now epoch)
      (hfree : s.claims.find j = none) :
      Hold s c j (some ⟨j, claimValue worker now (some epoch), s.clock + claimTtlMs⟩)
        (s.markers.find j)
  | reclaims {claim : ClaimKey} (hc : j ∈ c.retires) : Hold s c j (some claim) (s.markers.find j)
  | holds {owner : String} {attempt now : Int} {epoch : Option Int}
      (hpasses : Passes (cardOf s j) owner attempt epoch) :
      Hold s c j (some (heldClaim s j owner now epoch)) (s.markers.find j)
  | awaits {owner : String} {attempt deadlineMs now : Int} {epoch scope : Option _}
      (hc : c = .awaitSettle j owner attempt epoch deadlineMs scope now)
      (hfence : (fence s j owner attempt epoch scope true now).isSome = true)
      (hpasses : Passes (cardOf s j) owner attempt epoch) :
      Hold s c j (some (heldClaim s j owner now epoch))
        (some ⟨j, settleDeadline (s.markers.find j) deadlineMs, s.clock + claimTtlMs⟩)
  | settles {claimant : SettleClaimant} {scope : Scope} {marker : MarkerKey}
      (hc : c = .claimSettle j claimant scope) (hmarker : s.markers.find j = some marker)
      (hentitled : settleEntitled s j marker claimant = true) :
      Hold s c j (s.claims.find j) none

/-! ## The document -/

def Apt (s : Store) (c : Req) : Prop :=
  Current s c ∧ ∀ job ∈ c.inserts, s.jobs.find job.id = none
  deriving Decidable

/-- What request `c` can make of the document of job `j`. -/
inductive Stage (s : Store) (c : Req) (j : String) : Option Job → Prop
  | keeps : Stage s c j (s.jobs.find j)
  | inserts {job : Job} (hc : c.inserts = some job) (hr : c.inserted (perform c s).1 = true)
      (hid : job.id = j) (hfree : s.jobs.find j = none) : Stage s c j (some job)
  | rewrites {read job : Job} (hdoc : s.jobs.find j = some read)
      (hstage : stageOf job = stageOf read) (hns : job.namespace = read.namespace) :
      Stage s c j (some job)
  | starts {read : Job} {now : Int} (hdoc : s.jobs.find j = some read) :
      Stage s c j (some (read.startedBy now))
  | archives (hc : j ∈ c.retires) : Stage s c j none
  | returns {read job : Job} (hc : j ∈ c.retires) (hdoc : s.jobs.find j = some read)
      (hpending : job.status = .pending) (hns : job.namespace = read.namespace) :
      Stage s c j (some job)

/-! ## A request and a card -/

theorem fence_rest {s₁ : Store} {jobId owner : String} {attempt now : Int}
    {epoch scope : Option _} {jobNs : String}
    (hfence : fence s jobId owner attempt epoch scope true now = some (jobNs, s₁)) (j : String) :
    (cardOf s₁ j).doc = (cardOf s j).doc ∧ (cardOf s₁ j).marker = (cardOf s j).marker := by
  obtain ⟨-, -, hcard⟩ := fence_card hfence
  rw [hcard j]
  split
  · exact asserted_rest _ _ _ _ _ _
  · exact ⟨rfl, rfl⟩

theorem asserted_steps (card : Card) (clock : Int) (j owner : String) (now : Int)
    (epoch : Option Int) : (card.asserted clock j owner now epoch).steps = card.steps := by
  unfold asserted
  split <;> rfl

def Req.stepClock : Req → Option Int
  | .recordStep _ _ _ _ _ _ now => some now
  | .sleep _ _ _ _ _ _ _ _ _ now => some now
  | _ => none

/-- The step hash is as it was, unless the request is one that writes steps. -/
def Undisturbed (s : Store) (c : Req) (j : String) (steps : Option StepHash) : Prop :=
  steps = s.steps.find j ∨ c.stepClock.isSome = true

/-- What request `c` can make of job `j`.  The document a write was computed
from is the one it replaces only if it was current. -/
inductive Dealt (s : Store) (c : Req) (j : String) :
    Option Job → Option ClaimKey → Option MarkerKey → Option StepHash → Prop
  | keeps {steps : Option StepHash} (hsteps : Undisturbed s c j steps) :
      Dealt s c j (s.jobs.find j) (s.claims.find j) (s.markers.find j) steps
  | inserts {job : Job} (hc : c.inserts = some job) (hr : c.inserted (perform c s).1 = true)
      (hid : job.id = j) :
      Dealt s c j (some job) (s.claims.find j) (s.markers.find j) (s.steps.find j)
  | rewrites {read job : Job} (hdoc : Current s c → s.jobs.find j = some read)
      (hstage : stageOf job = stageOf read) (hns : job.namespace = read.namespace) :
      Dealt s c j (some job) (s.claims.find j) (s.markers.find j) (s.steps.find j)
  | starts {read : Job} {now : Int} (hdoc : Current s c → s.jobs.find j = some read) :
      Dealt s c j (some (read.startedBy now)) (s.claims.find j) (s.markers.find j) (s.steps.find j)
  | drops (hc : j ∈ c.retires) :
      Dealt s c j (s.jobs.find j) none (s.markers.find j) (s.steps.find j)
  | shelves (hc : j ∈ c.retires) : Dealt s c j none none (s.markers.find j) none
  | returns {read job : Job} {claim : Option ClaimKey} {steps : Option StepHash}
      (hc : j ∈ c.retires) (hdoc : Current s c → s.jobs.find j = some read)
      (hpending : job.status = .pending) (hns : job.namespace = read.namespace)
      (hclaim : claim = none ∨ claim = s.claims.find j) (hsteps : Undisturbed s c j steps) :
      Dealt s c j (some job) claim (s.markers.find j) steps
  | claims {worker : String} {now epoch : Int} (hc : c = .claim j worker now epoch)
      (hfree : s.claims.find j = none) :
      Dealt s c j (s.jobs.find j)
        (some ⟨j, claimValue worker now (some epoch), s.clock + claimTtlMs⟩)
        (s.markers.find j) (s.steps.find j)
  | reclaims {claim : ClaimKey} (hc : j ∈ c.retires) :
      Dealt s c j (s.jobs.find j) (some claim) (s.markers.find j) (s.steps.find j)
  | holds {owner : String} {attempt now : Int} {epoch : Option Int} {steps : Option StepHash}
      (hpasses : Passes (cardOf s j) owner attempt epoch) (hsteps : Undisturbed s c j steps) :
      Dealt s c j (s.jobs.find j) (some (heldClaim s j owner now epoch)) (s.markers.find j) steps
  | awaits {owner : String} {attempt deadlineMs now : Int} {epoch scope : Option _}
      (hc : c = .awaitSettle j owner attempt epoch deadlineMs scope now)
      (hfence : (fence s j owner attempt epoch scope true now).isSome = true)
      (hpasses : Passes (cardOf s j) owner attempt epoch) :
      Dealt s c j (s.jobs.find j) (some (heldClaim s j owner now epoch))
        (some ⟨j, settleDeadline (s.markers.find j) deadlineMs, s.clock + claimTtlMs⟩)
        (s.steps.find j)
  | settles {claimant : SettleClaimant} {scope : Scope} {marker : MarkerKey}
      (hc : c = .claimSettle j claimant scope) (hmarker : s.markers.find j = some marker)
      (hentitled : settleEntitled s j marker claimant = true) :
      Dealt s c j (s.jobs.find j) (s.claims.find j) none (s.steps.find j)

def Deals (s : Store) (c : Req) (j : String) (card : Card) : Prop :=
  Dealt s c j card.doc card.claim card.marker card.steps

theorem Deals.same : Deals s c j (cardOf s j) := .keeps (Or.inl rfl)

theorem Deals.of_card (h : cardOf s' j = card) (hcard : Deals s c j card) :
    Deals s c j (cardOf s' j) := by
  rw [h]
  exact hcard

theorem Deals.of_run {r : Resp c × Store} (h : perform c s = r) (hr : Deals s c j (cardOf r.2 j)) :
    Deals s c j (cardOf (perform c s).2 j) := by
  rw [h]
  exact hr

theorem Current.found {b : Basis} (hcur : Current s c) (hb : c.basis = some b) (hj : b.id = j) :
    s.jobs.find j = some b.read := by
  rw [← hj]
  exact (hcur b hb).1

theorem Deals.of_tame {c : Cmd} {r : Req} (j : String) (hc : c.tame = true)
    (hretires : ∀ id, c = .delClaim id → r.retires = [id])
    (hinserts : ∀ job, c = .setJob job →
      r.inserts = some job ∧ r.inserted (perform r s).1 = true) :
    Deals s r j (cardOf (s.exec [c]) j) := by
  obtain ⟨hdoc, hclaim, hmarker, hsteps⟩ := exec_tamely hc j (s := s)
  unfold Deals
  rw [hmarker, hsteps]
  rcases hdoc with hdoc | ⟨job, rfl, hj, hdoc⟩
  · rw [hdoc]
    rcases hclaim with hclaim | ⟨hdel, hclaim⟩
    · rw [hclaim]
      exact Deals.same
    · rw [hclaim]
      refine .drops ?_
      rw [hretires j hdel]
      exact mem_singleton_self j
  · rcases hclaim with hclaim | ⟨hdel, -⟩
    · rw [hdoc, hclaim]
      exact .inserts (hinserts job rfl).1 (hinserts job rfl).2 hj
    · cases hdel

theorem Deals.of_fence {s₁ : Store} {jobId owner : String} {attempt now : Int}
    {epoch scope : Option _} {jobNs : String}
    (hfence : fence s jobId owner attempt epoch scope true now = some (jobNs, s₁))
    (hc : c.stepClock.isSome = true) (hdoc : card.doc = (cardOf s₁ j).doc)
    (hclaim : card.claim = (cardOf s₁ j).claim) (hmarker : card.marker = (cardOf s₁ j).marker) :
    Deals s c j card := by
  unfold Deals
  obtain ⟨hpasses, -, hcard⟩ := fence_card hfence
  rw [hdoc, hclaim, hmarker, (fence_rest hfence j).1, (fence_rest hfence j).2]
  have hcard := hcard j
  split at hcard
  · next hj =>
    subst hj
    rw [hcard, asserted_claim s s.clock rfl]
    exact .holds hpasses (Or.inr hc)
  · rw [hcard]
    exact .keeps (Or.inr hc)

/-- **What a request does to a card.** -/
theorem perform_dealt (hc : c.tame) (j : String) : Deals s c j (cardOf (perform c s).2 j) := by
  cases c with
  | cmd | resurrect =>
    refine .of_tame j hc ?_ ?_ <;> rintro _ rfl
    · rfl
    · exact ⟨rfl, rfl⟩
  | uniqueCheck ns key => exact .of_card (uniqueCheck_card ns key) .same
  | debounceResolve ns key => exact .of_card (resolveDebounceTarget_card ns key) .same
  | releaseUnique job => exact .of_card (releaseUnique_card job) .same
  | uniqueStore job dependsOn key =>
    rcases uniqueStore_card (s := s) (j := j) job dependsOn key with h | ⟨hid, hnew, h⟩
    · exact .of_card h .same
    · exact .of_card h (.inserts rfl (congrArg Option.isNone hnew) hid)
  | debounceInsert key job dependsOn maxPending =>
    rcases debounceInsert_card (s := s) (j := j) key job dependsOn maxPending with
      h | ⟨hid, hnew, h⟩
    · exact .of_card h .same
    · exact .of_card h (.inserts rfl (congrArg DebounceReply.isOpened hnew) hid)
  | debounceSlide target slid =>
    obtain ⟨job, options, rfl⟩ := hc
    rcases debounceSlide_card (s := s) (j := j) target (target.slid job options) rfl with
      h | ⟨-, hold, -, h⟩
    · exact .of_card h .same
    · exact .of_card h (.rewrites (fun _ => hold) rfl rfl)
  | selectAndClaim queue now ns max =>
    have hscan := selectAndClaim_card (s := s) (j := j) queue now ns max
    generalize cardOf (perform (.selectAndClaim queue now ns max) s).2 j = card at hscan ⊢
    cases hscan with
    | same => exact .same
    | pruned => exact .same
    | started hdoc => exact .starts fun _ => hdoc
  | claimPending queue read now =>
    refine .of_card (claimPending_card queue read now) ?_
    split
    · next hhit => exact .starts fun hcur => hcur.found rfl hhit.1
    · exact .same
  | setIfLive read progress =>
    refine .of_card (setIfLive_card read progress) ?_
    split
    · next hhit => exact .rewrites (fun hcur => hcur.found rfl hhit.1) rfl rfl
    · exact .same
  | requestCancel read =>
    refine .of_card (requestCancel_card read) ?_
    split
    · next hhit => exact .rewrites (fun hcur => hcur.found rfl hhit.1) rfl rfl
    · exact .same
  | archive read ending now listed =>
    refine .of_card (archive_card read ending now listed) ?_
    split
    · next hj => exact .shelves (hj ▸ mem_singleton_self read.id)
    · exact .same
  | deadLetter read entry error now =>
    refine .of_card (deadLetter_card read entry error now) ?_
    split
    · next hj => exact .shelves (hj.1 ▸ mem_singleton_self read.id)
    · exact .same
  | shed jobs now =>
    rcases shed_card (j := j) now jobs s with h | ⟨hmem, card, job, hmarker, -, -, -, h⟩
    · exact .of_card h .same
    · refine .of_card h ?_
      show Dealt s _ j none none card.marker none
      rw [hmarker]
      exact .shelves hmem
  | requeue read nextAt bump =>
    refine .of_card (requeue_card read nextAt bump) ?_
    split
    · next hj =>
      have hmem : j ∈ [read.id] := hj ▸ mem_singleton_self read.id
      cases bump with
      | true =>
        exact .returns hmem (fun hcur => hcur.found rfl hj) rfl rfl (Or.inl rfl) (Or.inl rfl)
      | false =>
        exact .returns hmem (fun hcur => hcur.found rfl hj) rfl rfl (Or.inr rfl) (Or.inl rfl)
    · exact .same
  | requeueStuck read now =>
    refine .of_card (requeueStuck_card read now) ?_
    split
    · next hj =>
      exact .returns (hj.1 ▸ mem_singleton_self read.id) (fun hcur => hcur.found rfl hj.1)
        rfl rfl (Or.inl rfl) (Or.inl rfl)
    · exact .same
  | recordStep step owner attempt epoch limits scope now =>
    rcases recordStepScript_spec (s := s) step owner attempt epoch limits scope now with
      h | ⟨jobNs, s₁, hfence, h⟩
    · exact .of_run h .same
    · refine .of_run h ?_
      rcases recordStep_spec (s := s₁) step jobNs limits now with ⟨h, -⟩ | ⟨hash, -, -, h⟩
      · rw [h]
        exact .of_fence hfence rfl rfl rfl rfl
      · rw [h]
        refine .of_card (setSteps_card _) (.of_fence hfence rfl ?_ ?_ ?_) <;> split <;> rfl
  | sleep step owner attempt epoch limits scope read stored deadline now =>
    rcases sleepScript_spec (s := s) step owner attempt epoch limits scope read stored deadline
      now with h | ⟨jobNs, s₁, hfence, ⟨reply, -, h⟩ | ⟨hash, hrow, h⟩⟩
    · exact .of_run h .same
    · exact .of_run h (.of_fence hfence rfl rfl rfl rfl)
    · refine .of_run h (.of_card (exec_card j _ s₁) ?_)
      rw [run_cons, suspendOps_card]
      have hkept : ((cardOf s₁ j).apply s₁.clock j (.setSteps (hash.refreshed now))).marker =
          (cardOf s₁ j).marker := by
        rw [apply]
        split <;> rfl
      split
      · next hj =>
        show Dealt s _ j _ _ ((cardOf s₁ j).apply s₁.clock j (.setSteps _)).marker _
        rw [hkept, (fence_rest hfence j).2]
        have hdoc : s.jobs.find step.jobId = some read → s.jobs.find j = some read := by
          intro hread
          rw [← hj, Table.key_of_find hread, hread]
        exact .returns (mem_cons_of_mem _ (hj ▸ mem_singleton_self _))
          (fun hcur => hdoc (hcur _ rfl).1) rfl rfl (Or.inl rfl) (Or.inr rfl)
      · refine .of_fence hfence rfl ?_ ?_ hkept <;> rw [apply] <;> split <;> rfl
  | claim jobId worker now epoch =>
    refine .of_card (setClaimNx_card jobId (claimValue worker now (some epoch))) ?_
    split
    · next hhit =>
      obtain ⟨rfl, hfree⟩ := hhit
      exact .claims rfl hfree
    · exact .same
  | reclaim jobId expected owner now epoch =>
    rcases reclaimExecution_card (s := s) (j := j) jobId expected owner now epoch with
      h | ⟨rfl, -, h⟩
    · exact .of_card h .same
    · exact .of_card h (.reclaims (mem_singleton_self jobId))
  | awaitSettle jobId owner attempt epoch deadlineMs scope now =>
    rcases awaitSettle_card (s := s) jobId owner attempt epoch deadlineMs scope now with
      ⟨-, h⟩ | ⟨hfence, hpasses, -, hcard⟩
    · exact .of_run h .same
    · refine .of_card (hcard j) ?_
      split
      · next hj =>
        subst hj
        show Dealt s _ jobId ((cardOf s jobId).asserted s.clock jobId owner now epoch).doc
          ((cardOf s jobId).asserted s.clock jobId owner now epoch).claim _
          ((cardOf s jobId).asserted s.clock jobId owner now epoch).steps
        rw [asserted_claim s s.clock rfl, (asserted_rest _ _ _ _ _ _).1, asserted_steps]
        exact .awaits rfl hfence hpasses
      · exact .same
  | claimSettle jobId claimant scope =>
    rcases claimSettle_card (s := s) jobId claimant scope with
      h | ⟨marker, hmarker, hentitled, -, hcard⟩
    · exact .of_run h .same
    · refine .of_card (hcard j) ?_
      split
      · next hj =>
        subst hj
        exact .settles rfl hmarker hentitled
      · exact .same
  | _ => exact .same

section Dealt

variable {doc : Option Job} {claim : Option ClaimKey} {marker : Option MarkerKey}
  {steps : Option StepHash}

theorem Dealt.hold (h : Dealt s c j doc claim marker steps) : Hold s c j claim marker := by
  cases h with
  | drops hc | shelves hc => exact .retires hc
  | returns hc _ _ _ hclaim =>
    rcases hclaim with rfl | rfl
    · exact .retires hc
    · exact .keeps
  | claims hc hfree => exact .claims hc hfree
  | reclaims hc => exact .reclaims hc
  | holds hpasses => exact .holds hpasses
  | awaits hc hfence hpasses => exact .awaits hc hfence hpasses
  | settles hc hmarker hentitled => exact .settles hc hmarker hentitled
  | _ => exact .keeps

theorem Dealt.stage (hapt : Apt s c) (h : Dealt s c j doc claim marker steps) :
    Stage s c j doc := by
  cases h with
  | inserts hc hr hid => exact .inserts hc hr hid (hid ▸ hapt.2 _ hc)
  | rewrites hdoc hstage hns => exact .rewrites (hdoc hapt.1) hstage hns
  | starts hdoc => exact .starts (hdoc hapt.1)
  | shelves hc => exact .archives hc
  | returns hc hdoc hpending hns => exact .returns hc (hdoc hapt.1) hpending hns
  | _ => exact .keeps

end Dealt

/-- **What a request does to a claim and a marker.** -/
theorem perform_hold (hc : c.tame) (j : String) :
    Hold s c j ((perform c s).2.claims.find j) ((perform c s).2.markers.find j) :=
  (perform_dealt hc j).hold

/-- **What a request does to a document**, if it lands where it was aimed. -/
theorem perform_stage (hc : c.tame) (hapt : Apt s c) (j : String) :
    Stage s c j ((perform c s).2.jobs.find j) :=
  (perform_dealt hc j).stage hapt

theorem Stage.not_ends (h : Stage s c j (s'.jobs.find j))
    (hc : j ∉ c.retires) : ¬ (leaseOf s j).Ends (leaseOf s' j) := by
  rintro ⟨hsome, hne, hidle⟩
  simp only [leaseOf] at hsome hne hidle
  generalize s'.jobs.find j = doc at h hne hidle
  cases h with
  | keeps => exact hne rfl
  | inserts _ _ _ hfree =>
    rw [hfree] at hsome
    cases hsome
  | rewrites hdoc hstage =>
    rw [hdoc] at hne
    exact hne (congrArg some hstage)
  | starts hdoc => cases hidle
  | archives hmem | returns hmem => exact hc hmem

end FlexiQ.Redis
