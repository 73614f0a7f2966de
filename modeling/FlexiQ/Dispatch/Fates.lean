/-
# `Dispatch.Fates` — where one dequeued job can end up

What a round owes a job it dequeued is one of four ends (`Fate`): sent under
this scheduler's claim and with a record of it, back to `Pending` with
neither, dead-lettered, or left under somebody else's claim.

This module follows ONE job from the dequeue on.  Which storage calls may fail
for that to hold is `Tolerable`: a call that fails where the poller only
returns the error leaves the job `Running` in nobody's hands.
-/
import FlexiQ.Dispatch.Ways
import FlexiQ.Sql.Calm
import Mathlib.Logic.Relation

namespace FlexiQ.Dispatch

open List FlexiQ.Lib FlexiQ.Lib.Prog FlexiQ.Sql FlexiQ.Resilience
open FlexiQ.Scheduler (InFlight DispatchRecord)

/-! ## Places and fates -/

/-- What the tables and the in-flight map have under one id. -/
structure Place where
  row : Option Job
  gone : Option Job
  claim : Option ClaimRow
  record : Option DispatchRecord

def World.place (w : World) (id : String) : Place :=
  ⟨w.store.jobs.find id, w.store.archived.find id, w.store.claims.find id, w.inFlight.live id⟩

inductive Fate
  | sent
  | pending
  | dead
  | foreign
  deriving DecidableEq, Repr

def Fate.Of (cfg : Settings) (w : World) (job : Job) : Fate → Prop
  | .sent => job ∈ w.sent ∧ (w.place job.id).record.isSome = true ∧
      (∃ row, (w.place job.id).row = some row ∧ row.status = .running) ∧
      ∃ claim, (w.place job.id).claim = some claim ∧ claim.workerId = cfg.claimOwner
  | .pending => (∃ row, (w.place job.id).row = some row ∧ row.status = .pending) ∧
      (w.place job.id).claim = none ∧ (w.place job.id).record = none
  | .dead => (w.place job.id).row = none ∧ (w.place job.id).claim = none ∧
      (∃ row, (w.place job.id).gone = some row ∧ row.status = .dead) ∧
      ∃ entry ∈ w.store.dead.rows, entry.originalJobId = job.id
  | .foreign => (w.place job.id).row.isSome = true ∧
      ∃ claim, (w.place job.id).claim = some claim ∧ claim.workerId ≠ cfg.claimOwner

/-- The only end a place allows: by who holds the claim, and whether there
is a row. -/
def Place.only (owner : String) (p : Place) : Fate :=
  match p.claim with
  | some claim => if claim.workerId = owner then .sent else .foreign
  | none => if p.row.isSome then .pending else .dead

theorem Fate.Of.eq_only {cfg : Settings} {w : World} {job : Job} {f : Fate}
    (h : f.Of cfg w job) : f = (w.place job.id).only cfg.claimOwner := by
  unfold Place.only
  cases f with
  | sent =>
    obtain ⟨-, -, -, claim, hclaim, howner⟩ := h
    rw [hclaim]
    exact (if_pos howner).symm
  | foreign =>
    obtain ⟨-, claim, hclaim, howner⟩ := h
    rw [hclaim]
    exact (if_neg howner).symm
  | pending =>
    obtain ⟨⟨row, hrow, -⟩, hclaim, -⟩ := h
    rw [hclaim, hrow]
    rfl
  | dead =>
    obtain ⟨hrow, hclaim, -⟩ := h
    rw [hclaim, hrow]
    rfl

theorem Fate.Of.unique {cfg : Settings} {w : World} {job : Job} {f f' : Fate}
    (h : f.Of cfg w job) (h' : f'.Of cfg w job) : f = f' :=
  h.eq_only.trans h'.eq_only.symm

structure Apart (others : String → Prop) (w w' : World) : Prop where
  place : ∀ id, others id → w'.place id = w.place id
  edges : w'.store.edges = w.store.edges
  separate : Separate w.store → Separate w'.store
  picked : w'.picked = w.picked
  sent : ∀ job ∈ w.sent, job ∈ w'.sent
  dead : ∀ entry ∈ w.store.dead.rows, entry ∈ w'.store.dead.rows

namespace Apart

variable {others others' : String → Prop} {w w' w'' : World}

theorem refl (others : String → Prop) (w : World) : Apart others w w :=
  ⟨fun _ _ => rfl, rfl, id, rfl, fun _ h => h, fun _ h => h⟩

theorem trans (h : Apart others w w') (h' : Apart others w' w'') : Apart others w w'' :=
  ⟨fun id hid => (h'.place id hid).trans (h.place id hid), h'.edges.trans h.edges,
    fun hs => h'.separate (h.separate hs), h'.picked.trans h.picked,
    fun job hj => h'.sent job (h.sent job hj), fun e he => h'.dead e (h.dead e he)⟩

theorem mono (h : Apart others w w') (hsub : ∀ id, others' id → others id) : Apart others' w w' :=
  ⟨fun id hid => h.place id (hsub id hid), h.edges, h.separate, h.picked, h.sent, h.dead⟩

end Apart

theorem Fate.Of.later {cfg : Settings} {others : String → Prop} {w w' : World} {job : Job}
    {f : Fate} (h : f.Of cfg w job) (hw : Apart others w w') (hjob : others job.id) :
    f.Of cfg w' job := by
  have hplace := hw.place job.id hjob
  cases f with
  | sent =>
    rw [Fate.Of, hplace]
    exact ⟨hw.sent job h.1, h.2⟩
  | pending | foreign =>
    rw [Fate.Of, hplace]
    exact h
  | dead =>
    obtain ⟨hrow, hclaim, hgone, entry, hentry, horig⟩ := h
    rw [Fate.Of, hplace]
    exact ⟨hrow, hclaim, hgone, entry, hw.dead entry hentry, horig⟩

/-! ## In hand -/

/-- The round has the job: running, of its namespace, with no record. -/
structure Taken (cfg : Settings) (w : World) (job : Job) : Prop where
  row : ∃ row, (w.place job.id).row = some row ∧ row.status = .running ∧
    row.namespace = cfg.namespace
  gone : (w.place job.id).gone = none
  record : (w.place job.id).record = none

/-- Nobody or somebody else holds its claim. -/
def Fresh (cfg : Settings) (w : World) (job : Job) : Prop :=
  Taken cfg w job ∧ ∀ claim, (w.place job.id).claim = some claim → claim.workerId ≠ cfg.claimOwner

def Mine (cfg : Settings) (w : World) (job : Job) : Prop :=
  Taken cfg w job ∧ ∃ claim, (w.place job.id).claim = some claim ∧ claim.workerId = cfg.claimOwner

section

variable {cfg : Settings} {w w' : World} {job : Job}

theorem Taken.of_place (h : Taken cfg w job)
    (hplace : w'.place job.id = w.place job.id) : Taken cfg w' job := by
  obtain ⟨hrow, hgone, hrecord⟩ := h
  exact ⟨by rw [hplace]; exact hrow, by rw [hplace]; exact hgone, by rw [hplace]; exact hrecord⟩

theorem Fresh.of_place (h : Fresh cfg w job)
    (hplace : w'.place job.id = w.place job.id) : Fresh cfg w' job :=
  ⟨h.1.of_place hplace, by rw [hplace]; exact h.2⟩

theorem Mine.of_place (h : Mine cfg w job)
    (hplace : w'.place job.id = w.place job.id) : Mine cfg w' job :=
  ⟨h.1.of_place hplace, by rw [hplace]; exact h.2⟩

end

/-! ## What may fail -/

/-- The storage calls whose failure the poller makes good. -/
def Query.MayFail (w : World) : Query → Prop
  | .dequeue .. => True
  | .dequeueBatch .. => w.picked = []
  | .claimExecution _ | .claimExecutionBatch _ => True
  | .quota _ | .countRunningByTask _ | .runningByQueue _ | .countByNamespace _ => True
  | _ => False

/-- What a call may meet: failures the poller makes good, and a dead-letter
id nobody has. -/
structure Tolerable (out : Outside) (c : Call) (w : World) : Prop where
  fault : ∀ q, c = .query q → out.fault ≠ none → q.MayFail w
  fresh : w.store.dead.find out.deadId = none

/-- The ways of a program through tolerable failures. -/
abbrev GoesOn (cfg : Settings) {α : Type} (p : Code α) (w : World) (a : α) (w' : World) : Prop :=
  p.Goes (perform cfg) Tolerable w a w'

variable {cfg : Settings} {w w' : World} {job : Job} {counts : GateCounts} {now : Int}
  {r : Result Unit} {s : Store} {f : Fate}

/-! ## The calls -/

theorem Tolerable.sure {q : Query} {out : Outside} (h : Tolerable out (.query q) w)
    (hsure : ¬ q.MayFail w) : out.fault = none := by
  by_contra hne
  exact hsure (h.fault q rfl hne)

/-- Calls that change nothing at all. -/
def Call.Looks : Call → Prop
  | .query q => match q with
      | .getCircuitBreaker _ | .quota _ | .countRunningByTask _ | .runningByQueue _
      | .countByNamespace _ => True
      | _ => False
  | .nowMillis | .desyncDelay _ | .activeQueues | .inFlightRemaining | .channelCapacity
  | .shouldDrop .. | .taskInFlight _ => True
  | _ => False

theorem perform_looks {out : Outside} {c : Call} (hc : c.Looks) (w : World) :
    (perform cfg out c w).2 = w := by
  cases c with
  | query q =>
    rcases perform_query out q w with hsame | hsame <;> rw [hsame]
    cases q <;> first | rfl | cases hc
  | trackInFlight | untrackInFlight | trySend => cases hc
  | nowMillis | desyncDelay | activeQueues | inFlightRemaining | channelCapacity | shouldDrop
  | taskInFlight => rfl

theorem looked {α : Type} {ok : Outside → Call → World → Prop} {p : Code α}
    (hp : Issues Call.Looks p) {a : α} (h : p.Goes (perform cfg) ok w a w') : w' = w :=
  h.kept (I := fun v => v = w) hp
    (fun _ _ _ hc _ hv => (perform_looks hc _).trans hv) rfl

theorem apart_gates {out : Outside} {c : Call} (hc : c.Gates) (w : World) (others : String → Prop) :
    Apart others w (perform cfg out c w).2 := by
  have hsame : ∀ buckets breakers,
      Apart others w { w with buckets := buckets, breakers := breakers } :=
    fun _ _ => ⟨fun _ _ => rfl, rfl, id, rfl, fun _ h => h, fun _ h => h⟩
  cases c with
  | query q =>
    rcases perform_query out q w with hkept | hkept <;> rw [hkept]
    · exact .refl _ _
    · cases q <;> first | exact hsame _ _ | cases hc
  | nowMillis => exact .refl _ _
  | desyncDelay | activeQueues | inFlightRemaining | channelCapacity | shouldDrop
  | taskInFlight | trackInFlight | untrackInFlight | trySend => cases hc

theorem issues_limitGate (limit : Option RateLimitConfig) (key : String) (refused : GateDecision) :
    Issues Call.Gates (limitGate limit key refused) := by
  cases limit with
  | none => exact trivial
  | some => exact issues_okThen (issues_ask trivial) fun _ => trivial

theorem issues_allow (taskName : String) : Issues Call.Gates (allow taskName) := by
  refine issues_okThen (issues_ask trivial) fun found => ?_
  cases found with
  | none => exact trivial
  | some row =>
    refine issues_bind ⟨trivial, fun _ => trivial⟩ fun now => ?_
    obtain ⟨allowed, updated⟩ := row.allow now
    cases updated with
    | none => exact trivial
    | some => exact issues_okThen (issues_ask trivial) fun _ => trivial

theorem issues_thenGate {Q : Call → Prop} {gate next : Code (Result GateDecision)}
    (hgate : Issues Q gate) (hnext : Issues Q next) : Issues Q (thenGate gate next) := by
  refine issues_okThen hgate fun d => ?_
  cases d with
  | proceed => exact hnext
  | defer | shed => exact trivial

theorem issues_checkPreClaimGates (job : Job) : Issues Call.Gates (checkPreClaimGates cfg job) := by
  refine issues_thenGate (issues_limitGate _ _ _) (issues_thenGate ?_ (issues_limitGate _ _ _))
  unfold breakerGate
  split
  · exact issues_okThen (issues_allow _) fun _ => trivial
  · exact trivial

theorem checkPreClaimGates_apart {r : Result GateDecision}
    (h : GoesOn cfg (checkPreClaimGates cfg job) w r w') (others : String → Prop) :
    Apart others w w' :=
  h.kept (I := Apart others w) (issues_checkPreClaimGates job)
    (fun _ _ v hc _ hv => hv.trans (apart_gates hc v others)) (.refl _ _)

theorem Tolerable.gates (out : Outside) (q : Query) (w : World) (hq : (Call.query q).Gates)
    (h : Tolerable out (.query q) w) : out.fault = none :=
  h.sure (by cases q <;> first | exact id | cases hq)

theorem limitGate_decides {limit : Option RateLimitConfig} {key : String} {refused : GateDecision}
    {r : Result GateDecision} (h : GoesOn cfg (limitGate limit key refused) w r w') :
    ∃ d, r = .ok d := by
  rcases limitGate_goes Tolerable.gates h with ⟨-, hr, -⟩ | ⟨_, _, _, -, -, hr, -⟩
  · exact ⟨_, hr⟩
  · exact ⟨_, hr⟩

theorem thenGate_decides {gate next : Code (Result GateDecision)} {r : Result GateDecision}
    (hgate : ∀ {w x w'}, GoesOn cfg gate w x w' → ∃ d, x = .ok d)
    (hnext : ∀ {w x w'}, GoesOn cfg next w x w' → ∃ d, x = .ok d)
    (h : GoesOn cfg (thenGate gate next) w r w') : ∃ d, r = .ok d := by
  obtain ⟨x, w₁, hx, ⟨-, hrest⟩ | ⟨-, rfl, -⟩⟩ := thenGate_goes h
  · exact hnext hrest
  · exact hgate hx

theorem checkPreClaimGates_decides {r : Result GateDecision}
    (h : GoesOn cfg (checkPreClaimGates cfg job) w r w') : ∃ d, r = .ok d := by
  refine thenGate_decides limitGate_decides (thenGate_decides ?_ limitGate_decides) h
  intro w x w' hx
  unfold breakerGate at hx
  split at hx
  · obtain ⟨y, w₁, hy, hrest⟩ := goes_okThen hx
    rcases allow_goes Tolerable.gates hy with ⟨-, rfl, -⟩ | ⟨_, _, _, -, -, rfl, -⟩
    · exact ⟨_, (passes hrest).1⟩
    · exact ⟨_, (passes hrest).1⟩
  · exact ⟨_, hx.1⟩

/-! ## Back to `Pending` -/

def Other (job : Job) (id : String) : Prop := id ≠ job.id

theorem Apart.of_store {others : String → Prop}
    (hjobs : ∀ id, others id → s.jobs.find id = w.store.jobs.find id)
    (harchived : ∀ id, others id → s.archived.find id = w.store.archived.find id)
    (hclaims : ∀ id, others id → s.claims.find id = w.store.claims.find id)
    (hedges : s.edges = w.store.edges) (hseparate : Separate w.store → Separate s)
    (hdead : ∀ entry ∈ w.store.dead.rows, entry ∈ s.dead.rows) :
    Apart others w { w with store := s } := by
  refine ⟨fun id hid => ?_, hedges, hseparate, rfl, fun _ h => h, hdead⟩
  show Place.mk _ _ _ _ = Place.mk _ _ _ _
  rw [hjobs id hid, harchived id hid, hclaims id hid]

theorem separate_rewrites {s' : Store} {id : String} {row row' : Job} (h : Rewrites s s' id row')
    (hrow : s.jobs.find id = some row) (hsep : Separate s) : Separate s' := by
  intro k r hk
  rw [h.archived]
  rw [h.jobs] at hk
  split at hk
  · next heq =>
    rw [heq]
    exact hsep id row hrow
  · exact hsep k r hk

section

variable (ht : Taken cfg w job)
include ht

theorem completeExecution_goes
    (h : GoesOn cfg (Code.completeExecution job.id) w r w') :
    r = .ok () ∧ Taken cfg w' job ∧ (w'.place job.id).claim = none ∧ Apart (Other job) w w' := by
  obtain ⟨out, -, hans⟩ := goes_sure h fun _ h => h.sure id
  obtain ⟨row, hrow, hrun, hns⟩ := ht.row
  simp only [answer, completeExecution_visible hrow hns, World.commit] at hans
  cases hans
  have hclaims := Table.find_delete_key w.store.claims job.id
  refine ⟨rfl, ⟨⟨row, hrow, hrun, hns⟩, ht.gone, ht.record⟩, ?_, ?_⟩
  · exact (hclaims job.id).trans (if_pos rfl)
  · exact .of_store (fun _ _ => rfl) (fun _ _ => rfl)
      (fun id hid => (hclaims id).trans (if_neg hid)) rfl (fun hsep => hsep) fun _ he => he

theorem reschedule_goes {nextAt : Int} (h : GoesOn cfg (rescheduleDeferred job.id nextAt) w r w') :
    r = .ok () ∧ Apart (Other job) w w' ∧ (w'.place job.id).claim = (w.place job.id).claim ∧
      (w'.place job.id).record = none ∧
      ∃ row, (w'.place job.id).row = some row ∧ row.status = .pending := by
  obtain ⟨out, -, hans⟩ := goes_sure h fun _ h => h.sure id
  obtain ⟨row, hrow, -, hns⟩ := ht.row
  obtain ⟨s', hs'⟩ := reschedule_isOk hrow hns nextAt
  simp only [answer, hs', Except.map, World.commit] at hans
  cases hans
  obtain ⟨row₀, hrow₀, -, hw, hclaims⟩ := reschedule_ok hs'
  refine ⟨rfl, ?_, ?_, ht.record, row₀.pendingAt nextAt, ?_, rfl⟩
  · refine Apart.of_store (fun id hid => ?_) (fun id _ => by rw [hw.archived])
      (fun id _ => by rw [hclaims]) hw.edges (separate_rewrites hw hrow₀) fun _ h => hw.dead ▸ h
    rw [hw.jobs, if_neg hid]
  · show s'.claims.find job.id = w.store.claims.find job.id
    rw [hclaims]
  · show s'.jobs.find job.id = _
    rw [hw.jobs, if_pos rfl]

theorem rollback_goes {nextAt : Int}
    (h : GoesOn cfg (rollbackClaimAndReschedule job.id nextAt) w r w') :
    r = .ok () ∧ Fate.pending.Of cfg w' job ∧ Apart (Other job) w w' := by
  obtain ⟨x, w₁, hcomplete, hrest⟩ := goes_okThen h
  obtain ⟨rfl, ht₁, hclaim, hapart⟩ := completeExecution_goes ht hcomplete
  have hresched := passes hrest
  obtain ⟨rfl, hapart', hclaim', hrecord, hrow⟩ := reschedule_goes ht₁ hresched
  exact ⟨rfl, ⟨hrow, hclaim'.trans hclaim, hrecord⟩, hapart.trans hapart'⟩

theorem putBack_goes {delayMs : Nat} {done : Result Bool} {r : Counted Bool}
 (h : GoesOn cfg (putBack job now delayMs counts done) w r w') :
    Fate.pending.Of cfg w' job ∧ Apart (Other job) w w' := by
  obtain ⟨delay, w₁, hdelay, hrest⟩ := goes_bind.mp h
  obtain ⟨out, -, hout⟩ := goes_call.mp hdelay
  cases hout
  obtain ⟨x, w₂, hback, hlast⟩ := goes_bind.mp hrest
  obtain ⟨rfl, hfate, hapart⟩ := rollback_goes ht hback
  obtain ⟨-, rfl⟩ := hlast
  exact ⟨hfate, hapart⟩

end

/-! ## To a worker -/

theorem Apart.of_inFlight {inFlight : InFlight}
    (h : ∀ id, id ≠ job.id → inFlight.live id = w.inFlight.live id) :
    Apart (Other job) w { w with inFlight := inFlight } := by
  refine ⟨fun id hid => ?_, rfl, id, rfl, fun _ h => h, fun _ h => h⟩
  show Place.mk _ _ _ _ = Place.mk _ _ _ _
  rw [h id hid]

/-- The hand-off: a job with its record filed is sent, or loses the record
again and goes back. -/
theorem handOff_fate {record : DispatchRecord} {w₂ : World} {r : Counted Bool} (hm : Mine cfg w job)
    (hw₂ : w₂ = { w with inFlight := w.inFlight.insert job.id record }) (h : GoesOn cfg (do
      match ← Code.trySend job with
      | .sent => return (.ok true, counts)
      | .full | .closed =>
        Code.untrackInFlight job.id
        putBack job now channelBackpressureRetryDelayMs counts (.ok false)) w₂ r w') :
    (∃ f, Fate.Of cfg w' job f) ∧ Apart (Other job) w w' := by
  have hlive := InFlight.live_insert w.inFlight job.id record
  have htracked : Apart (Other job) w w₂ := by
    rw [hw₂]
    exact .of_inFlight fun id hid => by rw [hlive, if_neg (Ne.symm hid)]
  obtain ⟨outcome, w₃, hsend, hrest⟩ := goes_bind.mp h
  obtain ⟨out, -, hout⟩ := goes_call.mp hsend
  -- A channel that does not take the job changes nothing.
  have hback : w₃ = w₂ → GoesOn cfg (do
      Code.untrackInFlight job.id
      putBack job now channelBackpressureRetryDelayMs counts (.ok false)) w₃ r w' →
      (∃ f, Fate.Of cfg w' job f) ∧ Apart (Other job) w w' := by
    rintro rfl hgo
    obtain ⟨_, w₄, hun, hput⟩ := goes_bind.mp hgo
    obtain ⟨out', -, hout'⟩ := goes_call.mp hun
    cases hout'
    have hforget := InFlight.live_forget w₃.inFlight job.id
    have ht : Taken cfg { w₃ with inFlight := w₃.inFlight.forget job.id } job := by
      obtain ⟨⟨hrow, hgone, -⟩, -⟩ := hm
      rw [hw₂]
      refine ⟨hrow, hgone, ?_⟩
      exact (InFlight.live_forget _ _ _).trans (if_pos rfl)
    obtain ⟨hfate, hapart⟩ := putBack_goes ht hput
    refine ⟨⟨_, hfate⟩, htracked.trans (Apart.trans (.of_inFlight fun id hid => ?_) hapart)⟩
    rw [hforget, if_neg hid]
  cases hsent : out.send with
  | sent =>
    simp only [perform, hsent] at hout
    cases hout
    obtain ⟨-, rfl⟩ := hrest
    obtain ⟨⟨⟨row, hrow, hrun, -⟩, -, -⟩, hclaim⟩ := hm
    have hgrow : Apart (Other job) w₂ { w₂ with sent := w₂.sent ++ [job] } :=
      ⟨fun _ _ => rfl, rfl, id, rfl, fun _ h => mem_append_left _ h, fun _ h => h⟩
    refine ⟨⟨.sent, mem_append_right _ (mem_singleton_self _), ?_, ?_, ?_⟩,
      htracked.trans hgrow⟩
    · rw [hw₂]
      show ((w.inFlight.insert job.id record).live job.id).isSome = true
      rw [hlive, if_pos rfl]
      rfl
    · rw [hw₂]
      exact ⟨row, hrow, hrun⟩
    · rw [hw₂]
      exact hclaim
  | full | closed =>
    simp only [perform, hsent] at hout
    cases hout
    exact hback rfl hrest

theorem finishDispatch_fate {epoch : Option Int} {r : Counted Bool} (hm : Mine cfg w job)
    (h : GoesOn cfg (finishDispatch cfg job now epoch counts) w r w') :
    (∃ f, Fate.Of cfg w' job f) ∧ Apart (Other job) w w' := by
  obtain ⟨⟨x, counts'⟩, w₁, hcheck, hrest⟩ := goes_bind.mp h
  have hsame : w₁ = w :=
    looked (issues_checkPostClaimConcurrency job counts trivial trivial trivial trivial trivial)
      hcheck
  rw [hsame] at hrest
  rcases x with e | ⟨_ | _⟩
  · obtain ⟨hfate, hapart⟩ := putBack_goes hm.1 hrest
    exact ⟨⟨_, hfate⟩, hapart⟩
  · obtain ⟨hfate, hapart⟩ := putBack_goes hm.1 hrest
    exact ⟨⟨_, hfate⟩, hapart⟩
  · obtain ⟨_, w₂, htrack, hrest⟩ := goes_bind.mp hrest
    obtain ⟨out, -, hout⟩ := goes_call.mp htrack
    cases hout
    exact handOff_fate hm rfl hrest

/-! ## To the dead letters -/

/-- `id` waits for `root`, directly or through others. -/
def Behind (edges : List Edge) (root id : String) : Prop :=
  Relation.TransGen (fun a b => (⟨b, a⟩ : Edge) ∈ edges) root id

theorem cascadeCancel_behind {s' : Store} {root reason : String} {scope : Scope}
    {rows : List Job} (h : cascadeCancel s root reason scope now = .ok (rows, s')) :
    ∀ r ∈ rows, Behind s.edges root r.id := by
  unfold cascadeCancel at h
  simp only [] at h
  split at h
  · cases h
    simp
  · intro r hr
    have hfound := (cascadeArchive_ok h).2.2.1 r hr
    let search := (Search.start root).expandAll (dependentsOf s) (s.edges.length + 1)
    have hwf : search.WellFormed := (Search.start_wellFormed root).expandAll _
    have hreach : ∀ a ∈ search.queue, a = root ∨ Behind s.edges root a := by
      refine Search.forall_mem_expandAll (P := fun a => a = root ∨ Behind s.edges root a) ?_ _ ?_
      · intro b hb a ha
        have hedge := mem_dependentsOf.mp ha
        rcases hb with rfl | hb
        · exact .inr (.single hedge)
        · exact .inr (.tail hb hedge)
      · intro a ha
        exact .inl (mem_singleton.mp ha)
    have hroot : search.root = root := Search.root_expandAll _ _
    obtain ⟨hin, hne⟩ := hwf.mem_found.mp hfound
    exact (hreach r.id hin).resolve_left fun heq => hne (heq.trans hroot.symm)

theorem Apart.of_archives {others : String → Prop} {rows : List Job} (h : Archives w.store s rows)
    (hothers : ∀ id, others id → id ∉ rows.map Job.id) (hseparate : Separate w.store → Separate s) :
    Apart others w { w with store := s } := by
  refine Apart.of_store (fun id hid => ?_) (fun id hid => h.archived id (hothers id hid))
    (fun id hid => ?_) h.edges hseparate fun _ he => h.dead ▸ he
  · rw [h.jobs, if_neg (hothers id hid)]
  · rw [h.claims, if_neg (hothers id hid)]

/-- The jobs a shed of `job` leaves alone. -/
def Bystander (edges : List Edge) (job : Job) (id : String) : Prop :=
  id ≠ job.id ∧ ¬ Behind edges job.id id

theorem deadLetter_goes {error metadata : String} (ht : Taken cfg w job)
    (h : GoesOn cfg (Code.deadLetter job error (some metadata)) w r w') :
    r = .ok () ∧ Fate.dead.Of cfg w' job ∧ Apart (Other job) w w' := by
  obtain ⟨out, htol, hans⟩ := goes_sure h fun _ h => h.sure id
  obtain ⟨row, hrow, -, -⟩ := ht.row
  have hfind : w.store.jobs.find job.id = some row := hrow
  have hid : row.id = job.id := Table.key_of_find hfind
  obtain ⟨dead, hdead⟩ := Table.insert_isSome (t := w.store.dead)
    (r := deadLetterRow cfg.serde job error (some metadata) true out.deadId out.now) htol.fresh
  have hnone : w.store.archived.find (row.finish .dead out.now (some error)).id = none := by
    show w.store.archived.find row.id = none
    rw [hid]
    exact ht.gone
  obtain ⟨s', hs'⟩ := archiveJobRow_isOk (s := { w.store with dead := dead })
    (row.finish .dead out.now (some error)) hnone
  have hmove : deadLetterIn cfg.serde w.store job error (some metadata) true out.deadId out.now =
      .ok s' := by
    rw [deadLetterIn, hdead]
    simp only [hfind]
    exact hs'
  simp only [answer, hmove, Except.map, World.commit] at hans
  cases hans
  have harch := archiveJobRow_ok hs'
  have hids : [row.finish .dead out.now (some error)].map Job.id = [job.id] :=
    congrArg (fun i => [i]) hid
  have hrows := (Table.insert_eq_some hdead).2
  have hkept : ∀ entry ∈ dead.rows, entry ∈ s'.dead.rows := by
    intro entry hentry
    rw [harch.dead]
    exact hentry
  refine ⟨rfl, ⟨?_, ?_, ⟨(row.finish .dead out.now (some error)).archived, ?_, rfl⟩, ?_⟩, ?_⟩
  · show s'.jobs.find job.id = none
    rw [harch.jobs, hids, if_pos (mem_singleton_self _)]
  · show s'.claims.find job.id = none
    rw [harch.claims, hids, if_pos (mem_singleton_self _)]
  · have hmoved := harch.moved _ (mem_singleton_self _)
    rw [← hid]
    exact hmoved
  · refine ⟨deadLetterRow cfg.serde job error (some metadata) true out.deadId out.now,
      hkept _ ?_, rfl⟩
    rw [hrows]
    exact mem_append_right _ (mem_singleton_self _)
  · have hout : ∀ id, id ≠ job.id →
        id ∉ [row.finish .dead out.now (some error)].map Job.id := by
      intro id hne hmem
      rw [hids] at hmem
      exact hne (mem_singleton.mp hmem)
    refine Apart.of_store (fun id hne => ?_) (fun id hne => harch.archived id (hout id hne))
      (fun id hne => ?_) harch.edges (deadLetterIn_calm hmove).separate fun entry hentry => ?_
    · rw [harch.jobs, if_neg (hout id hne)]
    · rw [harch.claims, if_neg (hout id hne)]
    · refine hkept entry ?_
      rw [hrows]
      exact mem_append_left _ hentry

theorem shedToDlq_fate {reason metadata : String} (ht : Taken cfg w job) (hsep : Separate w.store)
    (h : GoesOn cfg (shedToDlq job reason metadata) w r w') :
    r = .ok () ∧ Fate.dead.Of cfg w' job ∧ Apart (Bystander w.store.edges job) w w' := by
  obtain ⟨x, w₁, hmove, hrest⟩ := goes_okThen h
  obtain ⟨rfl, hdead, hapart⟩ := deadLetter_goes ht hmove
  replace hrest := passes hrest
  obtain ⟨y, w₂, hcascade, hlast⟩ := goes_okThen hrest
  obtain ⟨out, -, hans⟩ := goes_sure hcascade fun _ h => h.sure id
  have hsep₁ := hapart.separate hsep
  obtain ⟨rows, s', hrun⟩ : ∃ rows s',
      Sql.cascadeCancel w₁.store job.id dependencyFailed job.namespace out.now =
        .ok (rows, s') := by
    unfold Sql.cascadeCancel
    simp only []
    split
    · exact ⟨_, _, rfl⟩
    · exact cascadeArchive_isOk hsep₁ _ _ _ _ _
  simp only [answer, hrun, World.commit] at hans
  cases hans
  obtain ⟨rfl, rfl⟩ := passes hlast
  obtain ⟨harch, hfrom⟩ := cascadeCancel_ok hrun
  have hbehind := cascadeCancel_behind hrun
  -- The job itself is no longer live, so it is not among the cancelled.
  have hself : job.id ∉ rows.map Job.id := by
    intro hmem
    obtain ⟨r, hr, hid⟩ := mem_map.mp hmem
    obtain ⟨row, hrow, -⟩ := hfrom r hr
    rw [hid] at hrow
    cases hrow.symm.trans hdead.1
  have hnot : ∀ id, ¬ Behind w.store.edges job.id id → id ∉ rows.map Job.id := by
    intro id hno hmem
    obtain ⟨r, hr, hid⟩ := mem_map.mp hmem
    have hb := hbehind r hr
    rw [hid, hapart.edges] at hb
    exact hno hb
  have hsepar := (cascadeCancel_calm hrun).separate
  have hstay : Apart (fun id => id = job.id) w₁ { w₁ with store := s' } :=
    .of_archives harch (fun id hid => hid ▸ hself) hsepar
  refine ⟨rfl, hdead.later hstay rfl, ?_⟩
  · exact (hapart.mono fun id hid => hid.1).trans
      (.of_archives harch (fun id hid => hnot id hid.2) hsepar)

/-! ## One job through a round -/

theorem Apart.bystander {edges : List Edge} (h : Apart (Other job) w w') :
    Apart (Bystander edges job) w w' :=
  h.mono fun _ hid => hid.1

theorem dispatchClaimed_fate {epoch : Option Int} {r : Counted Bool} (hm : Mine cfg w job)
    (hsep : Separate w.store) (h : GoesOn cfg (dispatchClaimed cfg job now epoch counts) w r w') :
    (∃ f, Fate.Of cfg w' job f) ∧ Apart (Bystander w.store.edges job) w w' := by
  obtain ⟨x, w₁, hgates, hrest⟩ := goes_bind.mp h
  obtain ⟨d, rfl⟩ := checkPreClaimGates_decides hgates
  have hall := checkPreClaimGates_apart hgates fun _ => True
  have hm₁ : Mine cfg w₁ job := hm.of_place (hall.place _ trivial)
  have hfirst : Apart (Bystander w.store.edges job) w w₁ := hall.mono fun _ _ => trivial
  cases d with
  | proceed =>
    obtain ⟨hfate, hapart⟩ := finishDispatch_fate hm₁ hrest
    exact ⟨hfate, hfirst.trans hapart.bystander⟩
  | defer =>
    obtain ⟨hfate, hapart⟩ := putBack_goes hm₁.1 hrest
    exact ⟨⟨_, hfate⟩, hfirst.trans hapart.bystander⟩
  | shed =>
    obtain ⟨y, w₂, hshed, hlast⟩ := goes_bind.mp hrest
    obtain ⟨z, w₃, hcomplete, hdlq⟩ := goes_bind.mp hshed
    obtain ⟨-, ht₃, -, hapart⟩ := completeExecution_goes hm₁.1 hcomplete
    obtain ⟨rfl, hdead, hapart'⟩ :=
      shedToDlq_fate ht₃ (hapart.separate (hall.separate hsep)) hdlq
    obtain ⟨-, rfl⟩ := hlast
    rw [hapart.edges, hall.edges] at hapart'
    exact ⟨⟨_, hdead⟩, (hfirst.trans hapart.bystander).trans hapart'⟩

def Claimed (cfg : Settings) (w : World) : Job × Option Int → Prop
  | (job, some _) => Mine cfg w job
  | (job, none) => Fate.foreign.Of cfg w job

/-- A claim on a job nobody has is this scheduler's; a job somebody has
stays with them. -/
theorem claimExecution_claimed (hf : Fresh cfg w job) (now epoch : Int) : Apart (Other job) w
      { w with store := (Sql.claimExecution w.store job.id cfg.claimOwner now epoch).2 } ∧
    Claimed cfg { w with store := (Sql.claimExecution w.store job.id cfg.claimOwner now epoch).2 }
      (job, (Sql.claimExecution w.store job.id cfg.claimOwner now epoch).1) := by
  cases hheld : w.store.claims.find job.id with
  | none =>
    obtain ⟨claims, hclaim, hfind⟩ := claimExecution_free hheld cfg.claimOwner now epoch
    rw [hclaim]
    refine ⟨.of_store (fun _ _ => rfl) (fun _ _ => rfl)
      (fun id hid => (hfind id).trans (if_neg (Ne.symm hid))) rfl (fun h => h) fun _ he => he, ?_⟩
    exact ⟨⟨hf.1.row, hf.1.gone, hf.1.record⟩, _, (hfind job.id).trans (if_pos rfl), rfl⟩
  | some claim =>
    rw [claimExecution_held hheld]
    obtain ⟨row, hrow, -⟩ := hf.1.row
    exact ⟨.refl _ _, by rw [hrow]; rfl, claim, hheld, hf.2 claim hheld⟩

theorem claimExecution_goes {r : Result (Option Int)} (hf : Fresh cfg w job)
    (h : GoesOn cfg (Code.claimExecution job.id) w r w') :
    Apart (Other job) w w' ∧
      ((∃ e, r = .error e ∧ Fresh cfg w' job) ∨
        ∃ won, r = .ok won ∧ Claimed cfg w' (job, won)) := by
  obtain ⟨out, -, ⟨e, -, rfl, rfl⟩ | ⟨-, hans⟩⟩ := goes_ask h
  · exact ⟨.refl _ _, .inl ⟨e, rfl, hf⟩⟩
  · obtain ⟨hapart, hclaimed⟩ := claimExecution_claimed hf out.now (out.mint 0)
    cases hans
    exact ⟨hapart, .inr ⟨_, rfl, hclaimed⟩⟩

theorem gateAndDispatch_fate {r : Counted Bool} (hf : Fresh cfg w job) (hsep : Separate w.store)
    (h : GoesOn cfg (gateAndDispatch cfg job now counts) w r w') :
    (∃ f, Fate.Of cfg w' job f) ∧ Apart (Bystander w.store.edges job) w w' := by
  obtain ⟨x, w₁, hgates, hrest⟩ := goes_bind.mp h
  obtain ⟨d, rfl⟩ := checkPreClaimGates_decides hgates
  have hall := checkPreClaimGates_apart hgates fun _ => True
  have hf₁ : Fresh cfg w₁ job := hf.of_place (hall.place _ trivial)
  have hfirst : Apart (Bystander w.store.edges job) w w₁ := hall.mono fun _ _ => trivial
  cases d with
  | proceed =>
    obtain ⟨y, w₂, hclaim, hrest⟩ := goes_bind.mp hrest
    obtain ⟨hapart, ⟨e, rfl, hf₂⟩ | ⟨_ | epoch, rfl, hclaimed⟩⟩ :=
      claimExecution_goes hf₁ hclaim
    · obtain ⟨hfate, hapart'⟩ := putBack_goes hf₂.1 hrest
      exact ⟨⟨_, hfate⟩, hfirst.trans (hapart.trans hapart').bystander⟩
    · obtain ⟨-, rfl⟩ := hrest
      exact ⟨⟨.foreign, hclaimed⟩, hfirst.trans hapart.bystander⟩
    · obtain ⟨hfate, hapart'⟩ := finishDispatch_fate hclaimed hrest
      exact ⟨hfate, hfirst.trans (hapart.trans hapart').bystander⟩
  | defer =>
    obtain ⟨delay, w₂, hdelay, hrest⟩ := goes_bind.mp hrest
    obtain ⟨out, -, hout⟩ := goes_call.mp hdelay
    cases hout
    obtain ⟨y, w₃, hresched, hlast⟩ := goes_bind.mp hrest
    obtain ⟨rfl, hapart, hclaim, hrecord, row, hrow, hpend⟩ := reschedule_goes hf₁.1 hresched
    obtain ⟨-, rfl⟩ := hlast
    refine ⟨?_, hfirst.trans hapart.bystander⟩
    -- A claim of somebody else is not this branch's to take.
    cases hheld : (w₁.place job.id).claim with
    | none => exact ⟨.pending, ⟨row, hrow, hpend⟩, hclaim.trans hheld, hrecord⟩
    | some claim =>
      exact ⟨.foreign, by rw [hrow]; rfl, claim, hclaim.trans hheld, hf₁.2 claim hheld⟩
  | shed =>
    obtain ⟨y, w₂, hshed, hlast⟩ := goes_bind.mp hrest
    obtain ⟨rfl, hdead, hapart⟩ := shedToDlq_fate hf₁.1 (hall.separate hsep) hshed
    obtain ⟨-, rfl⟩ := hlast
    rw [hall.edges] at hapart
    exact ⟨⟨_, hdead⟩, hfirst.trans hapart⟩

end FlexiQ.Dispatch
