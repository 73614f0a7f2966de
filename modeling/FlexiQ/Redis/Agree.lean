/-
# `Redis.Agree` — a document and its index, under concurrent writers

Every transition writes back a whole document that was read in an earlier
request, and what guards the write asks whether the job is still there, or
still in a set, not whether the document is still the same.  A write that
lands on a document somebody changed in between takes the other change back,
and the index entries of both stay: `update_progress` around a `dequeue`
leaves a job that says it is pending and sits in the running set only.
-/
import FlexiQ.Redis.Moves

namespace FlexiQ.Redis

open FlexiQ.Lib FlexiQ.Step FlexiQ.Sql

/-! ## What agreement is -/

/-- The index entries of a job are those its document calls for; there are
none without a document, and the archive has none with one. -/
structure Card.Filed (card : Card) : Prop where
  live : ∀ d ∈ card.doc, d.status = .pending ∨ d.status = .running
  status : card.Listed
  queued : ∀ q, card.queued q = card.doc.any (fun d => d.status = .pending && d.queue = q)
  byQueue : ∀ q, card.byQueue q = true → card.doc.any (fun d => d.queue = q) = true
  byTask : ∀ t, card.byTask t = true → card.doc.any (fun d => d.taskName = t) = true
  gone : card.doc.isSome = true → card.gone = none

namespace Card.Filed

variable {card : Card} {read job : Job} {queue : String}

theorem congr {card' : Card} (h : card.Filed) (hsame : card.Alike card') : card'.Filed := by
  cases card'
  obtain ⟨rfl, rfl, rfl, rfl, rfl, rfl⟩ := hsame
  exact ⟨h.live, h.status, h.queued, h.byQueue, h.byTask, h.gone⟩

theorem some_iff (hdoc : card.doc = some job) : card.Filed ↔
    (job.status = .pending ∨ job.status = .running) ∧ card.Listed ∧
      (∀ q, card.queued q = (decide (job.status = .pending) && decide (job.queue = q))) ∧
      (∀ q, card.byQueue q = true → job.queue = q) ∧
      (∀ t, card.byTask t = true → job.taskName = t) ∧ card.gone = none := by
  constructor
  · rintro ⟨hlive, hst, hq, hbq, hbt, hgone⟩
    simp only [hdoc, Option.any_some, decide_eq_true_eq] at hq hbq hbt
    exact ⟨hlive job hdoc, hst, hq, hbq, hbt, hgone (by rw [hdoc]; rfl)⟩
  · rintro ⟨hlive, hst, hq, hbq, hbt, hgone⟩
    refine ⟨?_, hst, ?_, ?_, ?_, fun _ => hgone⟩
    · intro d hd
      cases hdoc.symm.trans hd
      exact hlive
    all_goals simpa only [hdoc, Option.any_some, decide_eq_true_eq]

section Over

variable (h : card.Filed) (hdoc : card.doc = some read) (hqueue : job.queue = read.queue)
  (htask : job.taskName = read.taskName)

include h hdoc hqueue htask

theorem rewritten (hstatus : job.status = read.status) :
    ({ card with doc := some job } : Card).Filed := by
  obtain ⟨hlive, hst, hq, hbq, hbt, hgone⟩ := (some_iff hdoc).mp h
  refine (some_iff rfl).mpr ⟨?_, hst.rewritten hdoc hstatus, ?_, ?_, ?_, hgone⟩
  · rwa [hstatus]
  · rwa [hstatus, hqueue]
  · rwa [hqueue]
  · rwa [htask]

theorem returned (hpending : job.status = .pending) : (card.returned job read.status).Filed := by
  obtain ⟨hlive, hst, hq, hbq, hbt, hgone⟩ := (some_iff hdoc).mp h
  rw [← hqueue] at hq hbq
  rw [← htask] at hbt
  refine (some_iff rfl).mpr ⟨Or.inl hpending, hst.returned hdoc hpending, ?_, hbq, hbt, hgone⟩
  intro q
  show (decide (q = job.queue) || card.queued q) = _
  rw [hq]
  by_cases hqq : q = job.queue
  · simp [hqq, hpending]
  · simp [hqq, Ne.symm hqq]

theorem requeued (hpending : job.status = .pending) (revoke : Bool) :
    (card.requeued job read.status revoke).Filed := by
  have hback := h.returned hdoc hqueue htask hpending
  exact hback.congr ⟨rfl, rfl, h.status.requeued_status hdoc revoke, rfl, rfl, rfl⟩

theorem started (hread : read.status = .pending) (hqueued : card.queued queue = true)
    (hrunning : job.status = .running) : (card.started job queue).Filed := by
  obtain ⟨hlive, hst, hq, hbq, hbt, hgone⟩ := (some_iff hdoc).mp h
  -- The queue the script walked is the job's.
  obtain rfl : read.queue = queue := by
    rw [hq, hread] at hqueued
    simpa using hqueued
  rw [← hqueue] at hbq
  rw [← htask] at hbt
  refine (some_iff rfl).mpr ⟨Or.inr hrunning, hst.started hdoc hread hrunning, ?_, hbq, hbt, hgone⟩
  intro q
  show (decide (q ≠ read.queue) && card.queued q) = _
  rw [hq, hread, hrunning]
  by_cases hqq : q = read.queue
  · simp [hqq]
  · simp [Ne.symm hqq]

theorem shelved : (card.shelved job read.status).Filed := by
  obtain ⟨hlive, hst, hq, hbq, hbt, hgone⟩ := (some_iff hdoc).mp h
  rw [← hqueue] at hq hbq
  rw [← htask] at hbt
  have hleft : ∀ {f : String → Bool} {own : String}, (∀ x, f x = true → own = x) → ∀ x,
      (decide (x ≠ own) && f x) = false := by
    intro f own hown x
    simpa using fun hne => Bool.eq_false_of_not_eq_true fun hmem => hne (hown x hmem).symm
  refine ⟨fun d hd => (by cases hd), hst.shelved hdoc, ?_, ?_, ?_, fun hsome => (by cases hsome)⟩
  · intro q
    show (if read.status = .pending then fun q => decide (q ≠ job.queue) && card.queued q
      else card.queued) q = false
    split
    · refine hleft (fun q hmem => ?_) q
      rw [hq] at hmem
      simpa using (Bool.and_eq_true_iff.mp hmem).2
    · next hold =>
      rw [hq]
      simp [hold]
  · exact fun q hmem => absurd hmem (Bool.eq_false_iff.mp (hleft hbq q))
  · exact fun t hmem => absurd hmem (Bool.eq_false_iff.mp (hleft hbt t))

end Over

theorem pruned (h : card.Filed) (hdoc : card.doc = none) :
    ({ card with queued := fun q => q ≠ queue && card.queued q } : Card).Filed := by
  refine ⟨h.live, h.status, ?_, h.byQueue, h.byTask, h.gone⟩
  intro q
  show (decide (q ≠ queue) && card.queued q) = _
  rw [h.queued, hdoc]
  simp

theorem moved {card' : Card} {back : Bool} (h : card.Filed) (hmoved : Moved card back card') :
    card'.Filed := by
  cases hmoved with
  | alike hsame => exact h.congr hsame
  | rewritten hdoc hstatus hqueue htask => exact h.rewritten hdoc hqueue htask hstatus
  | pruned queue hdoc => exact h.pruned hdoc
  | started hdoc hread hqueued hrunning hqueue htask =>
    exact h.started hdoc hqueue htask hread hqueued hrunning
  | returned hsame hdoc hpending hqueue htask =>
    exact (h.congr hsame).returned (hsame.doc.trans hdoc) hqueue htask hpending
  | requeued revoke hdoc hpending hqueue htask =>
    exact h.requeued hdoc hqueue htask hpending revoke
  | shelved hdoc hqueue htask => exact h.shelved hdoc hqueue htask

end Card.Filed

/-- A write that lands on the document it was computed from keeps document
and index in agreement, for its own job and for every other. -/
theorem perform_filed {s : Store} {c : Req} {j : String} (hmoves : c.moves = true)
    (hcur : Current s c) (h : (cardOf s j).Filed) : (cardOf (perform c s).2 j).Filed :=
  h.moved (perform_moved (transits_of_moves hmoves) hcur h.status)

/-! ## Every interleaving -/

def Call.moves : Call → Bool
  | .retry .. | .reschedule .. | .sleepJob .. | .requeueStuck .. | .requestCancel ..
  | .updateProgress .. | .cancelJob .. | .complete .. | .dequeueBatch .. => true
  | _ => false

theorem moves_of_reads (c : Req) (h : c.reads = true) : c.moves = true := by
  cases c <;> first | rfl | cases h

open Code in
theorem prog_moves (serde : Serde) {call : Call} (h : call.moves = true) :
    (call.prog serde).Sat (fun c => c.moves = true) fun _ => True := by
  have hr := moves_of_reads
  cases call with
  | retry | reschedule => exact requeue_sat hr _ _ _ _ fun _ => rfl
  | sleepJob => exact sleepRounds_sat hr _ _ _ _ _ _ _ _ (fun _ _ _ => rfl) 3
  | requeueStuck => exact requeueStuck_sat hr _ _ fun _ => rfl
  | requestCancel => exact requestCancel_sat hr _ _ fun _ => rfl
  | updateProgress => exact updateProgress_sat hr _ _ _ fun _ => rfl
  | cancelJob => exact cancelJob_sat hr _ _ _ _ fun _ _ _ => rfl
  | complete => exact complete_sat hr _ _ _ _ (fun _ _ => rfl) fun _ => rfl
  | dequeueBatch =>
    exact dequeueBatch_sat hr _ _ _ _ rfl (fun _ _ => rfl) fun _ => rfl
  | _ => cases h

/-- Document and index of job `j` agree. -/
structure Agrees (s : Store) (j : String) : Prop where
  pending : ∀ d, s.jobs.find j = some d → (d.status = .pending ↔
    s.sets.sismember (.status .pending) j = true ∧
      (s.zsets.zscore (.pending d.queue) j).isSome = true)
  running : ∀ d, s.jobs.find j = some d → (d.status = .running ↔
    s.sets.sismember (.status .running) j = true ∧
      (∀ st, st ≠ .running → s.sets.sismember (.status st) j = false) ∧
      ∀ q, s.zsets.zscore (.pending q) j = none)
  archived : s.archived.find j ≠ none → s.jobs.find j = none ∧
    (∀ st, s.sets.sismember (.status st) j = false) ∧
    (∀ q, s.zsets.zscore (.pending q) j = none) ∧
    (∀ q, s.sets.sismember (.byQueue q) j = false) ∧
    ∀ t, s.sets.sismember (.byTask t) j = false

theorem agrees_of_filed {s : Store} {j : String} (h : (cardOf s j).Filed) : Agrees s j := by
  have hst : ∀ st, s.sets.sismember (.status st) j = (s.jobs.find j).any (fun d => d.status = st) :=
    h.status
  have hq : ∀ q, (s.zsets.zscore (.pending q) j).isSome =
      (s.jobs.find j).any (fun d => d.status = .pending && d.queue = q) := h.queued
  refine ⟨?_, ?_, ?_⟩
  · intro d hd
    rw [hst, hq, hd]
    simp
  · intro d hd
    rw [hst, hd]
    constructor
    · intro hrun
      refine ⟨by simp [hrun], ?_, ?_⟩
      · intro st hne
        rw [hst, hd]
        simp [hrun, Ne.symm hne]
      · intro q
        have hnone := hq q
        rw [hd] at hnone
        simpa [hrun] using hnone
    · intro hall
      simpa using hall.1
  · intro harch
    have hnone : s.jobs.find j = none := by
      cases hd : s.jobs.find j with
      | none => rfl
      | some d => exact absurd (h.gone (by rw [show (cardOf s j).doc = some d from hd]; rfl)) harch
    refine ⟨hnone, ?_, ?_, ?_, ?_⟩
    · intro st
      rw [hst, hnone]
      rfl
    · intro q
      have hnot := hq q
      rw [hnone] at hnot
      simpa using hnot
    · intro q
      have hin := h.byQueue q
      rw [show (cardOf s j).doc = none from hnone] at hin
      exact Bool.eq_false_iff.mpr fun hmem => absurd (hin hmem) Bool.false_ne_true
    · intro t
      have hin := h.byTask t
      rw [show (cardOf s j).doc = none from hnone] at hin
      exact Bool.eq_false_iff.mpr fun hmem => absurd (hin hmem) Bool.false_ne_true

theorem insert_filed {s : Store} (job : Job) {dependsOn : List String}
    (h : (cardOf s job.id).Filed) (hdoc : (cardOf s job.id).doc = none)
    (hgone : (cardOf s job.id).gone = none) (hpending : job.status = .pending) :
    (cardOf (s.exec (insertOps job dependsOn)) job.id).Filed := by
  obtain ⟨-, hst, hq, hbq, hbt, -⟩ := h
  unfold Card.Listed at hst
  rw [hdoc] at hst hq hbq hbt
  simp only [Option.any_none] at hst hq hbq hbt
  rw [exec_card, insertOps_card, if_pos rfl]
  refine (Card.Filed.some_iff rfl).mpr ⟨Or.inl hpending, ?_, ?_, ?_, ?_, hgone⟩
  · intro st
    show (decide (st = job.status) || (cardOf s job.id).status st) = decide (job.status = st)
    rw [hst]
    simp [eq_comm]
  · intro q
    show (decide (q = job.queue) || (cardOf s job.id).queued q) =
      (decide (job.status = .pending) && decide (job.queue = q))
    rw [hq, hpending]
    simp [eq_comm]
  · intro q hmem
    rcases Bool.or_eq_true_iff.mp hmem with hmem | hmem
    · simpa [Card.inserted, eq_comm] using hmem
    · exact absurd (hbq q hmem) (by decide)
  · intro t hmem
    rcases Bool.or_eq_true_iff.mp hmem with hmem | hmem
    · simpa [Card.inserted, eq_comm] using hmem
    · exact absurd (hbt t hmem) (by decide)

abbrev unraced : Terms Call Int Req Server where
  arrive _ call := call.moves = true
  call w c := Current w.store c
  drift _ _ := True

theorem upholds_filed (serde : Serde) (j : String) :
    Upholds (machine serde) unraced (fun w => (cardOf w.store j).Filed)
      (fun _ c => c.moves = true) where
  arrive := by
    intro w call prog w' hI hmoves harr
    obtain ⟨rfl, rfl⟩ := Server.admit_ok harr
    exact ⟨hI, prog_moves serde hmoves, fun _ h => h⟩
  call := by
    intro w c hI hmoves hcur
    exact ⟨perform_filed hmoves hcur hI, fun _ h => h⟩
  drift := by
    intro w now hI _
    exact ⟨hI.congr ⟨rfl, rfl, rfl, rfl, rfl, rfl⟩, fun _ h => h⟩

/-- **Document and index agree** in every state of every interleaving of
these calls in which each write lands on the document it was computed
from. -/
theorem document_and_index_agree {serde : Serde} {p p' : Pool Req Resp Reply Server}
    (hclients : p.clients = []) {j : String} (hstart : (cardOf p.world.store j).Filed)
    (h : Reaches (Pool.next (machine serde)) unraced.Met p p') : Agrees p'.world.store j :=
  agrees_of_filed ((upholds_filed serde j).sound (Pool.sound_start hclients hstart) h).world

def errand : NewJob :=
  ⟨"q", "task", [], 0, 0, 3, 1000, none, none, none, [], none, none, none, none, none⟩

def Server.withErrand : Server :=
  ⟨Store.empty.exec (insertOps (errand.intoJob "job" 0) []), [("job", [])], [], ["job"]⟩

theorem withErrand_filed : (cardOf Server.withErrand.store "job").Filed := by
  have hblank : (cardOf Store.empty "job").Filed :=
    ⟨fun d hd => (by cases hd), fun _ => rfl, fun _ => rfl,
      fun _ h => absurd h Bool.false_ne_true, fun _ h => absurd h Bool.false_ne_true,
      fun h => absurd h Bool.false_ne_true⟩
  exact insert_filed (errand.intoJob "job" 0) hblank rfl rfl rfl

/-- No blob is read where nobody dies. -/
def noSerde : Serde := ⟨fun _ => none, fun _ => ""⟩

/-- Only the calls in question are made. -/
abbrev listedCalls : Terms Call Int Req Server where
  arrive _ call := call.moves = true
  call _ _ := True
  drift _ _ := True

/-- `update_progress` reads, a `dequeue` claims, `update_progress` writes: the
job says it is pending, and is in no set of pending jobs. -/
theorem progress_undoes_dequeue : ∃ p, Reaches (Pool.next (machine noSerde)) listedCalls.Met
    ⟨.withErrand, []⟩ p ∧ p.Quiet ∧ ¬ Agrees p.world.store "job" := by
  refine exists_reached_imp (P := fun p => p.Quiet ∧
      (p.world.store.jobs.find "job").any (fun d => d.status = .pending) = true ∧
      p.world.store.sets.sismember (.status .pending) "job" = false)
    [.arrive (.updateProgress "job" 50 none), .step 0, .arrive (.dequeueBatch "q" 10 none 1),
      .step 1, .step 0] ?_
  rintro p - ⟨hquiet, hdoc, hset⟩
  refine ⟨hquiet, fun hagrees => ?_⟩
  obtain ⟨d, hd, hpending⟩ := (Option.any_eq_true _ _).mp hdoc
  have hin := ((hagrees.pending d hd).mp (of_decide_eq_true hpending)).1
  rw [hset] at hin
  cases hin

theorem errand_agrees : ∃ p, Reaches (Pool.next (machine noSerde)) unraced.Met
    ⟨.withErrand, []⟩ p ∧ (p.world.store.jobs.find "job").any (fun d => d.retryCount = 1) = true ∧
      Agrees p.world.store "job" := by
  refine exists_reached_and [.arrive (.dequeueBatch "q" 10 none 1), .step 0,
    .arrive (.updateProgress "job" 50 none), .step 1, .arrive (.requeueStuck "job" 20), .step 1,
    .step 2, .arrive (.retry "job" 30 none), .step 3, .step 3] ?_
  exact fun p hrun _ => document_and_index_agree rfl withErrand_filed hrun

end FlexiQ.Redis
