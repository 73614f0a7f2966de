/-
# `Redis.Moves` — what the calls that move a job make of its card

The calls that start a job, send it back, rewrite it or archive it write its
document and its index entries together.  `perform_moved` says what a request
of theirs can make of the card of any job, if the document it carries is still
the stored one: the eight shapes of `Moved`.  What is preserved by each shape
is preserved by each request.
-/
import FlexiQ.Redis.Issues
import FlexiQ.Redis.Touch

namespace FlexiQ.Redis

open FlexiQ.Lib FlexiQ.Step FlexiQ.Sql

/-! ## Cards that agree on document and index -/

structure Card.Alike (card card' : Card) : Prop where
  doc : card'.doc = card.doc
  gone : card'.gone = card.gone
  status : card'.status = card.status
  queued : card'.queued = card.queued
  byQueue : card'.byQueue = card.byQueue
  byTask : card'.byTask = card.byTask

theorem Card.Alike.refl (card : Card) : card.Alike card := ⟨rfl, rfl, rfl, rfl, rfl, rfl⟩

theorem Card.alike_asserted (card : Card) (clock : Int) (j owner : String) (now : Int)
    (epoch : Option Int) : card.Alike (card.asserted clock j owner now epoch) := by
  unfold Card.asserted
  split
  · exact .refl card
  · exact ⟨rfl, rfl, rfl, rfl, rfl, rfl⟩

/-- A job is in the set of its document's status, and in no other. -/
def Card.Listed (card : Card) : Prop :=
  ∀ st, card.status st = card.doc.any (fun d => d.status = st)

namespace Card.Listed

variable {card : Card} {read job : Job} {queue : String}

theorem taken_out {α : Type} [DecidableEq α] (a b : α) :
    (decide (a ≠ b) && decide (b = a)) = false := by
  by_cases h : a = b
  · simp [h]
  · simp [Ne.symm h]

section Over

variable (h : card.Listed) (hdoc : card.doc = some read)

include h hdoc

theorem rewritten (hstatus : job.status = read.status) :
    ({ card with doc := some job } : Card).Listed := by
  intro st
  show card.status st = decide (job.status = st)
  rw [h, hdoc, hstatus]
  rfl

theorem returned (hpending : job.status = .pending) : (card.returned job read.status).Listed := by
  intro st
  show (decide (st = .pending) || (decide (st ≠ read.status) && card.status st)) =
    decide (job.status = st)
  rw [h, hdoc, Option.any_some, taken_out, hpending]
  simp [eq_comm]

theorem requeued_status (revoke : Bool) :
    (card.requeued job read.status revoke).status = (card.returned job read.status).status := by
  unfold Card.requeued
  split
  · next hold =>
    funext st
    show card.status st =
      (decide (st = .pending) || (decide (st ≠ read.status) && card.status st))
    rw [h, hdoc, Option.any_some, taken_out, hold]
    simp [eq_comm]
  · rfl

theorem requeued (hpending : job.status = .pending) (revoke : Bool) :
    (card.requeued job read.status revoke).Listed := by
  intro st
  rw [h.requeued_status hdoc revoke]
  exact h.returned hdoc hpending st

theorem started (hread : read.status = .pending) (hrunning : job.status = .running) :
    (card.started job queue).Listed := by
  intro st
  show (decide (st = .running) || (decide (st ≠ .pending) && card.status st)) =
    decide (job.status = st)
  rw [h, hdoc, Option.any_some, hread, taken_out, hrunning]
  simp [eq_comm]

theorem shelved : (card.shelved job read.status).Listed := by
  intro st
  show (decide (st ≠ read.status) && card.status st) = false
  rw [h, hdoc, Option.any_some, taken_out]

end Over

theorem congr {card' : Card} (h : card.Listed) (hsame : card.Alike card') : card'.Listed := by
  intro st
  rw [hsame.status, hsame.doc]
  exact h st

end Card.Listed

/-! ## The shapes -/

/-- The requests of the calls that move a job, and the reads. -/
def Req.moves : Req → Bool
  | .selectAndClaim .. | .claimPending .. | .archive .. | .requeue .. | .setIfLive ..
  | .requestCancel _ | .requeueStuck .. | .releaseUnique _ | .sleep .. => true
  | c => c.reads

/-- Those, and the move to the dead letters. -/
def Req.transits : Req → Bool
  | .deadLetter .. => true
  | c => c.moves

theorem transits_of_moves {c : Req} (h : c.moves = true) : c.transits = true := by
  cases c <;> first | rfl | exact h

def StepReply.isOk : StepReply → Bool
  | .ok => true
  | _ => false

/-- The answer says that job `j` was settled or sent back to pending. -/
def Req.takesBack : (c : Req) → Resp c → String → Bool
  | .archive read .., _, j => read.id = j
  | .deadLetter read .., moved, j => moved && read.id = j
  | .requeue read .., _, j => read.id = j
  | .requeueStuck read _, moved, j => moved && read.id = j
  | .sleep step .., reply, j => StepReply.isOk reply && step.jobId = j
  | _, _, _ => false

/-- What a request makes of a card; the flag says whether it takes the job
back. -/
inductive Moved (card : Card) : Bool → Card → Prop
  | alike {card' : Card} (hsame : card.Alike card') : Moved card false card'
  | rewritten {read job : Job} (hdoc : card.doc = some read) (hstatus : job.status = read.status)
      (hqueue : job.queue = read.queue) (htask : job.taskName = read.taskName) :
      Moved card false { card with doc := some job }
  | pruned (queue : String) (hdoc : card.doc = none) :
      Moved card false { card with queued := fun q => q ≠ queue && card.queued q }
  | started {read job : Job} {queue : String} (hdoc : card.doc = some read)
      (hread : read.status = .pending) (hqueued : card.queued queue = true)
      (hrunning : job.status = .running) (hqueue : job.queue = read.queue)
      (htask : job.taskName = read.taskName) : Moved card false (card.started job queue)
  | returned {card' : Card} {read job : Job} (hsame : card.Alike card')
      (hdoc : card.doc = some read) (hpending : job.status = .pending)
      (hqueue : job.queue = read.queue) (htask : job.taskName = read.taskName) :
      Moved card true (card'.returned job read.status)
  | requeued {read job : Job} (revoke : Bool) (hdoc : card.doc = some read)
      (hpending : job.status = .pending) (hqueue : job.queue = read.queue)
      (htask : job.taskName = read.taskName) :
      Moved card true (card.requeued job read.status revoke)
  | shelved {read job : Job} (hdoc : card.doc = some read) (hqueue : job.queue = read.queue)
      (htask : job.taskName = read.taskName) : Moved card true (card.shelved job read.status)

theorem Moved.refl (card : Card) : Moved card false card := .alike (.refl card)

theorem Moved.branch {card card' : Card} {p : Prop} [Decidable p] (back : Bool)
    (h : p → Moved card back card') :
    Moved card (back && decide p) (if p then card' else card) := by
  split
  · next hp =>
    rw [decide_eq_true hp, Bool.and_true]
    exact h hp
  · next hp =>
    rw [decide_eq_false hp, Bool.and_false]
    exact .refl card

theorem Card.Listed.moved {card card' : Card} {back : Bool} (h : card.Listed)
    (hmoved : Moved card back card') : card'.Listed := by
  cases hmoved with
  | alike hsame => exact h.congr hsame
  | rewritten hdoc hstatus => exact h.rewritten hdoc hstatus
  | pruned => exact h
  | started hdoc hread _ hrunning => exact h.started hdoc hread hrunning
  | returned hsame hdoc hpending =>
    exact (h.congr hsame).returned (hsame.doc.trans hdoc) hpending
  | requeued revoke hdoc hpending => exact h.requeued hdoc hpending revoke
  | shelved hdoc => exact h.shelved hdoc

/-! ## One request -/

theorem sleepRow_not_ok {hash : StepHash} {step : NewJobStep} {jobNs : String}
    {limits : StepLimits} {stored : Bool} {deadline now : Int} {reply : StepReply}
    (h : sleepRow hash step jobNs limits stored deadline now = .error reply) :
    reply.isOk = false := by
  have hnew : ∀ {r}, checkNewRow hash step limits.maxSteps = some r → r.isOk = false := by
    intro r hr
    unfold checkNewRow at hr
    repeat' split at hr
    all_goals cases hr
    all_goals rfl
  unfold sleepRow at h
  repeat' split at h
  all_goals cases h
  all_goals first
    | rfl
    | exact hnew ‹_›

theorem sleep_moved {s : Store} {j : String} {step : NewJobStep} {owner : String} {attempt : Int}
    {epoch : Option Int} {limits : StepLimits} {scope : Scope} {read : Job} {stored : Bool}
    {deadline now : Int} (hread : s.jobs.find step.jobId = some read) :
    Moved (cardOf s j)
      ((sleepScript s step owner attempt epoch limits scope read stored deadline now).1.isOk &&
        decide (step.jobId = j))
      (cardOf (sleepScript s step owner attempt epoch limits scope read stored deadline now).2
        j) := by
  rcases sleepScript_spec (s := s) step owner attempt epoch limits scope read stored deadline now
    with heq | ⟨jobNs, s₁, hfence, hrest⟩
  · rw [heq]
    exact .refl _
  obtain ⟨-, hclock, hcard⟩ := fence_card hfence
  -- Behind the fence only the claim has changed.
  have hsame : ∀ k, (cardOf s k).Alike (cardOf s₁ k) := by
    intro k
    rw [hcard k]
    split
    · exact Card.alike_asserted _ _ _ _ _ _
    · exact .refl _
  rcases hrest with ⟨reply, hrow, heq⟩ | ⟨hash, hrow, heq⟩
  · rw [heq, sleepRow_not_ok hrow, Bool.false_and]
    exact .alike (hsame j)
  · have hhash : (hash.refreshed now).jobId = step.jobId :=
      (sleepRow_jobId hrow).trans (stepHash_jobId s₁ step.jobId)
    rw [heq, sleep_card hhash read deadline (Table.key_of_find hread)]
    by_cases hj : step.jobId = j
    · subst hj
      rw [if_pos rfl, decide_eq_true rfl]
      have hsteps : (cardOf s step.jobId).Alike
          ((cardOf s₁ step.jobId).withSteps s₁.clock (hash.refreshed now)) := by
        obtain ⟨hdoc, hgone, hstatus, hqueued, hbyQueue, hbyTask⟩ := hsame step.jobId
        exact ⟨hdoc, hgone, hstatus, hqueued, hbyQueue, hbyTask⟩
      exact .returned hsteps hread rfl rfl rfl
    · rw [if_neg hj, decide_eq_false hj, Bool.and_false]
      exact .alike (hsame j)

theorem ending_place (ending : Ending) (read : Job) (now : Int) :
    (ending.of read now).queue = read.queue ∧ (ending.of read now).taskName = read.taskName := by
  cases ending with
  | cancel error => cases error <;> exact ⟨rfl, rfl⟩
  | _ => exact ⟨rfl, rfl⟩

/-- **What a request makes of a card**, its own job's or another's, if the
document it carries is still the stored one. -/
theorem perform_moved {s : Store} {c : Req} {j : String} (hc : c.transits = true)
    (hcur : Current s c) (h : (cardOf s j).Listed) :
    Moved (cardOf s j) (c.takesBack (perform c s).1 j) (cardOf (perform c s).2 j) := by
  cases c with
  | selectAndClaim queue now ns max =>
    have hscan := selectAndClaim_card (s := s) (j := j) queue now ns max
    generalize cardOf (perform (.selectAndClaim queue now ns max) s).2 j = card at hscan
    cases hscan with
    | same => exact .refl _
    | pruned hdoc => exact .pruned queue hdoc
    | started hdoc hjob _ hqueued => exact .started hdoc hjob hqueued rfl rfl rfl
  | claimPending queue read =>
    rw [claimPending_card]
    refine .branch false ?_
    rintro ⟨rfl, hpending⟩
    obtain ⟨hdoc, hlisted⟩ := hcur _ rfl
    have hdoc : (cardOf s read.id).doc = some read := hdoc
    rw [h, hdoc] at hpending
    exact .started hdoc (of_decide_eq_true hpending) (hlisted _ rfl) rfl rfl rfl
  | archive read ending now =>
    rw [archive_card]
    refine .branch true ?_
    rintro rfl
    obtain ⟨hqueue, htask⟩ := ending_place ending read now
    exact .shelved (hcur _ rfl).1 hqueue htask
  | deadLetter read entry error now =>
    have hdoc : s.jobs.find read.id = some read := (hcur _ rfl).1
    have hreply : (perform (.deadLetter read entry error now) s).1 = true := by
      show (deadLetterTx s read entry error now).1 = true
      unfold deadLetterTx
      rw [hdoc]
    show Moved _ (((perform (.deadLetter read entry error now) s).1 : Bool) &&
      decide (read.id = j)) _
    rw [deadLetter_card, hreply, Bool.true_and]
    by_cases hj : read.id = j
    · subst hj
      have hlive : (cardOf s read.id).doc = some read := hdoc
      rw [if_pos ⟨rfl, by rw [hlive]; rfl⟩, decide_eq_true rfl]
      exact .shelved hlive rfl rfl
    · rw [if_neg (fun hhit => hj hhit.1), decide_eq_false hj]
      exact .refl _
  | requeue read nextAt bump =>
    rw [requeue_card]
    refine .branch true ?_
    rintro rfl
    have hdoc : (cardOf s read.id).doc = some read := (hcur _ rfl).1
    refine .requeued bump hdoc ?_ ?_ ?_ <;> cases bump <;> rfl
  | setIfLive =>
    rw [setIfLive_card]
    refine .branch false ?_
    rintro ⟨rfl, -⟩
    exact .rewritten (hcur _ rfl).1 rfl rfl rfl
  | requestCancel =>
    rw [requestCancel_card]
    refine .branch false ?_
    rintro ⟨rfl, -⟩
    exact .rewritten (hcur _ rfl).1 rfl rfl rfl
  | requeueStuck read now =>
    have hreply : (perform (.requeueStuck read now) s).1 =
        s.sets.sismember (.status .running) read.id := ifMember_fst _ _ _ _
    show Moved _ (((perform (.requeueStuck read now) s).1 : Bool) && decide (read.id = j)) _
    rw [requeueStuck_card, hreply]
    by_cases hj : read.id = j
    · subst hj
      have hdoc : (cardOf s read.id).doc = some read := (hcur _ rfl).1
      by_cases hrunning : (cardOf s read.id).status .running = true
      · have hstatus : read.status = .running := by
          rw [h, hdoc] at hrunning
          exact of_decide_eq_true hrunning
        rw [if_pos ⟨rfl, hrunning⟩, decide_eq_true rfl, Bool.and_true,
          show s.sets.sismember (.status .running) read.id = true from hrunning, ← hstatus]
        exact .returned (.refl _) hdoc rfl rfl rfl
      · rw [if_neg (fun hhit => hrunning hhit.2),
          show s.sets.sismember (.status .running) read.id = false from
            Bool.eq_false_iff.mpr hrunning]
        exact .refl _
    · rw [if_neg (fun hhit => hj hhit.1), decide_eq_false hj, Bool.and_false]
      exact .refl _
  | releaseUnique =>
    rw [releaseUnique_card]
    exact .refl _
  | sleep step owner attempt epoch limits scope read =>
    have hread : s.jobs.find step.jobId = some read := (hcur _ rfl).1
    exact sleep_moved hread
  | _ =>
    first
      | exact .refl _
      | cases hc

end FlexiQ.Redis
