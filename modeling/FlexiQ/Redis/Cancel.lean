/-
# `Redis.Cancel` — handed out, or cancelled

`cancel_job`, the cascade and the sweeps look at a document, decide that it is
pending, and archive it with a pipeline that asks nothing; `expire_pending_jobs`
decides from its membership in the pending set alone.  The claim script may
run in between, and the caller of `dequeue_batch` then holds a job that is in
the archive as cancelled (`cancel_of_a_claimed_job`).
-/
import FlexiQ.Redis.Agree

namespace FlexiQ.Redis

open List FlexiQ.Lib FlexiQ.Step FlexiQ.Sql

/-! ## The observer -/

def Req.handsOut : (c : Req) → Resp c → List String
  | .selectAndClaim .., selected => (Selected.claimed selected).map Job.id
  | .claimPending _ read _, claimed => cond claimed [read.id] []
  | _, _ => []

/-- The job a request archives as cancelled, where nobody asked the worker. -/
def Req.cancels : Req → Option String
  | .archive read (.cancel _) _ _ => some read.id
  | _ => none

/-- The jobs that are out, and those that were cancelled while they were. -/
structure Handed where
  out : List String
  both : List String
  deriving DecidableEq

def handedOut : Observer Call Int Req Resp Server Handed where
  call c r _ _ g :=
    { out := c.handsOut r ++ g.out.filter fun j => !c.takesBack r j
      both := (c.cancels.filter (· ∈ g.out)).toList ++ g.both }

/-! ## What the claims hand out is running -/

theorem selectOne_running {queue : String} {now : Int} {ns : Scope} {s : Store}
    {out : Selected} {id : String} {job : Job}
    (h : job ∈ (selectOne queue now ns s out id).1.claimed) :
    job ∈ out.claimed ∨ (job.id = id ∧
      (selectOne queue now ns s out id).2.jobs.find job.id = some job ∧ job.status = .running) := by
  unfold selectOne at h ⊢
  cases hjob : loadJob s id with
  | none =>
    rw [hjob] at h
    exact Or.inl h
  | some old =>
    rw [hjob] at h
    dsimp only at h ⊢
    split at h
    · exact Or.inl h
    split at h
    · exact Or.inl h
    split at h
    · split at h
      · next hworth hlive hfree hpatch =>
        rcases mem_append.mp h with h | h
        · exact Or.inl h
        obtain rfl := mem_singleton.mp h
        have hkey : old.id = id := Table.key_of_find hjob
        refine Or.inr ⟨hkey, ?_, rfl⟩
        rw [if_neg hworth, if_neg hlive, if_pos hfree, if_pos hpatch]
        have hcard : cardOf (s.exec (claimOps queue (old.startedBy now))) old.id =
            (cardOf s old.id).started (old.startedBy now) queue := by
          rw [exec_card, claimOps_card, if_pos (show (old.startedBy now).id = old.id from rfl)]
        exact congrArg Card.doc hcard
      · exact Or.inl h
    · exact Or.inl h

/-- What the script has claimed stays as it was claimed: no candidate comes
twice. -/
theorem selectAndClaim_running {queue : String} {now : Int} {ns : Scope} {max : Nat} :
    ∀ {ids : List String} {s : Store} {out : Selected}, ids.Nodup →
      (∀ job ∈ out.claimed, job.id ∉ ids ∧ s.jobs.find job.id = some job ∧ job.status = .running) →
      ∀ job ∈ (selectAndClaim queue now ns max s out ids).1.claimed,
        (selectAndClaim queue now ns max s out ids).2.jobs.find job.id = some job ∧
          job.status = .running
  | [], _, _, _, hout => fun job hjob => (hout job hjob).2
  | id :: ids, s, out, hnodup, hout => by
    obtain ⟨hid, hnodup⟩ := nodup_cons.mp hnodup
    rw [selectAndClaim]
    split
    · exact fun job hjob => (hout job hjob).2
    refine selectAndClaim_running hnodup fun job hjob => ?_
    rcases selectOne_running hjob with hold | ⟨hkey, hfind, hrunning⟩
    · obtain ⟨hnot, hfind, hrunning⟩ := hout job hold
      rw [mem_cons, not_or] at hnot
      have hsame : cardOf (selectOne queue now ns s out id).2 job.id = cardOf s job.id :=
        selectOne_other out (Ne.symm hnot.1)
      have hdoc : (cardOf (selectOne queue now ns s out id).2 job.id).doc = some job := by
        rw [hsame]
        exact hfind
      exact ⟨hnot.2, hdoc, hrunning⟩
    · rw [hkey]
      exact ⟨hid, hkey ▸ hfind, hrunning⟩

theorem handsOut_running {s : Store} {c : Req} (hcur : Current s c) :
    ∀ j ∈ c.handsOut (perform c s).1, ((perform c s).2.jobs.find j).any
      (fun d => d.status = .running) = true := by
  intro j hj
  cases c with
  | selectAndClaim queue now ns max =>
    obtain ⟨job, hjob, rfl⟩ := mem_map.mp hj
    obtain ⟨hfind, hrunning⟩ := selectAndClaim_running (window_spec s queue max).1
      (fun _ hmem => (by cases hmem)) job hjob
    show ((selectAndClaim queue now ns max s ⟨[], [], []⟩ (window s queue max)).2.jobs.find
      job.id).any _ = true
    rw [hfind]
    exact decide_eq_true hrunning
  | claimPending queue read now =>
    have hreply : (perform (.claimPending queue read now) s).1 =
        s.sets.sismember (.status .pending) read.id := ifMember_fst _ _ _ _
    rw [hreply] at hj
    cases hmem : s.sets.sismember (.status .pending) read.id with
    | true =>
      rw [hmem] at hj
      obtain rfl := mem_singleton.mp hj
      have hcard := claimPending_card (s := s) (j := read.id) queue read now
      rw [if_pos ⟨rfl, hmem⟩] at hcard
      have hdoc : (perform (.claimPending queue read now) s).2.jobs.find read.id =
          some (read.startedBy now) := congrArg Card.doc hcard
      rw [hdoc]
      rfl
    | false =>
      rw [hmem] at hj
      cases hj
  | _ => cases hj

/-! ## Every interleaving -/

def Req.hands : Req → Prop
  | .archive read (.cancel _) _ listed =>
    read.status = .pending ∨ listed = some (.set (.status .pending))
  | .cmd (.zrem (.pending _) _) => True
  | c => c.transits = true

def Call.hands : Call → Bool
  | .cascadeCancel .. | .expirePendingJobs _ | .cancelPendingByQueue .. | .cancelPendingByTask ..
  | .fail .. | .markCancelled .. | .deadLetter .. => true
  | call => call.moves

theorem hands_of_reads (c : Req) (h : c.reads = true) : c.hands := by
  cases c <;> first | rfl | cases h

open Code in
theorem prog_hands (serde : Serde) {call : Call} (h : call.hands = true) :
    (call.prog serde).Sat Req.hands fun _ => True := by
  have hr := hands_of_reads
  cases call with
  | retry | reschedule => exact requeue_sat hr _ _ _ _ fun _ => rfl
  | sleepJob => exact sleepRounds_sat hr _ _ _ _ _ _ _ _ (fun _ _ _ => rfl) 3
  | requeueStuck => exact requeueStuck_sat hr _ _ fun _ => rfl
  | requestCancel => exact requestCancel_sat hr _ _ fun _ => rfl
  | updateProgress => exact updateProgress_sat hr _ _ _ fun _ => rfl
  | cancelJob => exact cancelJob_sat hr _ _ _ _ fun _ _ hp => Or.inl hp
  | complete => exact complete_sat hr _ _ _ _ (fun _ _ => rfl) fun _ => rfl
  | dequeueBatch =>
    exact dequeueBatch_sat hr _ _ _ _ rfl (fun _ hp => Or.inl hp) fun _ => rfl
  | cascadeCancel =>
    exact Prog.Sat.bind (cascadeCancel_sat hr _ _ _ _ _
      fun _ _ hp => Or.inl hp) fun _ _ => trivial
  | expirePendingJobs =>
    exact sweep_sat hr _ _ _ _ (fun _ _ => trivial) fun _ _ => Or.inr rfl
  | cancelPendingByQueue | cancelPendingByTask =>
    exact sweep_sat hr _ _ _ _ (fun _ _ => trivial)
      fun _ hp => Or.inl (of_decide_eq_true hp)
  | fail => exact fail_sat hr _ _ _ fun _ _ => rfl
  | markCancelled => exact markCancelled_sat hr _ _ _ fun _ => rfl
  | deadLetter =>
    exact deadLetter_sat hr _ _ _ _ _ _ _ _ rfl fun _ _ hp => Or.inl hp
  | _ => cases h

theorem hands_cases {c : Req} (h : c.hands) :
    c.transits = true ∨ ∃ queue id, c = .cmd (.zrem (.pending queue) id) := by
  cases c with
  | cmd c =>
    cases c with
    | zrem key id =>
      cases key with
      | pending queue => exact Or.inr ⟨queue, id, rfl⟩
      | _ => cases h
    | _ => cases h
  | archive => exact Or.inl rfl
  | _ => exact Or.inl h

theorem Moved.running {card card' : Card} (hmoved : Moved card false card')
    (h : card.doc.any (fun d => d.status = .running) = true) :
    card'.doc.any (fun d => d.status = .running) = true := by
  cases hmoved with
  | alike hsame =>
    rw [hsame.doc]
    exact h
  | rewritten hdoc hstatus =>
    rw [hdoc] at h
    exact decide_eq_true (hstatus.trans (of_decide_eq_true h))
  | pruned => exact h
  | started hdoc hread hqueued hrunning => exact decide_eq_true hrunning

/-- What is out is running, and nothing that was out was cancelled. -/
structure Exclusive (w : Server × Handed) : Prop where
  listed : ∀ j, (cardOf w.1.store j).Listed
  running : ∀ j ∈ w.2.out, (w.1.store.jobs.find j).any (fun d => d.status = .running) = true
  both : w.2.both = []

section

variable {w : Server × Handed} {c : Req} (h : Exclusive w) (hc : c.hands)
  (hcur : Current w.1.store c)
include h hc hcur

/-- A cancel that lands on what its client read does not meet a job that is
out. -/
theorem cancels_pending : ∀ j ∈ c.cancels, j ∉ w.2.out := by
  intro j hj hout
  cases c with
  | archive read ending =>
    cases ending with
    | cancel =>
      cases hj
      obtain ⟨hdoc, hlisting⟩ := hcur _ rfl
      have hdoc : w.1.store.jobs.find read.id = some read := hdoc
      have hpending : read.status = .pending := by
        rcases hc with hread | rfl
        · exact hread
        · have hmem : (cardOf w.1.store read.id).status .pending = true := hlisting _ rfl
          rw [h.listed, show (cardOf w.1.store read.id).doc = some read from hdoc] at hmem
          exact of_decide_eq_true hmem
      have hrunning := h.running read.id hout
      rw [hdoc] at hrunning
      exact absurd (hpending.symm.trans (of_decide_eq_true hrunning)) (by decide)
    | _ => cases hj
  | _ => cases hj

theorem perform_exclusive : Exclusive ((w.1.perform c).2,
      handedOut.call c (w.1.perform c).1 w.1 (w.1.perform c).2 w.2) := by
  -- The status sets follow the documents, and a job that is out stays running.
  have hstep : ∀ j, (cardOf (perform c w.1.store).2 j).Listed ∧
      (c.takesBack (perform c w.1.store).1 j = false →
        (cardOf w.1.store j).doc.any (fun d => d.status = .running) = true →
        (cardOf (perform c w.1.store).2 j).doc.any (fun d => d.status = .running) = true) := by
    intro j
    rcases hands_cases hc with htransits | ⟨queue, id, rfl⟩
    · have hmoved := perform_moved htransits hcur (h.listed j)
      refine ⟨(h.listed j).moved hmoved, fun hstays => ?_⟩
      rw [hstays] at hmoved
      exact hmoved.running
    · have hcard : cardOf (perform (.cmd (.zrem (.pending queue) id)) w.1.store).2 j =
          (cardOf w.1.store j).zrem j (.pending queue) id := exec_card j _ _
      rw [hcard, Card.zrem]
      split <;> exact ⟨h.listed j, fun _ hrunning => hrunning⟩
  refine ⟨fun j => (hstep j).1, ?_, ?_⟩
  · intro j hj
    rcases mem_append.mp hj with hj | hj
    · exact handsOut_running hcur j hj
    · obtain ⟨hj, hstays⟩ := mem_filter.mp hj
      exact (hstep j).2 (Bool.not_eq_true' _ ▸ hstays) (h.running j hj)
  · have hnone : c.cancels.filter (· ∈ w.2.out) = none := by
      rw [Option.filter_eq_none_iff]
      intro j hj hmem
      exact cancels_pending h hc hcur j hj (of_decide_eq_true hmem)
    show (c.cancels.filter (· ∈ w.2.out)).toList ++ w.2.both = []
    rw [hnone, h.both]
    rfl

end

/-- Only the calls in question are made, and every write lands on what its
client read. -/
abbrev unracedHands : Terms Call Int Req Server where
  arrive _ call := call.hands = true
  call w c := Current w.store c
  drift _ _ := True

theorem upholds_exclusive (serde : Serde) :
    Upholds ((machine serde).watched handedOut) unracedHands.watched Exclusive
      (fun _ c => c.hands) where
  arrive := by
    intro w call prog w' hI hhands harr
    obtain ⟨server, g'⟩ := w'
    obtain ⟨hadmits, rfl⟩ := Service.watched_arrive harr
    obtain ⟨rfl, rfl⟩ := Server.admit_ok hadmits
    exact ⟨⟨hI.listed, hI.running, hI.both⟩, prog_hands serde hhands, fun _ h => h⟩
  call := by
    intro w c hI hc hcur
    exact ⟨perform_exclusive hI hc hcur, fun _ h => h⟩
  drift := by
    intro w now hI _
    exact ⟨⟨hI.listed, hI.running, hI.both⟩, fun _ h => h⟩

/-- **Handed out or cancelled, never both**, in every interleaving in which each
write lands on what its client read. -/
theorem handed_out_or_cancelled {serde : Serde}
    {p p' : Pool Req Resp Reply (Server × Handed)} (hclients : p.clients = [])
    (hlisted : ∀ j, (cardOf p.world.1.store j).Listed) (hobserver : p.world.2 = ⟨[], []⟩)
    (h : Reaches (Pool.next ((machine serde).watched handedOut)) unracedHands.watched.Met p p') :
    p'.world.2.both = [] ∧ ∀ j ∈ p'.world.2.out,
      (p'.world.1.store.jobs.find j).any (fun d => d.status = .running) = true := by
  have hstart : Exclusive p.world := by
    refine ⟨hlisted, ?_, ?_⟩
    · rw [hobserver]
      exact fun j hj => (by cases hj)
    · rw [hobserver]
  have hsound := (upholds_exclusive serde).sound (Pool.sound_start hclients hstart) h
  exact ⟨hsound.world.both, hsound.world.running⟩

/-- Only the calls in question are made. -/
abbrev handCalls : Terms Call Int Req Server where
  arrive _ call := call.hands = true
  call _ _ := True
  drift _ _ := True

theorem withErrand_listed (j : String) : (cardOf Server.withErrand.store j).Listed := by
  intro st
  rw [Server.withErrand, exec_card, insertOps_card]
  split
  · next hj =>
    subst hj
    exact (Bool.or_false _).trans (decide_eq_decide.mpr eq_comm)
  · rfl

/-- `cancel_job` reads a pending job, a dequeue claims and returns it, and
`cancel_job` archives it: the worker runs a job that is cancelled. -/
theorem cancel_of_a_claimed_job : ∃ p, Reaches
    (Pool.next ((machine noSerde).watched handedOut)) handCalls.watched.Met
    ⟨(.withErrand, ⟨[], []⟩), []⟩ p ∧ p.Quiet ∧
      p.result 1 = some (.dequeued [(errand.intoJob "job" 0).startedBy 10] []) ∧
      (p.world.1.store.archived.find "job").any (fun d => d.status = .cancelled) = true ∧
      p.world.2.both = ["job"] :=
  exists_reached [.arrive (.cancelJob "job" none 20 5), .step 0,
    .arrive (.dequeueBatch "q" 10 none 1), .step 1, .step 0, .step 0]

theorem errand_handed_out : ∃ p, Reaches
    (Pool.next ((machine noSerde).watched handedOut)) unracedHands.watched.Met
    ⟨(.withErrand, ⟨[], []⟩), []⟩ p ∧ p.world.2.out = ["job"] ∧ p.world.2.both = [] := by
  refine exists_reached_and [.arrive (.dequeueBatch "q" 10 none 1), .step 0,
    .arrive (.cancelJob "job" none 20 5), .step 1] ?_
  exact fun p hrun _ => (handed_out_or_cancelled rfl withErrand_listed rfl hrun).1

end FlexiQ.Redis
