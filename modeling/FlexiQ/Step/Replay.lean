/-
# `Step.Replay` — durable steps survive any number of crashes

Attempts of one job follow one another.  Each opens a session on the rows
the earlier ones left, issues the body in an order of its own (`Step.Body`),
and may die before a closure, between a closure and its commit, after a
commit, or between two calls.  Between calls the rest of the database may
change in any way that leaves this job's step rows alone.

The invariant is the LAYOUT of the rows (`Lib.Layout`): they fill the body
block by block, each block complete before the next begins, in whatever order
the attempt that wrote them used.
-/
import FlexiQ.Lib.Layout
import FlexiQ.Lib.Runs
import FlexiQ.Step.Body
import FlexiQ.Step.Session
import Mathlib.Data.List.Infix

namespace FlexiQ.Step

open List FlexiQ.Lib FlexiQ.Sql StepSequence

variable {rows : List StepRow} {k : String} {seq : StepSequence}

/-! ## Histories -/

instance : DecidableRel Block.Reorder
  | .unkeyed name, .unkeyed name' =>
    decidable_of_iff (name = name')
      ⟨fun h => h ▸ .unkeyed name, fun h => by cases h; rfl⟩
  | .keyed steps, .keyed steps' =>
    decidable_of_iff (steps.Perm steps')
      ⟨.keyed, fun h => by cases h with | keyed h => exact h⟩
  | .unkeyed _, .keyed _ => isFalse (fun h => by cases h)
  | .keyed _, .unkeyed _ => isFalse (fun h => by cases h)

structure Attempt where
  session : StepSession
  todo : List StepCall

/-- The database, and the attempt running on it, if one is. -/
structure Replay where
  store : Store
  attempt : Option Attempt

inductive Move
  /-- An attempt begins, with an order of its own inside the keyed blocks. -/
  | begin (steps : StorageSteps) (job : Job) (runKey : String) (limits : StepLimits)
      (order : List Block)
  /-- The attempt issues its next call, with this closure. -/
  | call (closure : String → Result Bytes) (now : Int) (crash : Option CrashPoint)
  /-- The process dies between two calls. -/
  | die
  /-- The rest of the database changes. -/
  | elsewhere (store : Store)

section History

variable (jobId : String) (ns : Scope) (body : List Block)

def replayStep (r : Replay) : Move → Option Replay
  | .begin steps job runKey limits order =>
    if r.attempt.isNone ∧ job.id = jobId ∧ job.namespace = ns ∧
        List.Forall₂ Block.Reorder body order then
      match StepSession.open r.store steps job runKey limits with
      | .ok session => some { r with attempt := some ⟨session, order.flatMap Block.calls⟩ }
      | .error _ => none
    else none
  | .call closure now crash =>
    match r.attempt with
    | some ⟨session, c :: todo⟩ =>
      let res := session.call r.store c.name c.key closure now crash
      match res.outcome with
      | .returned _ => some ⟨res.store, some ⟨res.session, todo⟩⟩
      -- An error or a crash ends the attempt.
      | _ => some ⟨res.store, none⟩
    | _ => none
  | .die => if r.attempt.isSome then some { r with attempt := none } else none
  | .elsewhere store =>
    if stepsOf store jobId = stepsOf r.store jobId ∧
        ∀ job ∈ store.jobs.find jobId, job.namespace = ns then
      some { r with store := store }
    else none

end History

/-! ## The invariant -/

section Invariant

variable (ns : Scope) (body : List Block)

/-- The rows of the job: gapless, one per key, laid out along the body. -/
structure RowsInv (rows : List StepRow) : Prop where
  seq : ∀ (i : Nat) (row : StepRow), rows[i]? = some row → row.seq = i
  nodup : (rows.map StepRow.stepKey).Nodup
  runs : ∀ row ∈ rows, row.kind = .run ∧ row.namespace = ns
  layout : Layout (keyGroups (fun _ => 0) body) (rows.map StepRow.stepKey)
  count : rows.length ≤ maxStepsCeiling

structure AttemptInv (jobId : String) (rows : List StepRow) (a : Attempt) : Prop where
  job : a.session.jobId = jobId
  scope : a.session.namespace = ns
  progress : ∃ order consumed, List.Forall₂ Block.Reorder body order ∧
    order.flatMap Block.calls = consumed ++ a.todo ∧
    a.session.sequence.issued = keysFrom (fun _ => 0) consumed ∧
    a.session.sequence.occurrences = occAfter (fun _ => 0) consumed
  nodup : a.session.sequence.issued.Nodup
  walk : StepSequence.Walk a.session.sequence.issued a.session.sequence
  idle : a.session.sequence.pending = none
  stored : ∃ fresh, rows.map StepRow.toJobStep = a.session.sequence.recorded ++ fresh ∧
    ∀ row ∈ fresh, row.stepKey ∈ a.session.sequence.issued
  committed : ∀ k ∈ a.session.sequence.issued, k ∈ rows.map StepRow.stepKey
  count : a.session.sequence.storedCount = rows.length

variable {ns body}

theorem map_toJobStep_stepKey (rows : List StepRow) :
    (rows.map StepRow.toJobStep).map JobStep.stepKey = rows.map StepRow.stepKey := by
  rw [map_map]
  rfl

section

variable {jobId : String} {a : Attempt} (h : AttemptInv ns body jobId rows a)
include h

theorem AttemptInv.mem_rows {row : StepRow} (hrow : row ∈ rows) :
    row.toJobStep ∈ a.session.sequence.recorded ∨
      row.stepKey ∈ a.session.sequence.issued := by
  obtain ⟨fresh, hfresh, hissued⟩ := h.stored
  have hmem : row.toJobStep ∈ a.session.sequence.recorded ++ fresh := by
    rw [← hfresh]
    exact mem_map_of_mem hrow
  rcases mem_append.mp hmem with hm | hm
  · exact Or.inl hm
  · exact Or.inr (hissued _ hm)

theorem AttemptInv.of_recorded {step : JobStep}
    (hstep : step ∈ a.session.sequence.recorded) : ∃ row ∈ rows, row.toJobStep = step := by
  obtain ⟨fresh, hfresh, -⟩ := h.stored
  refine mem_map.mp ?_
  rw [hfresh]
  exact mem_append_left _ hstep

theorem AttemptInv.keys_eq : ∃ rest, rows.map StepRow.stepKey =
      a.session.sequence.recorded.map JobStep.stepKey ++ rest := by
  obtain ⟨fresh, hfresh, -⟩ := h.stored
  refine ⟨fresh.map JobStep.stepKey, ?_⟩
  rw [← map_toJobStep_stepKey, hfresh, map_append]

theorem AttemptInv.nextIs (hrows : RowsInv ns body rows) {c : StepCall}
    {todo : List StepCall} (htodo : a.todo = c :: todo) (hc : c.key = none)
    (hk : keyOf a.session.sequence.occurrences c.name c.key ∉
      a.session.sequence.issued) :
    NextIs a.session.sequence.issued a.session.sequence.recorded
      (keyOf a.session.sequence.occurrences c.name c.key) := by
  obtain ⟨order, consumed, horder, hcalls, hissued, hocc⟩ := h.progress
  rw [htodo] at hcalls
  obtain ⟨pre, g, post, hgroups, ⟨rest, hpre⟩, -, hsingle⟩ :=
    exists_group (fun _ => 0) hcalls
  rw [hsingle hc, ← hocc] at hgroups
  have hlayout : Layout (keyGroups (fun _ => 0) order) (rows.map StepRow.stepKey) :=
    hrows.layout.perm (keyGroups_reorder _ horder)
  rw [hgroups] at hlayout
  intro before row after hsplit hbefore hrow
  obtain ⟨tail, hkeys⟩ := h.keys_eq
  refine hlayout.next hk hrow (a := before.map JobStep.stepKey)
    (b := after.map JobStep.stepKey ++ tail) ?_ ?_ ?_
  · rw [hissued, hpre]
    exact fun x hx => mem_append_left _ hx
  · rw [hkeys, hsplit]
    simp
  · intro y hy
    obtain ⟨r, hr, rfl⟩ := mem_map.mp hy
    exact hbefore r hr

end

end Invariant

/-! ## One call -/

def committedRow (jobId : String) (ns : Scope) (position : Nat) (k : String)
    (encoded : Bytes) (now : Int) : StepRow :=
  NewJobStep.row ⟨jobId, position, k, .run, some encoded⟩ ns now

theorem stepsOf_append_self {s : Store} {jobId : String} (row : StepRow)
    (claims : Table String ClaimRow ClaimRow.jobId) (hrow : row.jobId = jobId) :
    stepsOf { s with claims := claims, steps := s.steps ++ [row] } jobId =
      stepsOf s jobId ++ [row] := by
  simp [stepsOf, filter_append, hrow]

/-- Committing new ground: refused by a cap or the fence with the store as it
was, or one row further. -/
theorem commitRun_new (sess : StepSession) {s : Store} (encoded : Bytes) (now : Int)
    (hpending : sess.sequence.pending = some ⟨sess.sequence.storedCount, k, .run⟩)
    (hcount : sess.sequence.storedCount = (stepsOf s sess.jobId).length)
    (hseq : ∀ (i : Nat) (row : StepRow), (stepsOf s sess.jobId)[i]? = some row → row.seq = i)
    (hkey : ∀ row ∈ stepsOf s sess.jobId, row.stepKey ≠ k) :
    (∃ e, sess.commitRun s ⟨sess.sequence.storedCount, k, .run⟩ encoded now = .error e ∧
        diverged e = false) ∨
      ∃ commit job claims, s.jobs.find sess.jobId = some job ∧
        (stepsOf s sess.jobId).length + 1 ≤ maxStepsCeiling ∧
        sess.commitRun s ⟨sess.sequence.storedCount, k, .run⟩ encoded now =
          .ok (commit,
            { sess with sequence := { sess.sequence with
                pending := none
                storedCount := sess.sequence.storedCount + 1
                storedBytes := sess.sequence.storedBytes + encoded.length } },
            { s with
              claims := claims
              steps := s.steps ++ [committedRow sess.jobId job.namespace
                (stepsOf s sess.jobId).length k encoded now] }) := by
  unfold StepSession.commitRun
  cases hcaps : sess.checkCaps ⟨sess.sequence.storedCount, k, .run⟩ encoded with
  | error e =>
    refine Or.inl ⟨e, rfl, ?_⟩
    unfold StepSession.checkCaps at hcaps
    simp only at hcaps
    repeat' split at hcaps
    all_goals cases hcaps
    all_goals rfl
  | ok _ =>
    have hfree : ∀ row ∈ stepsOf s sess.jobId, row.seq ≠ (sess.sequence.storedCount : Int) := by
      intro row hrow heq
      obtain ⟨i, hi⟩ := List.getElem?_of_mem hrow
      have hlt := (List.getElem?_eq_some_iff.mp hi).1
      rw [hseq i row hi, hcount] at heq
      omega
    rcases recordStepResult_new ⟨sess.jobId, sess.sequence.storedCount, k, .run, some encoded⟩
      sess.steps.owner sess.steps.attempt sess.steps.epoch sess.limits sess.namespace now
      hfree hkey (by rw [hcount]) with ⟨e, he, hdiv⟩ | ⟨job, claims, hjob, hceil, hok⟩
    · refine Or.inl ⟨e, ?_, hdiv⟩
      simp only [bind, Except.bind, he]
    · refine Or.inr ⟨.committed, job, claims, hjob, hceil, ?_⟩
      simp only [bind, Except.bind, hok, commit, hpending, if_true]
      rw [committedRow, ← hcount]
      rfl

section Call

variable {jobId : String} {ns : Scope} {body : List Block} {s : Store} {a : Attempt}
  {c : StepCall} {todo : List StepCall}

/-- What one call does, whatever the closure and the crash point. -/
structure CallSpec (jobId : String) (ns : Scope) (body : List Block) (s : Store)
    (a : Attempt) (k : String) (todo : List StepCall) (closure : String → Result Bytes)
    (res : CallResult) : Prop where
  rows : RowsInv ns body (stepsOf res.store jobId)
  jobs : res.store.jobs = s.jobs
  written : stepsOf res.store jobId = stepsOf s jobId ∨ ∃ row encoded,
    stepsOf res.store jobId = stepsOf s jobId ++ [row] ∧ row.stepKey = k ∧
      row.result = some encoded ∧
      closure (idempotencyKey a.session.runKey k) = .ok encoded
  answered : ∀ bytes, res.outcome = .returned bytes →
    ∃ row ∈ stepsOf res.store jobId, row.stepKey = k ∧ row.result.getD [] = bytes
  returned : ∀ bytes, res.outcome = .returned bytes →
    AttemptInv ns body jobId (stepsOf res.store jobId) ⟨res.session, todo⟩
  failed : ∀ e, res.outcome = .failed e → diverged e = true → ∃ key, closure key = .error e
  memo : ∀ row ∈ stepsOf s jobId, row.stepKey = k → res.invoked = false ∧
    (k ∉ a.session.sequence.issued → res.outcome = .returned (row.result.getD []))

theorem CallSpec.grows {closure : String → Result Bytes} {res : CallResult}
    (h : CallSpec jobId ns body s a k todo closure res) :
    stepsOf s jobId <+: stepsOf res.store jobId := by
  rcases h.written with hsame | ⟨row, -, happend, -⟩
  · rw [hsame]
  · rw [happend]
    exact prefix_append _ _

theorem CallSpec.of_unchanged (hrows : RowsInv ns body (stepsOf s jobId))
    {closure : String → Result Bytes} {invoked : Bool} {outcome : Outcome}
    {session : StepSession} (hret : ∀ bytes, outcome ≠ .returned bytes)
    (hfailed : ∀ e, outcome = .failed e → diverged e = true → ∃ key, closure key = .error e)
    (hmemo : ∀ row ∈ stepsOf s jobId, row.stepKey = k → invoked = false ∧
      k ∈ a.session.sequence.issued) :
    CallSpec jobId ns body s a k todo closure ⟨invoked, outcome, session, s⟩ where
  rows := hrows
  jobs := rfl
  written := .inl rfl
  answered := fun bytes h => absurd h (hret bytes)
  returned := fun bytes h => absurd h (hret bytes)
  failed := hfailed
  memo := fun row hrow hk =>
    ⟨(hmemo row hrow hk).1, fun hni => absurd (hmemo row hrow hk).2 hni⟩

structure Begun (a : Attempt) (c : StepCall) (k : String) (seq : StepSequence) : Prop where
  key : k = StepSequence.keyOf a.session.sequence.occurrences c.name c.key
  fresh : k ∉ a.session.sequence.issued
  issued : seq.issued = a.session.sequence.issued ++ [k]
  recorded : seq.recorded = a.session.sequence.recorded
  occurrences : seq.occurrences =
    StepSequence.spend a.session.sequence.occurrences c.name c.key
  storedCount : seq.storedCount = a.session.sequence.storedCount
  walk : StepSequence.Walk seq.issued seq

theorem AttemptInv.advance (ha : AttemptInv ns body jobId (stepsOf s jobId) a)
    (htodo : a.todo = c :: todo) {seq' : StepSequence} (hb : Begun a c k seq)
    (hseq : seq' = { seq with
      pending := none, storedCount := seq'.storedCount, storedBytes := seq'.storedBytes })
    (hstored : ∃ fresh, rows.map StepRow.toJobStep = a.session.sequence.recorded ++ fresh ∧
      ∀ row ∈ fresh, row.stepKey ∈ a.session.sequence.issued ++ [k])
    (hrows : ∀ x ∈ a.session.sequence.issued ++ [k], x ∈ rows.map StepRow.stepKey)
    (hcount : seq'.storedCount = rows.length) :
    AttemptInv ns body jobId rows ⟨{ a.session with sequence := seq' }, todo⟩ := by
  have hissued : seq'.issued = a.session.sequence.issued ++ [k] := by
    rw [hseq]
    exact hb.issued
  have hwalk := hb.walk
  refine ⟨ha.job, ha.scope, ?_, ?_, ?_, by rw [hseq], ?_, ?_, hcount⟩
  · obtain ⟨order, consumed, horder, hcalls, hi, ho⟩ := ha.progress
    refine ⟨order, consumed ++ [c], horder, by rw [hcalls, htodo]; simp, ?_, ?_⟩
    · rw [keysFrom_append, ← ho, ← hi]
      exact hissued.trans (by rw [hb.key]; rfl)
    · rw [occAfter_append, ← ho, hseq]
      exact hb.occurrences
  · rw [hissued]
    exact nodup_append'.mpr ⟨ha.nodup, nodup_singleton _, by simpa using hb.fresh⟩
  · rw [hseq]
    exact ⟨hwalk.nodup, hwalk.runs, hwalk.byKey, hwalk.claimed, hwalk.cursor⟩
  · rw [hissued, hseq]
    exact hb.recorded ▸ hstored
  · rw [hissued]
    exact hrows

section

variable (hrows : RowsInv ns body (stepsOf s jobId))
  (ha : AttemptInv ns body jobId (stepsOf s jobId) a) (htodo : a.todo = c :: todo)

include hrows ha htodo

theorem RowsInv.snoc
    (hk : k = keyOf a.session.sequence.occurrences c.name c.key)
    (hfresh : k ∉ (stepsOf s jobId).map StepRow.stepKey)
    (hceil : (stepsOf s jobId).length + 1 ≤ maxStepsCeiling) {encoded : Bytes} {now : Int} :
    RowsInv ns body (stepsOf s jobId ++
      [committedRow jobId ns (stepsOf s jobId).length k encoded now]) where
  seq := by
    intro i row hi
    rcases Nat.lt_or_ge i (stepsOf s jobId).length with hlt | hge
    · rw [List.getElem?_append_left hlt] at hi
      exact hrows.seq i row hi
    · have hlt := (List.getElem?_eq_some_iff.mp hi).1
      rw [length_append, length_singleton] at hlt
      obtain rfl : i = (stepsOf s jobId).length := by omega
      rw [List.getElem?_concat_length] at hi
      cases hi
      rfl
  nodup := by
    rw [map_append]
    refine nodup_append'.mpr ⟨hrows.nodup, nodup_singleton _, ?_⟩
    simpa [committedRow, NewJobStep.row] using hfresh
  runs := by
    intro row hrow
    rcases mem_append.mp hrow with h | h
    · exact hrows.runs row h
    · rw [mem_singleton.mp h]
      exact ⟨rfl, rfl⟩
  layout := by
    obtain ⟨order, consumed, horder, hcalls, hissued, hocc⟩ := ha.progress
    rw [htodo] at hcalls
    obtain ⟨pre, g, post, hgroups, ⟨rest, hpre⟩, hmem, -⟩ :=
      exists_group (fun _ => 0) hcalls
    have hreorder := keyGroups_reorder (fun _ => 0) horder
    have hlayout := hrows.layout.perm hreorder
    have hissuedPre : pre.flatten ⊆ a.session.sequence.issued := by
      rw [hissued, hpre]
      exact fun x hx => mem_append_left _ hx
    have hnodup : pre.flatten.Nodup := by
      have := ha.nodup
      rw [hissued, hpre] at this
      exact (nodup_append'.mp this).1
    rw [hgroups] at hlayout
    rw [← hocc, ← hk] at hmem
    have hsnoc := hlayout.snoc hmem hnodup hrows.nodup
      (fun x hx => ha.committed x (hissuedPre hx)) hfresh
    rw [← hgroups] at hsnoc
    rw [map_append]
    exact hsnoc.perm (hreorder.flip.imp fun _ _ h => h.symm)
  count := by
    rw [length_append]
    exact hceil

theorem call_memo
    (hb : Begun a c k seq) {step : JobStep}
    (hstep : step ∈ a.session.sequence.recorded) (hstepKey : step.stepKey = k)
    (hidle : seq.pending = none) (closure : String → Result Bytes) :
    CallSpec jobId ns body s a k todo closure
      ⟨false, .returned step.bytes, { a.session with sequence := seq }, s⟩ := by
  obtain ⟨row, hrow, rfl⟩ := ha.of_recorded hstep
  have hrowKey : k ∈ (stepsOf s jobId).map StepRow.stepKey :=
    mem_map.mpr ⟨row, hrow, hstepKey⟩
  refine ⟨hrows, rfl, .inl rfl, fun bytes hbytes => ?_, fun bytes _ => ?_, by simp,
    fun row' hrow' hk' => ?_⟩
  · cases hbytes
    exact ⟨row, hrow, hstepKey, rfl⟩
  · refine ha.advance htodo hb (by rw [← hidle]) ?_ ?_ (hb.storedCount.trans ha.count)
    · obtain ⟨fresh, hfresh, hin⟩ := ha.stored
      exact ⟨fresh, hfresh, fun r hr => mem_append_left _ (hin r hr)⟩
    · intro x hx
      rcases mem_append.mp hx with h | h
      · exact ha.committed x h
      · rw [mem_singleton.mp h]
        exact hrowKey
  · obtain rfl : row' = row :=
      inj_on_of_nodup_map hrows.nodup hrow' hrow (hk'.trans hstepKey.symm)
    exact ⟨rfl, fun _ => rfl⟩

theorem call_committed
    (hb : Begun a c k seq)
    (hfresh : k ∉ (stepsOf s jobId).map StepRow.stepKey)
    (hceil : (stepsOf s jobId).length + 1 ≤ maxStepsCeiling) {encoded : Bytes} {now : Int}
    {claims : Table String ClaimRow ClaimRow.jobId} {closure : String → Result Bytes}
    {outcome : Outcome} (hclosure : closure (idempotencyKey a.session.runKey k) = .ok encoded)
    (houtcome : outcome = .crashed ∨ outcome = .returned encoded) :
    CallSpec jobId ns body s a k todo closure
      ⟨true, outcome,
        { a.session with sequence := { seq with
            pending := none
            storedCount := seq.storedCount + 1
            storedBytes := seq.storedBytes + encoded.length } },
        { s with
          claims := claims
          steps := s.steps ++
            [committedRow jobId ns (stepsOf s jobId).length k encoded now] }⟩ := by
  have hsteps : stepsOf _ jobId = _ := stepsOf_append_self (s := s)
    (committedRow jobId ns (stepsOf s jobId).length k encoded now) claims rfl
  refine ⟨?_, rfl, .inr ⟨_, encoded, hsteps, rfl, rfl, hclosure⟩, fun bytes hbytes => ?_,
    fun bytes _ => ?_, ?_, fun row hrow h => absurd (mem_map.mpr ⟨row, hrow, h⟩) hfresh⟩
  · rw [hsteps]
    exact hrows.snoc ha htodo hb.key hfresh hceil
  · rcases houtcome with rfl | rfl <;> cases hbytes
    rw [hsteps]
    exact ⟨_, mem_append_right _ (mem_singleton.mpr rfl), rfl, rfl⟩
  · rw [hsteps]
    refine ha.advance htodo hb rfl ?_ ?_ ?_
    · obtain ⟨old, hold, hin⟩ := ha.stored
      refine ⟨old ++ [(committedRow jobId ns (stepsOf s jobId).length k encoded now).toJobStep],
        by rw [map_append, hold, append_assoc]; rfl, ?_⟩
      intro r hr
      rcases mem_append.mp hr with h | h
      · exact mem_append_left _ (hin r h)
      · rw [mem_singleton.mp h]
        exact mem_append_right _ (mem_singleton.mpr rfl)
    · intro x hx
      rw [map_append]
      rcases mem_append.mp hx with h | h
      · exact mem_append_left _ (ha.committed x h)
      · exact mem_append_right _ h
    · rw [length_append, ← ha.count, ← hb.storedCount]
      rfl
  · rintro e he
    rcases houtcome with rfl | rfl <;> cases he

theorem call_new (hns : ∀ job ∈ s.jobs.find jobId, job.namespace = ns) (hb : Begun a c k seq)
    (hno : ∀ row ∈ a.session.sequence.recorded, row.stepKey ≠ k)
    (hpending : seq.pending = some ⟨seq.storedCount, k, .run⟩)
    (hbegin : a.session.beginRun c.name c.key =
      .ok (.run ⟨seq.storedCount, k, .run⟩, { a.session with sequence := seq }))
    (closure : String → Result Bytes) (now : Int) (crash : Option CrashPoint) :
    CallSpec jobId ns body s a k todo closure
      (a.session.call s c.name c.key closure now crash) := by
  -- No row of the store has this key either.
  have hfresh : k ∉ (stepsOf s jobId).map StepRow.stepKey := by
    intro hmem
    obtain ⟨row, hrow, hrowKey⟩ := mem_map.mp hmem
    rcases ha.mem_rows hrow with h | h
    · exact hno _ h hrowKey
    · exact hb.fresh (hrowKey ▸ h)
  have hnone : ∀ row ∈ stepsOf s jobId, row.stepKey = k → False := fun row hrow h =>
    hfresh (mem_map.mpr ⟨row, hrow, h⟩)
  simp only [StepSession.call, hbegin]
  split
  · exact .of_unchanged hrows (by simp) (by simp) (fun row hrow h => (hnone row hrow h).elim)
  cases hbody : closure (idempotencyKey a.session.runKey k) with
  | error e =>
    refine .of_unchanged hrows (by simp) ?_ (fun row hrow h => (hnone row hrow h).elim)
    rintro e' ⟨⟩ -
    exact ⟨_, hbody⟩
  | ok encoded =>
    simp only
    split
    · exact .of_unchanged hrows (by simp) (by simp) (fun row hrow h => (hnone row hrow h).elim)
    obtain rfl := ha.job
    rcases commitRun_new { a.session with sequence := seq } encoded now hpending
        (hb.storedCount.trans ha.count) hrows.seq (fun row hrow h => hnone row hrow h) with
      ⟨e, he, hdiv⟩ | ⟨commit, job, claims, hjob, hceil, hok⟩
    · simp only [he]
      refine .of_unchanged hrows (by simp) ?_ (fun row hrow h => (hnone row hrow h).elim)
      rintro e' ⟨⟩ hdiv'
      rw [hdiv] at hdiv'
      cases hdiv'
    · obtain rfl := hns job hjob
      simp only [hok]
      refine call_committed hrows ha htodo hb hfresh hceil hbody ?_
      split
      · exact .inl rfl
      · exact .inr rfl

/-- **One call.**  From rows laid out along the body, the next call of an
attempt keeps the layout, never diverges, and does not call the closure of a
step that has a row. -/
theorem call_spec (hvalid : ∀ b ∈ body, b.Valid)
    (hns : ∀ job ∈ s.jobs.find jobId, job.namespace = ns)
    (closure : String → Result Bytes) (now : Int) (crash : Option CrashPoint) :
    CallSpec jobId ns body s a
      (keyOf a.session.sequence.occurrences c.name c.key) todo closure
      (a.session.call s c.name c.key closure now crash) := by
  have hv : ValidCall c.name c.key := by
    obtain ⟨order, consumed, horder, hcalls, -, -⟩ := ha.progress
    refine valid_of_reorder horder hvalid c ?_
    rw [hcalls, htodo]
    simp
  generalize hkey : keyOf a.session.sequence.occurrences c.name c.key = k
  by_cases hk : k ∈ a.session.sequence.issued
  · -- Asked for twice in one attempt: refused before anything runs.
    obtain ⟨message, hm⟩ := beginRun_repeated hv ha.idle (hkey ▸ hk)
    have hcall : a.session.call s c.name c.key closure now crash =
        ⟨false, .failed (.config message), a.session, s⟩ := by
      simp only [StepSession.call, StepSession.beginRun, hm, bind, Except.bind]
    rw [hcall]
    refine .of_unchanged hrows (by simp) ?_ (fun _ _ _ => ⟨rfl, hk⟩)
    rintro e ⟨⟩ hdiv
    cases hdiv
  have hcount : a.session.sequence.storedCount ≤ i32Max := by
    rw [ha.count]
    exact Nat.le_trans hrows.count (by decide)
  obtain ⟨seq, -, hrecorded, hissued, hstoredCount, -, hocc, hwalk, hcases⟩ :=
    beginRun_spec hv ha.idle ha.walk (hkey ▸ hk)
      (fun hc => ha.nextIs hrows htodo hc (hkey ▸ hk)) hcount
  rw [hkey] at hissued hcases
  have hb : Begun a c k seq :=
    ⟨hkey.symm, hk, hissued, hrecorded, hocc, hstoredCount, hwalk⟩
  rcases hcases with ⟨step, hstep, hstepKey, hidle, hbegin⟩ | ⟨hno, hpending, hbegin⟩
  · have hcall : a.session.call s c.name c.key closure now crash =
        ⟨false, .returned step.bytes, { a.session with sequence := seq }, s⟩ := by
      simp only [StepSession.call, StepSession.beginRun, hbegin, bind, Except.bind]
      rfl
    rw [hcall]
    exact call_memo hrows ha htodo hb hstep hstepKey hidle closure
  · rw [← hstoredCount] at hpending hbegin
    refine call_new hrows ha htodo hns hb hno hpending ?_ closure now crash
    simp only [StepSession.beginRun, hbegin, bind, Except.bind]
    rfl

end

end Call

/-! ## Opening an attempt -/

theorem getJobSteps_eq {s : Store} {jobId : String} {ns : Scope} {body : List Block}
    (hrows : RowsInv ns body (stepsOf s jobId)) :
    getJobSteps s jobId ns = (stepsOf s jobId).map StepRow.toJobStep := by
  have hall : (stepsOf s jobId).filter (fun row => visibleIn ns row.namespace) =
      stepsOf s jobId := by
    rw [filter_eq_self]
    intro row hrow
    rw [(hrows.runs row hrow).2]
    exact visibleIn_self ns
  have hsorted : (stepsOf s jobId).Pairwise (fun a b => a.seq ≤ b.seq) := by
    rw [pairwise_iff_getElem]
    intro i j hi hj hij
    rw [hrows.seq i _ (List.getElem?_eq_getElem hi), hrows.seq j _ (List.getElem?_eq_getElem hj)]
    omega
  rw [getJobSteps, hall, hsorted.insertionSort_eq]

theorem open_spec {s : Store} {job : Job} {body order : List Block}
    (hrows : RowsInv job.namespace body (stepsOf s job.id))
    (horder : List.Forall₂ Block.Reorder body order) (steps : StorageSteps) (runKey : String)
    (limits : StepLimits) :
    ∃ session, StepSession.open s steps job runKey limits = .ok session ∧
      AttemptInv job.namespace body job.id (stepsOf s job.id)
        ⟨session, order.flatMap Block.calls⟩ := by
  have hgapless : ((stepsOf s job.id).map StepRow.toJobStep).zipIdx.find?
      (fun e => e.1.seq ≠ (e.2 : Int)) = none := by
    rw [List.find?_eq_none]
    rintro ⟨step, i⟩ hmem
    have hi := mem_zipIdx_iff_getElem?.mp hmem
    rw [List.getElem?_map] at hi
    obtain ⟨row, hrow, rfl⟩ := Option.map_eq_some_iff.mp hi
    simp [StepRow.toJobStep, hrows.seq i row hrow]
  refine ⟨{
    steps := steps
    jobId := job.id
    runKey := runKey
    «namespace» := job.namespace
    limits := limits
    sequence := .start job.id ((stepsOf s job.id).map StepRow.toJobStep) }, ?_, ?_⟩
  · simp only [StepSession.open, new, getJobSteps_eq hrows, hgapless, bind,
      Except.bind]
    rfl
  · refine ⟨rfl, rfl, ⟨order, [], horder, rfl, rfl, rfl⟩, nodup_nil, ?_, rfl,
      ⟨[], (append_nil _).symm, by simp⟩, by simp [start],
      by simp [start]⟩
    refine ⟨?_, ?_, rfl, ?_, by simp [start]⟩
    · simp only [start, map_toJobStep_stepKey]
      exact hrows.nodup
    · intro step hstep
      obtain ⟨row, hrow, rfl⟩ := mem_map.mp hstep
      exact (hrows.runs row hrow).1
    · simp [start, map_const']

/-! ## Whole histories -/

section Histories

variable {jobId : String} {ns : Scope} {body : List Block}

/-- What holds between any two moves. -/
structure ReplayInv (jobId : String) (ns : Scope) (body : List Block) (r : Replay) :
    Prop where
  rows : RowsInv ns body (stepsOf r.store jobId)
  scope : ∀ job ∈ r.store.jobs.find jobId, job.namespace = ns
  attempt : ∀ a ∈ r.attempt, AttemptInv ns body jobId (stepsOf r.store jobId) a

theorem ReplayInv.step (hvalid : ∀ b ∈ body, b.Valid) {r r' : Replay} {m : Move}
    (hr : ReplayInv jobId ns body r) (hm : replayStep jobId ns body r m = some r') :
    ReplayInv jobId ns body r' ∧ stepsOf r.store jobId <+: stepsOf r'.store jobId := by
  obtain ⟨store, attempt⟩ := r
  cases m with
  | begin steps job runKey limits order =>
    simp only [replayStep] at hm
    split at hm
    · next hguard =>
      obtain ⟨-, rfl, rfl, horder⟩ := hguard
      obtain ⟨session, hopen, ha⟩ := open_spec hr.rows horder steps runKey limits
      rw [hopen] at hm
      cases hm
      refine ⟨⟨hr.rows, hr.scope, ?_⟩, prefix_rfl⟩
      rintro a ⟨⟩
      exact ha
    · cases hm
  | call closure now crash =>
    simp only [replayStep] at hm
    cases attempt with
    | none => cases hm
    | some a =>
      obtain ⟨session, todo⟩ := a
      cases todo with
      | nil => cases hm
      | cons c todo =>
        have hspec := call_spec hr.rows (hr.attempt _ rfl) rfl hvalid hr.scope closure now crash
        have hscope : ∀ job ∈ (session.call store c.name c.key closure now
            crash).store.jobs.find jobId, job.namespace = ns := by
          rw [hspec.jobs]
          exact hr.scope
        simp only at hm
        split at hm
        · next bytes hout =>
          cases hm
          refine ⟨⟨hspec.rows, hscope, ?_⟩, hspec.grows⟩
          rintro a ⟨⟩
          exact hspec.returned bytes hout
        · cases hm
          exact ⟨⟨hspec.rows, hscope, by simp⟩, hspec.grows⟩
  | die =>
    simp only [replayStep] at hm
    split at hm
    · cases hm
      exact ⟨⟨hr.rows, hr.scope, by simp⟩, prefix_rfl⟩
    · cases hm
  | elsewhere store' =>
    simp only [replayStep] at hm
    split at hm
    · next hguard =>
      obtain ⟨hsteps, hscope⟩ := hguard
      cases hm
      refine ⟨⟨?_, hscope, ?_⟩, ?_⟩
      · rw [hsteps]
        exact hr.rows
      · rw [hsteps]
        exact hr.attempt
      · rw [hsteps]
    · cases hm

theorem AttemptInv.issued_perm {a : Attempt} (ha : AttemptInv ns body jobId rows a) :
    ∃ rest, (a.session.sequence.issued ++ rest).Perm (stepKeys body) ∧
      rest = keysFrom a.session.sequence.occurrences a.todo := by
  obtain ⟨order, consumed, horder, hcalls, hissued, hocc⟩ := ha.progress
  refine ⟨_, ?_, rfl⟩
  rw [hissued, hocc, ← keysFrom_append, ← hcalls, ← flatten_keyGroups]
  exact (List.Perm.flatten_congr (keyGroups_reorder _ horder)).symm

theorem AttemptInv.finished {a : Attempt}
    (ha : AttemptInv ns body jobId rows a) (hrows : RowsInv ns body rows) (htodo : a.todo = []) :
    (rows.map StepRow.stepKey).Perm (stepKeys body) ∧
      a.session.sequence.orphanedTail = [] := by
  obtain ⟨rest, hperm, hrest⟩ := ha.issued_perm
  rw [hrest, htodo, keysFrom, append_nil] at hperm
  have hsub : ∀ x ∈ rows.map StepRow.stepKey, x ∈ a.session.sequence.issued := fun x hx =>
    hperm.mem_iff.mpr (hrows.layout.subset hx)
  constructor
  · refine List.Perm.trans ?_ hperm
    exact (perm_ext_iff_of_nodup hrows.nodup ha.nodup).mpr fun x =>
      ⟨hsub x, ha.committed x⟩
  · have hclaimed : ∀ e ∈ a.session.sequence.recorded.zip a.session.sequence.claimed,
        e.2 = true := by
      rw [ha.walk.claimed, zip_map_right]
      intro e he
      obtain ⟨⟨step, step'⟩, hmem, rfl⟩ := mem_map.mp he
      have hstep := (of_mem_zip hmem).2
      obtain ⟨row, hrow, rfl⟩ := ha.of_recorded hstep
      exact decide_eq_true (hsub _ (mem_map_of_mem hrow))
    rw [orphanedTail, filter_eq_nil_iff.mpr, map_nil]
    intro e he
    simp [hclaimed e he]

/-- **Crash-safe replay.**  In every state a history of attempts reaches no step
key has two rows, the next call never reports a divergence of its own, the
closure of a step that has a row is not called, rows are never rewritten, and an
attempt that has issued its whole body leaves exactly one row per step. -/
theorem replay_crash_safe (hvalid : ∀ b ∈ body, b.Valid) {s₀ : Store}
    (hempty : stepsOf s₀ jobId = [])
    (hscope : ∀ job ∈ s₀.jobs.find jobId, job.namespace = ns) {r : Replay}
    (hr : Reaches (replayStep jobId ns body) (fun _ _ => True) ⟨s₀, none⟩ r) :
    ((stepsOf r.store jobId).map StepRow.stepKey).Nodup ∧
      (∀ session c todo, r.attempt = some ⟨session, c :: todo⟩ → ∀ closure now crash,
        ((∀ key e, closure key = .error e → diverged e = false) →
          ∀ e, (session.call r.store c.name c.key closure now crash).outcome = .failed e →
            diverged e = false) ∧
        ∀ row ∈ stepsOf r.store jobId,
          row.stepKey = StepSequence.keyOf session.sequence.occurrences c.name c.key →
          (session.call r.store c.name c.key closure now crash).invoked = false ∧
          (row.stepKey ∉ session.sequence.issued →
            (session.call r.store c.name c.key closure now crash).outcome =
              .returned (row.result.getD []))) ∧
      (∀ session c todo, r.attempt = some ⟨session, c :: todo⟩ → ∀ closure now crash,
        (∀ row ∈ stepsOf (session.call r.store c.name c.key closure now crash).store jobId,
          row ∉ stepsOf r.store jobId →
          row.stepKey = StepSequence.keyOf session.sequence.occurrences c.name c.key ∧
          ∃ encoded, row.result = some encoded ∧
            closure (idempotencyKey session.runKey row.stepKey) = .ok encoded) ∧
        ∀ bytes, (session.call r.store c.name c.key closure now crash).outcome = .returned bytes →
          ∃ row ∈ stepsOf (session.call r.store c.name c.key closure now crash).store jobId,
            row.stepKey = StepSequence.keyOf session.sequence.occurrences c.name c.key ∧
              row.result.getD [] = bytes) ∧
      (∀ m r', replayStep jobId ns body r m = some r' →
        stepsOf r.store jobId <+: stepsOf r'.store jobId) ∧
      (r.attempt = none → ∀ steps job runKey limits order, job.id = jobId → job.namespace = ns →
        List.Forall₂ Block.Reorder body order →
        (replayStep jobId ns body r (.begin steps job runKey limits order)).isSome) ∧
      ∀ session, r.attempt = some ⟨session, []⟩ →
        ((stepsOf r.store jobId).map StepRow.stepKey).Perm (stepKeys body) ∧
          session.sequence.orphanedTail = [] := by
  have hinit : ReplayInv jobId ns body ⟨s₀, none⟩ := by
    refine ⟨?_, hscope, by simp⟩
    rw [hempty]
    exact ⟨by simp, by simp, by simp, layout_nil _, by simp⟩
  have hinv : ReplayInv jobId ns body r :=
    hr.invariant hinit fun _ _ _ hi _ hm => (hi.step hvalid hm).1
  refine ⟨hinv.rows.nodup, ?_, ?_, fun m r' hm => (hinv.step hvalid hm).2, ?_, ?_⟩
  · intro session c todo hattempt closure now crash
    have ha := hinv.attempt _ hattempt
    have hspec := call_spec hinv.rows ha rfl hvalid hinv.scope closure now crash
    refine ⟨fun hclosure e he => ?_, fun row hrow hkey => ?_⟩
    · by_contra hdiv
      obtain ⟨key, hraised⟩ := hspec.failed e he (by simpa using hdiv)
      exact hdiv (hclosure key e hraised)
    · obtain ⟨hinvoked, hreturned⟩ := hspec.memo row hrow hkey
      exact ⟨hinvoked, fun hfirst => hreturned (hkey ▸ hfirst)⟩
  · intro session c todo hattempt closure now crash
    have hspec := call_spec hinv.rows (hinv.attempt _ hattempt) rfl hvalid hinv.scope closure now
      crash
    refine ⟨fun row hrow hnew => ?_, hspec.answered⟩
    rcases hspec.written with hsame | ⟨row', encoded, happend, hkey, hresult, hclosure⟩
    · rw [hsame] at hrow
      exact absurd hrow hnew
    · rw [happend] at hrow
      obtain rfl := mem_singleton.mp ((mem_append.mp hrow).resolve_left hnew)
      exact ⟨hkey, encoded, hresult, hkey ▸ hclosure⟩
  · rintro hidle steps job runKey limits order rfl rfl horder
    obtain ⟨session, hopen, -⟩ := open_spec hinv.rows horder steps runKey limits
    simp [replayStep, hidle, horder, hopen]
  · intro session hattempt
    exact (hinv.attempt _ hattempt).finished hinv.rows rfl

def paymentBody : List Block :=
  [.unkeyed "charge", .keyed [("fetch", "a"), ("fetch", "b")]]

def paymentJob : Job :=
  { (⟨"q", "pay", [], 0, 0, 3, 1000, none, none, none, [], none, none, none, none, none⟩ :
      NewJob).intoJob "job-1" 0 with status := .running }

def paymentStore : Store :=
  { Store.empty with jobs := ⟨[paymentJob], List.nodup_singleton _⟩ }

def paymentMoves : List Move :=
  let begin (order : List (String × String)) : Move :=
    .begin ⟨"worker-1", 0, none⟩ paymentJob "job-1" ⟨1000, 1000, 10⟩
      [.unkeyed "charge", .keyed order]
  let call (byte : UInt8) (crash : Option CrashPoint) : Move :=
    .call (fun _ => .ok [byte]) 0 crash
  [begin [("fetch", "a"), ("fetch", "b")], call 1 none, call 2 (some .beforeCommit),
    begin [("fetch", "b"), ("fetch", "a")], call 3 none, call 4 (some .afterCommit),
    begin [("fetch", "a"), ("fetch", "b")], call 5 none, call 6 none, call 7 none]

/-- The history above is one of those `replay_crash_safe` speaks of: it ends
with the body issued, one row per step and no orphan. -/
theorem payment_replays : ∃ r session,
    Reaches (replayStep "job-1" none paymentBody) (fun _ _ => True) ⟨paymentStore, none⟩ r ∧
      r.attempt = some ⟨session, []⟩ ∧
      ((stepsOf r.store "job-1").map StepRow.stepKey).Perm (stepKeys paymentBody) ∧
      session.sequence.orphanedTail = [] := by
  obtain ⟨⟨store, attempt⟩, hr, hdone⟩ : ∃ r,
      Reaches (replayStep "job-1" none paymentBody) (fun _ _ => True) ⟨paymentStore, none⟩ r ∧
        r.attempt.any (fun a => a.todo.isEmpty) = true :=
    exists_reached paymentMoves
  cases attempt with
  | none => cases hdone
  | some a =>
    obtain ⟨session, todo⟩ := a
    obtain rfl : todo = [] := List.isEmpty_iff.mp hdone
    have hsafe := replay_crash_safe (by decide) (by decide) (by decide) hr
    exact ⟨_, session, hr, rfl, hsafe.2.2.2.2.2 session rfl⟩

def twiceFetched : List Block := [.keyed [("fetch", "a")], .keyed [("fetch", "a")]]

/-- The second is refused by the attempt that issued the first, although its
step is committed. -/
theorem repeated_key_refused : (∀ b ∈ twiceFetched, b.Valid) ∧ ∃ r,
    Reaches (replayStep "job-1" none twiceFetched) (fun _ _ => True) ⟨paymentStore, none⟩ r ∧
      ∃ a ∈ r.attempt, ∃ c ∈ a.todo.head?, ∃ row ∈ stepsOf r.store "job-1",
        row.stepKey = StepSequence.keyOf a.session.sequence.occurrences c.name c.key ∧
          (a.session.call r.store c.name c.key (fun _ => .ok [2]) 0 none).outcome ≠
            .returned (row.result.getD []) := by
  obtain ⟨r, hr, hsome⟩ : ∃ r,
      Reaches (replayStep "job-1" none twiceFetched) (fun _ _ => True) ⟨paymentStore, none⟩ r ∧
        r.attempt.any (fun a => a.todo.head?.any fun c => (stepsOf r.store "job-1").any fun row =>
          row.stepKey = StepSequence.keyOf a.session.sequence.occurrences c.name c.key ∧
            (a.session.call r.store c.name c.key (fun _ => .ok [2]) 0 none).outcome ≠
              .returned (row.result.getD [])) = true :=
    exists_reached [.begin ⟨"worker-1", 0, none⟩ paymentJob "job-1" ⟨1000, 1000, 10⟩ twiceFetched,
      .call (fun _ => .ok [1]) 0 none]
  obtain ⟨a, ha, hcall⟩ := (Option.any_eq_true _ _).mp hsome
  obtain ⟨c, hc, hrow⟩ := (Option.any_eq_true _ _).mp hcall
  obtain ⟨row, hmem, hout⟩ := any_eq_true.mp hrow
  exact ⟨by decide, r, hr, a, ha, c, hc, row, hmem, of_decide_eq_true hout⟩

end Histories

end FlexiQ.Step
