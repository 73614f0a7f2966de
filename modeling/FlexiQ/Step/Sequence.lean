/-
# `Step.Sequence` — one attempt's walk through a job's step sequence

`step/sequence.rs`, the in-memory half of durable steps.  A `StepSequence`
holds the rows read when the attempt opened and decides, for each step the
code asks for, whether the value is already known, whether new ground has
been reached, or whether the code changed underneath the recorded rows.

The two identities are matched differently.  A KEYED step is looked up by key
wherever its row sits; an UNKEYED one must be at the cursor, which skips the
rows a keyed hit already claimed.

An error ends the attempt, so the state a refused call leaves behind is not
carried.
-/
import FlexiQ.Step.Key
import Mathlib.Algebra.Ring.Nat

namespace FlexiQ.Step

open List

inductive StepKind
  | run
  | sleep
  deriving DecidableEq, Repr

def StepKind.asStr : StepKind → String
  | .run => "run"
  | .sleep => "sleep"

/-- `JobStep`: a committed step, as a reader sees it. -/
structure JobStep where
  jobId : String
  seq : Int
  stepKey : String
  kind : StepKind
  result : Option Bytes
  wakeAt : Option Int
  createdAt : Int
  deriving DecidableEq, Repr

def JobStep.bytes (step : JobStep) : Bytes :=
  step.result.getD []

/-- `PendingStep`: issued, not yet committed. -/
structure PendingStep where
  seq : Int
  stepKey : String
  kind : StepKind
  deriving DecidableEq, Repr

inductive StepDecision
  | memoized (stepKey : String) (result : Bytes)
  | run (pending : PendingStep)
  deriving DecidableEq, Repr

/-- `StepSequence`.  `issued_keys` is the same keys as `issued`, as a set;
one list serves for both.  A name the counters do not hold has occurrence
`0`. -/
structure StepSequence where
  jobId : String
  recorded : List JobStep
  claimed : List Bool
  byKey : List (String × Nat)
  issued : List String
  occurrences : String → Nat
  cursor : Nat
  pending : Option PendingStep
  storedCount : Nat
  storedBytes : Nat

inductive StepMatch
  | recorded (index : Nat)
  | new (pending : PendingStep)
  deriving DecidableEq, Repr

def i32Max : Nat := 2147483647

/-- The last entry filed under a key, which is what a map collected from the
pairs holds. -/
def mapGet (pairs : List (String × Nat)) (key : String) : Option Nat :=
  (pairs.reverse.find? (fun e => e.1 = key)).map Prod.snd

/-- `render_sequence`: the keys within five of a position. -/
def renderSequence (keys : List String) (position : Nat) : String :=
  if keys.isEmpty then "(none)"
  else
    let stop := min (position + 5 + 1) keys.length
    let start := min (position - 5) stop
    let earlier := if 0 < start then "…(" ++ toString start ++ " earlier), " else ""
    let shown := ", ".intercalate (((keys.take stop).drop start).map abbreviate)
    let more := if stop < keys.length then
      ", …(" ++ toString (keys.length - stop) ++ " more)" else ""
    earlier ++ shown ++ more

namespace StepSequence

variable {k name : String} {done : List String} {key : Option String}

/-- A snapshot nothing of which has been asked for. -/
def start (jobId : String) (recorded : List JobStep) : StepSequence where
  jobId := jobId
  recorded := recorded
  claimed := List.replicate recorded.length false
  byKey := recorded.zipIdx.map (fun e => (e.1.stepKey, e.2))
  issued := []
  occurrences := fun _ => 0
  cursor := 0
  pending := none
  storedCount := recorded.length
  storedBytes := (recorded.map (fun step => step.bytes.length)).sum

/-- `StepSequence::new`: take the snapshot, refusing one with a hole. -/
def new (jobId : String) (recorded : List JobStep) : Result StepSequence :=
  match recorded.zipIdx.find? (fun e => e.1.seq ≠ (e.2 : Int)) with
  | some (step, index) =>
    .error (.config ("job " ++ jobId ++ " has a hole in its step sequence: position "
      ++ toString index ++ " holds seq " ++ toString step.seq))
  | none => .ok (start jobId recorded)

/-- `orphaned_tail`: recorded steps this attempt never asked for. -/
def orphanedTail (seq : StepSequence) : List String :=
  ((seq.recorded.zip seq.claimed).filter (fun e => !e.2)).map (fun e => e.1.stepKey)

/-- `divergence`: the error for a step that does not line up with the row
recorded at `position`. -/
def divergence (seq : StepSequence) (position : Nat) (row : JobStep) (stepKey : String)
    (kind : StepKind) : QueueError :=
  .stepSequenceDiverged
    { jobId := seq.jobId
      position := position
      recorded := renderSequence (seq.recorded.map JobStep.stepKey) position
      running := renderSequence seq.issued (seq.issued.length - 1)
      expected :=
        if row.stepKey = stepKey then
          "'" ++ row.stepKey ++ "' as a " ++ row.kind.asStr ++ " step"
        else "'" ++ abbreviate row.stepKey ++ "'"
      found :=
        if row.stepKey = stepKey then "'" ++ stepKey ++ "' as a " ++ kind.asStr ++ " step"
        else "'" ++ abbreviate stepKey ++ "'" }

/-- `check_issuable`: at most one step outstanding, no key twice. -/
def checkIssuable (seq : StepSequence) (stepKey : String) : Result StepSequence :=
  match seq.pending with
  | some outstanding =>
    .error (.config ("step '" ++ abbreviate stepKey ++ "' of job " ++ seq.jobId
      ++ " started while step '" ++ abbreviate outstanding.stepKey ++ "' is still uncommitted"))
  | none =>
    if stepKey ∈ seq.issued then
      .error (.config ("step key '" ++ abbreviate stepKey
        ++ "' was used twice in one attempt of job " ++ seq.jobId
        ++ "; give each keyed step a key of its own"))
    else .ok { seq with issued := seq.issued ++ [stepKey] }

/-- The loop of `recorded_match`: past every claimed row. -/
def skipClaimed (claimed : List Bool) (cursor : Nat) : Nat :=
  cursor + ((claimed.drop cursor).takeWhile id).length

section

variable (seq : StepSequence)

/-- `recorded_match`: by key wherever it sits, or at the cursor. -/
def recordedMatch (stepKey : String) (keyed : Bool) : Option Nat × StepSequence :=
  if keyed then (mapGet seq.byKey stepKey, seq)
  else
    let cursor := skipClaimed seq.claimed seq.cursor
    let seq := { seq with cursor := cursor }
    match seq.recorded[cursor]? with
    | some row => (if row.stepKey = stepKey then some cursor else none, seq)
    | none => (none, seq)

/-- `new_ground`: the next free `seq` is the number of rows stored. -/
def newGround (stepKey : String) (kind : StepKind) : Result (PendingStep × StepSequence) :=
  if seq.storedCount ≤ i32Max then
    let pending : PendingStep := { seq := seq.storedCount, stepKey := stepKey, kind := kind }
    .ok (pending, { seq with pending := some pending })
  else
    .error (.config ("job " ++ seq.jobId ++ " asked for more steps than a sequence can hold"))

/-- `landed`: on a recorded row, on new ground, or diverged. -/
def landed (stepKey : String) (kind : StepKind) (keyed : Bool) :
    Result (StepMatch × StepSequence) :=
  match seq.recordedMatch stepKey keyed with
  | (some index, seq) =>
    match seq.recorded[index]? with
    | some row =>
      if row.kind = kind then .ok (.recorded index, seq)
      else .error (seq.divergence index row stepKey kind)
    -- `recordedMatch` answers with an index of the snapshot.
    | none => .error (.other "index out of bounds")
  | (none, seq) =>
    match seq.recorded[seq.cursor]? with
    | some row =>
      if keyed then
        (seq.newGround stepKey kind).map fun r => (.new r.1, r.2)
      else .error (seq.divergence seq.cursor row stepKey kind)
    | none => (seq.newGround stepKey kind).map fun r => (.new r.1, r.2)

/-- `resolve`: name the step, check it may be asked for, find where it
lands.  Only an unkeyed step spends an occurrence of its name. -/
def resolve (name : String) (key : Option String) (kind : StepKind) :
    Result (StepMatch × StepSequence) := do
  let stepKey ← match key with
    | some key => explicit name key
    | none => derive name (seq.occurrences name)
  let seq ← seq.checkIssuable stepKey
  let (found, seq) ← seq.landed stepKey kind key.isSome
  if key.isNone then
    return (found, { seq with
      occurrences := Function.update seq.occurrences name (seq.occurrences name + 1) })
  else return (found, seq)

/-- `memoize`: hand the stored bytes back and mark the row spoken for. -/
def memoize (index : Nat) : Result (StepDecision × StepSequence) :=
  match seq.recorded[index]? with
  | some row =>
    .ok (.memoized row.stepKey row.bytes, { seq with claimed := seq.claimed.set index true })
  | none => .error (.other "index out of bounds")

def beginRun (name : String) (key : Option String) : Result (StepDecision × StepSequence) := do
  let (found, seq) ← seq.resolve name key .run
  match found with
  | .recorded index => seq.memoize index
  | .new pending => return (.run pending, seq)

/-- `commit`: acknowledge that the outstanding step was stored. -/
def commit (pending : PendingStep) (encodedLen : Nat) : Result StepSequence :=
  if seq.pending = some pending then
    .ok { seq with
      pending := none
      storedCount := seq.storedCount + 1
      storedBytes := seq.storedBytes + encodedLen }
  else
    .error (.config ("step '" ++ abbreviate pending.stepKey ++ "' of job " ++ seq.jobId
      ++ " was committed out of turn"))

end

/-! ## The walk

`Walk done seq` is the state of the bookkeeping once the steps `done` have
been asked for: a row is claimed exactly when its step is among them, and
nothing before the cursor is unclaimed. -/

/-- The bookkeeping of an attempt that has asked for `done`. -/
structure Walk (done : List String) (seq : StepSequence) : Prop where
  nodup : (seq.recorded.map JobStep.stepKey).Nodup
  runs : ∀ row ∈ seq.recorded, row.kind = .run
  byKey : seq.byKey = seq.recorded.zipIdx.map (fun e => (e.1.stepKey, e.2))
  claimed : seq.claimed = seq.recorded.map (fun row => decide (row.stepKey ∈ done))
  cursor : ∀ row ∈ seq.recorded.take seq.cursor, row.stepKey ∈ done

/-- The first recorded step not asked for yet, if there is one, is `k`. -/
def NextIs (done : List String) (recorded : List JobStep) (k : String) : Prop :=
  ∀ a row b, recorded = a ++ row :: b → (∀ r ∈ a, r.stepKey ∈ done) → row.stepKey ∉ done →
    row.stepKey = k

section

variable {rows : List JobStep} (h : (rows.map JobStep.stepKey).Nodup)
include h

theorem index_eq {i j : Nat}
    {row row' : JobStep} (hi : rows[i]? = some row) (hj : rows[j]? = some row')
    (hkey : row.stepKey = row'.stepKey) : i = j := by
  have hlt : i < (rows.map JobStep.stepKey).length := by
    rw [length_map]
    exact (List.getElem?_eq_some_iff.mp hi).1
  refine (List.getElem?_inj hlt h).mp ?_
  rw [List.getElem?_map, List.getElem?_map, hi, hj, Option.map_some, Option.map_some, hkey]

theorem mapGet_eq_some {i : Nat} :
    mapGet (rows.zipIdx.map (fun e => (e.1.stepKey, e.2))) k = some i ↔
      ∃ row, rows[i]? = some row ∧ row.stepKey = k := by
  unfold mapGet
  constructor
  · intro hget
    obtain ⟨e, he, rfl⟩ := Option.map_eq_some_iff.mp hget
    have hkey : e.1 = k := by simpa using List.find?_some he
    have hmem := mem_reverse.mp (mem_of_find?_eq_some he)
    obtain ⟨⟨row, j⟩, hrow, rfl⟩ := mem_map.mp hmem
    exact ⟨row, mem_zipIdx_iff_getElem?.mp hrow, hkey⟩
  · rintro ⟨row, hrow, rfl⟩
    have hmem : (row.stepKey, i) ∈ (rows.zipIdx.map (fun e => (e.1.stepKey, e.2))).reverse := by
      rw [mem_reverse, mem_map]
      exact ⟨(row, i), mem_zipIdx_iff_getElem?.mpr hrow, rfl⟩
    obtain ⟨e, he⟩ : ∃ e, (rows.zipIdx.map (fun e => (e.1.stepKey, e.2))).reverse.find?
        (fun e => e.1 = row.stepKey) = some e := by
      rw [← Option.isSome_iff_exists, List.find?_isSome]
      exact ⟨_, hmem, by simp⟩
    -- Whatever entry the search stops at carries the same key, hence the same index.
    have hkey : e.1 = row.stepKey := by simpa using List.find?_some he
    obtain ⟨⟨row', j⟩, hrow', rfl⟩ :=
      mem_map.mp (mem_reverse.mp (mem_of_find?_eq_some he))
    rw [he, Option.map_some, index_eq h (mem_zipIdx_iff_getElem?.mp hrow') hrow hkey]

theorem mapGet_eq_none : mapGet (rows.zipIdx.map (fun e => (e.1.stepKey, e.2))) k = none ↔
      ∀ row ∈ rows, row.stepKey ≠ k := by
  simp only [Option.eq_none_iff_forall_ne_some, Ne, mapGet_eq_some h]
  constructor
  · intro hnone row hrow hkey
    obtain ⟨i, hi⟩ := List.getElem?_of_mem hrow
    exact hnone i ⟨row, hi, hkey⟩
  · rintro hall i ⟨row, hi, hkey⟩
    exact hall row (mem_of_getElem? hi) hkey

end

theorem skipClaimed_spec (p : JobStep → Bool) (rows : List JobStep) (c : Nat)
    (hc : ∀ row ∈ rows.take c, p row = true) :
    (∀ row ∈ rows.take (skipClaimed (rows.map p) c), p row = true) ∧
      ∀ row, rows[skipClaimed (rows.map p) c]? = some row → p row = false := by
  have hdrop : (rows.map p).drop c = (rows.drop c).map p := map_drop.symm
  have hlen : ((List.map p (rows.drop c)).takeWhile id).length =
      ((rows.drop c).takeWhile p).length := by
    rw [takeWhile_map, length_map]
    rfl
  unfold skipClaimed
  rw [hdrop, hlen]
  constructor
  · intro row hrow
    rw [take_add] at hrow
    rcases mem_append.mp hrow with h | h
    · exact hc row h
    · rw [← prefix_iff_eq_take.mp ( takeWhile_prefix p)] at h
      exact mem_takeWhile_imp h
  · intro row hrow
    rw [← List.getElem?_drop] at hrow
    have hsplit := takeWhile_append_dropWhile (p := p) (l := rows.drop c)
    rw [← hsplit, List.getElem?_append_right (by rw [hsplit]), hsplit, Nat.sub_self] at hrow
    have hhead : ((rows.drop c).dropWhile p).head? = some row := by
      rw [List.head?_eq_getElem?]
      exact hrow
    have := List.head?_dropWhile_not p (rows.drop c)
    rw [hhead] at this
    simpa using this

section

variable {seq : StepSequence} (hw : Walk done seq)
include hw

theorem Walk.skip : Walk done { seq with cursor := skipClaimed seq.claimed seq.cursor } ∧
      ∀ row, seq.recorded[skipClaimed seq.claimed seq.cursor]? = some row →
        row.stepKey ∉ done := by
  have h := skipClaimed_spec (fun row => decide (row.stepKey ∈ done)) seq.recorded seq.cursor
    (fun row hrow => decide_eq_true (hw.cursor row hrow))
  rw [← hw.claimed] at h
  refine ⟨⟨hw.nodup, hw.runs, hw.byKey, hw.claimed, fun row hrow => ?_⟩, fun row hrow => ?_⟩
  · exact of_decide_eq_true (h.1 row hrow)
  · exact of_decide_eq_false (h.2 row hrow)

/-- Where a step that may come next is found: at its row when there is one,
and otherwise nowhere — an unkeyed one having walked off the end. -/
theorem recordedMatch_spec (keyed : Bool) (hk : k ∉ done)
    (hnext : keyed = false → NextIs done seq.recorded k) :
    ∃ c, Walk done { seq with cursor := c } ∧
      ((∃ i row, seq.recorded[i]? = some row ∧ row.stepKey = k ∧
          seq.recordedMatch k keyed = (some i, { seq with cursor := c })) ∨
        ((∀ row ∈ seq.recorded, row.stepKey ≠ k) ∧
          (keyed = false → seq.recorded[c]? = none) ∧
          seq.recordedMatch k keyed = (none, { seq with cursor := c }))) := by
  cases keyed with
  | true =>
    have hmatch : seq.recordedMatch k true =
        (mapGet (seq.recorded.zipIdx.map (fun e => (e.1.stepKey, e.2))) k, seq) := by
      rw [← hw.byKey]
      rfl
    refine ⟨seq.cursor, hw, ?_⟩
    rw [hmatch]
    cases hget : mapGet (seq.recorded.zipIdx.map (fun e => (e.1.stepKey, e.2))) k with
    | some i =>
      obtain ⟨row, hrow, hkey⟩ := (mapGet_eq_some hw.nodup).mp hget
      exact Or.inl ⟨i, row, hrow, hkey, rfl⟩
    | none => exact Or.inr ⟨(mapGet_eq_none hw.nodup).mp hget, by simp, rfl⟩
  | false =>
    obtain ⟨hskip, hstop⟩ := hw.skip
    refine ⟨_, hskip, ?_⟩
    simp only [recordedMatch, Bool.false_eq_true, if_false]
    cases hrow : seq.recorded[skipClaimed seq.claimed seq.cursor]? with
    | some row =>
      -- Everything before the cursor is spoken for, so this row is the next one.
      obtain ⟨hlt, hget⟩ := List.getElem?_eq_some_iff.mp hrow
      have hsplit := take_append_drop (skipClaimed seq.claimed seq.cursor) seq.recorded
      rw [drop_eq_getElem_cons hlt, hget] at hsplit
      have hkey := hnext rfl _ row _ hsplit.symm hskip.cursor (hstop row hrow)
      exact Or.inl ⟨_, row, hrow, hkey, by simp [hkey]⟩
    | none =>
      refine Or.inr ⟨fun row hmem hkey => hk ?_, fun _ => rfl, rfl⟩
      have hlen := List.getElem?_eq_none_iff.mp hrow
      have hall : row ∈ seq.recorded.take (skipClaimed seq.claimed seq.cursor) := by
        rw [take_of_length_le hlen]
        exact hmem
      exact hkey ▸ hskip.cursor row hall

theorem Walk.claim {i : Nat} {row : JobStep}
    (hrow : seq.recorded[i]? = some row) (hkey : row.stepKey = k) :
    seq.claimed.set i true = seq.recorded.map (fun row => decide (row.stepKey ∈ done ++ [k])) := by
  rw [hw.claimed]
  refine ext_getElem? fun j => ?_
  rw [List.getElem?_set, length_map, List.getElem?_map, List.getElem?_map]
  by_cases hij : i = j
  · subst hij
    have hlt := (List.getElem?_eq_some_iff.mp hrow).1
    rw [if_pos rfl, if_pos hlt, hrow]
    simp [hkey]
  · rw [if_neg hij]
    cases hj : seq.recorded[j]? with
    | none => rfl
    | some row' =>
      have hne : row'.stepKey ≠ k := fun heq =>
        hij (index_eq hw.nodup hrow hj (hkey.trans heq.symm))
      simp [hne]

theorem Walk.extend (hk : ∀ row ∈ seq.recorded, row.stepKey ≠ k) : Walk (done ++ [k]) seq where
  nodup := hw.nodup
  runs := hw.runs
  byKey := hw.byKey
  claimed := by
    rw [hw.claimed]
    refine map_congr_left fun row hrow => ?_
    simp [hk row hrow]
  cursor := fun row hrow => mem_append_left _ (hw.cursor row hrow)

end

/-! ## What `begin_run` answers -/

def keyOf (occurrences : String → Nat) (name : String) : Option String → String
  | some key => stepKeyOf name (.inl key)
  | none => stepKeyOf name (.inr (occurrences name))

/-- The counters after a call: only an unkeyed one spends an occurrence. -/
def spend (occurrences : String → Nat) (name : String) : Option String → String → Nat
  | some _ => occurrences
  | none => Function.update occurrences name (occurrences name + 1)

def ValidCall (name : String) (key : Option String) : Prop :=
  ValidName name ∧ ∀ k ∈ key, ValidKey name k

theorem resolve_eq {seq : StepSequence} {kind : StepKind} (hv : ValidCall name key) :
    seq.resolve name key kind =
      (seq.checkIssuable (keyOf seq.occurrences name key)).bind fun seq' =>
        (seq'.landed (keyOf seq.occurrences name key) kind key.isSome).map fun r =>
          (r.1, { r.2 with occurrences := spend r.2.occurrences name key }) := by
  unfold resolve
  rcases key with _ | key <;> [
    simp only [keyOf, derive_of_valid hv.1];
    simp only [keyOf, explicit_of_valid hv.1 (hv.2 key rfl)]]
  all_goals
    change Except.bind (seq.checkIssuable _) _ = _
    refine congrArg (Except.bind _) (funext fun seq' => ?_)
    cases seq'.landed _ kind _ <;> rfl

section

variable {seq : StepSequence} (hv : ValidCall name key) (hidle : seq.pending = none)
include hv hidle

theorem beginRun_repeated (hk : keyOf seq.occurrences name key ∈ seq.issued) :
    ∃ message, seq.beginRun name key = .error (.config message) := by
  unfold beginRun
  rw [resolve_eq hv]
  simp only [checkIssuable, hidle, if_pos hk]
  exact ⟨_, rfl⟩

/-- **What `begin_run` answers** when the step is the next one the walk can
meet: the recorded bytes exactly when the snapshot has its row, and new
ground at the next free position otherwise. -/
theorem beginRun_spec (hw : Walk seq.issued seq) (hk : keyOf seq.occurrences name key ∉ seq.issued)
    (hnext : key = none → NextIs seq.issued seq.recorded (keyOf seq.occurrences name key))
    (hcount : seq.storedCount ≤ i32Max) :
    ∃ seq', seq'.jobId = seq.jobId ∧ seq'.recorded = seq.recorded ∧
      seq'.issued = seq.issued ++ [keyOf seq.occurrences name key] ∧
      seq'.storedCount = seq.storedCount ∧ seq'.storedBytes = seq.storedBytes ∧
      seq'.occurrences = spend seq.occurrences name key ∧ Walk seq'.issued seq' ∧
      ((∃ row ∈ seq.recorded, row.stepKey = keyOf seq.occurrences name key ∧
          seq'.pending = none ∧
          seq.beginRun name key = .ok (.memoized row.stepKey row.bytes, seq')) ∨
        ((∀ row ∈ seq.recorded, row.stepKey ≠ keyOf seq.occurrences name key) ∧
          seq'.pending = some ⟨seq.storedCount, keyOf seq.occurrences name key, .run⟩ ∧
          seq.beginRun name key =
            .ok (.run ⟨seq.storedCount, keyOf seq.occurrences name key, .run⟩, seq'))) := by
  generalize hkey : keyOf seq.occurrences name key = k at *
  have hstart : seq.checkIssuable k = .ok { seq with issued := seq.issued ++ [k] } := by
    simp [checkIssuable, hidle, hk]
  have hw' : Walk seq.issued { seq with issued := seq.issued ++ [k] } :=
    ⟨hw.nodup, hw.runs, hw.byKey, hw.claimed, hw.cursor⟩
  have hnext' : key.isSome = false → NextIs seq.issued seq.recorded k := by
    intro h
    exact hnext (Option.isNone_iff_eq_none.mp (by simpa using h))
  obtain ⟨c, hwc, ⟨i, row, hrow, hrk, hm⟩ | ⟨hno, hend, hm⟩⟩ :=
    recordedMatch_spec hw' key.isSome hk hnext'
  · -- The row is there: a memo hit, and the row is claimed.
    have hmem := mem_of_getElem? hrow
    have hrun : row.kind = .run := hw.runs row hmem
    refine ⟨{ seq with
      issued := seq.issued ++ [k], cursor := c, claimed := seq.claimed.set i true,
      occurrences := spend seq.occurrences name key }, rfl, rfl, rfl, rfl, rfl, rfl, ?_,
      Or.inl ⟨row, hmem, hrk, hidle, ?_⟩⟩
    · exact ⟨hw.nodup, hw.runs, hw.byKey, hw.claim hrow hrk,
        fun r hr => mem_append_left _ (hwc.cursor r hr)⟩
    · unfold beginRun
      rw [resolve_eq hv, hkey, hstart]
      simp only [Except.bind, landed, hm]
      simp only [hrow, hrun, if_true, Except.map, bind, Except.bind, memoize]
  · -- No row: new ground at the next free position.
    refine ⟨{ seq with
      issued := seq.issued ++ [k], cursor := c, pending := some ⟨seq.storedCount, k, .run⟩,
      occurrences := spend seq.occurrences name key }, rfl, rfl, rfl, rfl, rfl, rfl, ?_,
      Or.inr ⟨hno, rfl, ?_⟩⟩
    · have hext := hwc.extend hno
      exact ⟨hext.nodup, hext.runs, hext.byKey, hext.claimed, hext.cursor⟩
    · have hnew : ({ seq with issued := seq.issued ++ [k], cursor := c } : StepSequence).newGround
          k .run = .ok (⟨seq.storedCount, k, .run⟩, { seq with
            issued := seq.issued ++ [k], cursor := c,
            pending := some ⟨seq.storedCount, k, .run⟩ }) := by
        simp [newGround, hcount]
      unfold beginRun
      rw [resolve_eq hv, hkey, hstart]
      simp only [Except.bind, landed, hm]
      cases hkeyed : key.isSome with
      | true =>
        cases seq.recorded[c]? with
        | some row => simp only [hnew, if_true, Except.map, bind, Except.bind]; rfl
        | none => simp only [hnew, Except.map, bind, Except.bind]; rfl
      | false =>
        simp only [hend hkeyed, hnew, Except.map, bind, Except.bind]
        rfl

end

end StepSequence

end FlexiQ.Step
