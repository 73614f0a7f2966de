/-
# `Worker.Slots` — the slots of an attached executor

The scheduler keeps its own count of an executor's free slots: `place` takes
one off, a result puts it back.  The reader thread handles heartbeats too,
and a heartbeat can only lower the count.  But the executor reads the number
before it sends it, and frames a result before it counts the job off.

One that was read before a result and sent after it takes a slot for good; and
where `place` had seen that slot, the count wraps around
(`stale_heartbeat_loses_slot`).
-/
import FlexiQ.Lib.Runs
import Mathlib.Algebra.Ring.Nat
import Mathlib.Data.List.Basic

namespace FlexiQ.Worker

open FlexiQ.Lib

/-- The frames of an executor that bear on its slots. -/
inductive Frame
  | result (jobId : String)
  | heartbeat (freeSlots : Nat)
  deriving DecidableEq

/-! ## The executor -/

/-- The jobs on the wire to it, those that run, `in_flight` and `free_slots`.
The rest says how far its threads are between two atomic operations. -/
structure Executor where
  jobs : List String := []
  running : List String := []
  inFlight : Nat := 0
  freeSlots : Nat
  /-- Results framed before their `job_finished`, and declines after it. -/
  finishing : Nat := 0
  declining : List String := []
  /-- Calls of `publish_free` still to load the count, and what others loaded. -/
  due : Nat := 0
  loaded : List Nat := []
  beat : Option Nat := none
  deriving DecidableEq

inductive Executor.Act
  | accept
  | finish (jobId : String)
  | finished
  | refuse (jobId : String)
  | decline
  | load
  | publish (i : Nat)
  | readFree
  | beat
  deriving DecidableEq

/-- One atomic operation of a thread of the executor, and the frames it sends. -/
def Executor.next (slots : Nat) (x : Executor) : Act → Option (Executor × List Frame)
  -- `accept_job`, up to `job_started`
  | .accept => x.jobs.head?.map fun jobId =>
    ({ x with
      jobs := x.jobs.tail, running := x.running ++ [jobId]
      inFlight := x.inFlight + 1, due := x.due + 1 }, [])
  -- `send_result`, and its `job_finished`
  | .finish jobId =>
    if jobId ∈ x.running then
      some ({ x with running := x.running.erase jobId, finishing := x.finishing + 1 },
        [.result jobId])
    else none
  | .finished =>
    if x.finishing = 0 then none
    else some ({ x with
      finishing := x.finishing - 1, inFlight := x.inFlight - 1, due := x.due + 1 }, [])
  -- the pool is saturated: `job_finished`, and `decline`
  | .refuse jobId =>
    if jobId ∈ x.running then
      some ({ x with
        running := x.running.erase jobId, declining := x.declining ++ [jobId]
        inFlight := x.inFlight - 1, due := x.due + 1 }, [])
    else none
  | .decline => x.declining.head?.map fun jobId =>
    ({ x with declining := x.declining.tail }, [.result jobId])
  -- `publish_free`
  | .load =>
    if x.due = 0 then none
    else some ({ x with due := x.due - 1, loaded := x.loaded ++ [slots - x.inFlight] }, [])
  | .publish i => (x.loaded[i]?).map fun freeSlots =>
    ({ x with loaded := x.loaded.eraseIdx i, freeSlots := freeSlots }, [])
  -- the heartbeat thread
  | .readFree => if x.beat = none then some ({ x with beat := some x.freeSlots }, []) else none
  | .beat => x.beat.map fun freeSlots => ({ x with beat := none }, [.heartbeat freeSlots])

/-! ## The scheduler -/

/-- Where `place` is with its job. -/
inductive Placing
  | saw (jobId : String)
  | reserved (jobId : String)
  deriving DecidableEq

/-- An executor as the scheduler has it, the frames on the wire, and the
executor itself. -/
structure Link where
  free : Nat
  inFlight : List String := []
  placing : Option Placing := none
  /-- The reader has taken an entry and not yet given the slot back. -/
  crediting : Bool := false
  frames : List Frame := []
  executor : Executor
  deriving DecidableEq

/-- `fetch_add(1)` on the `u32`. -/
def fetchAdd (n : Nat) : Nat := (n + 1) % 2 ^ 32

/-- `fetch_sub(1)` on the `u32`. -/
def fetchSub (n : Nat) : Nat := (n + (2 ^ 32 - 1)) % 2 ^ 32

namespace Link

def start (slots : Nat) : Link := { free := slots, executor := { freeSlots := slots } }

inductive Event
  | saw (jobId : String)
  | reserve
  | dispatch
  | giveBack
  | handle
  | credit
  | executor (act : Executor.Act)
  deriving DecidableEq

/-- One atomic operation of a thread on either side. -/
def next (slots : Nat) (l : Link) : Event → Option Link
  -- `try_acquire`, which loads the count before it takes a slot
  | .saw jobId =>
    if l.placing = none ∧ l.free ≠ 0 ∧ jobId ∉ l.inFlight then
      some { l with placing := some (.saw jobId) }
    else none
  | .reserve =>
    match l.placing with
    | some (.saw jobId) => some { l with
        free := fetchSub l.free, placing := some (.reserved jobId) }
    | _ => none
  -- `dispatch_to`
  | .dispatch =>
    match l.placing with
    | some (.reserved jobId) =>
      if jobId ∈ l.inFlight then some { l with free := fetchAdd l.free, placing := none }
      else some { l with
        placing := none, inFlight := l.inFlight ++ [jobId]
        executor := { l.executor with jobs := l.executor.jobs ++ [jobId] } }
    | _ => none
  -- `place`, where the snapshot could not be read
  | .giveBack =>
    match l.placing with
    | some (.reserved _) => some { l with free := fetchAdd l.free, placing := none }
    | _ => none
  -- `handle_frame`
  | .handle =>
    match l.crediting, l.frames with
    | false, .heartbeat freeSlots :: frames =>
      some { l with frames := frames, free := min l.free freeSlots }
    | false, .result jobId :: frames =>
      if jobId ∈ l.inFlight then
        some { l with
          frames := frames, inFlight := l.inFlight.erase jobId, crediting := true }
      else some { l with frames := frames }
    | _, _ => none
  | .credit =>
    if l.crediting then some { l with free := fetchAdd l.free, crediting := false } else none
  | .executor act => (l.executor.next slots act).map fun (x, sent) =>
    { l with executor := x, frames := l.frames ++ sent }

def reserved (l : Link) : Nat :=
  match l.placing with
  | some (.reserved _) => 1
  | _ => 0

/-- No heartbeat is below the count it meets. -/
def Fresh (l : Link) (e : Event) : Prop :=
  match e, l.frames with
  | .handle, .heartbeat freeSlots :: _ => l.free ≤ freeSlots
  | _, _ => True

instance (l : Link) (e : Event) : Decidable (l.Fresh e) := by
  unfold Fresh
  split <;> infer_instance

/-! ## Every slot is accounted for -/

structure Accounted (slots : Nat) (l : Link) : Prop where
  total : l.free + l.inFlight.length + l.reserved + l.crediting.toNat = slots
  seen : ∀ jobId, l.placing = some (.saw jobId) → 0 < l.free
  width : slots < 2 ^ 32

section Steps

variable {slots : Nat} {l l' : Link}

theorem fetchAdd_eq {n : Nat} (h : n + 1 < 2 ^ 32) : fetchAdd n = n + 1 := Nat.mod_eq_of_lt h

theorem fetchSub_add_one {n : Nat} (h : n < 2 ^ 32) (hpos : 0 < n) : fetchSub n + 1 = n := by
  unfold fetchSub
  omega

section

variable (h : l.Accounted slots)
include h

theorem Accounted.reserve {jobId : String} (hplacing : l.placing = some (.saw jobId)) :
    ({ l with free := fetchSub l.free, placing := some (.reserved jobId) } :
      Link).Accounted slots := by
  obtain ⟨htotal, hseen, hwidth⟩ := h
  simp only [reserved, hplacing] at htotal
  have hdrop := fetchSub_add_one (n := l.free) (by omega) (hseen jobId hplacing)
  refine ⟨?_, nofun, hwidth⟩
  show fetchSub l.free + l.inFlight.length + 1 + l.crediting.toNat = slots
  omega

theorem Accounted.giveBack {jobId : String} (hplacing : l.placing = some (.reserved jobId)) :
    ({ l with free := fetchAdd l.free, placing := none } : Link).Accounted slots := by
  obtain ⟨htotal, -, hwidth⟩ := h
  simp only [reserved, hplacing] at htotal
  have hgain := fetchAdd_eq (n := l.free) (by omega)
  refine ⟨?_, nofun, hwidth⟩
  show fetchAdd l.free + l.inFlight.length + 0 + l.crediting.toNat = slots
  omega

theorem Accounted.dispatch {jobId : String} {x : Executor}
    (hplacing : l.placing = some (.reserved jobId)) :
    ({ l with placing := none, inFlight := l.inFlight ++ [jobId], executor := x } :
      Link).Accounted slots := by
  obtain ⟨htotal, -, hwidth⟩ := h
  simp only [reserved, hplacing] at htotal
  refine ⟨?_, nofun, hwidth⟩
  show l.free + (l.inFlight ++ [jobId]).length + 0 + l.crediting.toNat = slots
  rw [List.length_append, List.length_singleton]
  omega

theorem Accounted.credit (hcrediting : l.crediting = true) :
    ({ l with free := fetchAdd l.free, crediting := false } : Link).Accounted slots := by
  obtain ⟨htotal, -, hwidth⟩ := h
  rw [hcrediting, Bool.toNat_true] at htotal
  have hgain := fetchAdd_eq (n := l.free) (by omega)
  refine ⟨?_, fun _ _ => ?_, hwidth⟩
  · show fetchAdd l.free + l.inFlight.length + l.reserved + 0 = slots
    omega
  · show 0 < fetchAdd l.free
    omega

theorem Accounted.handle (hfresh : l.Fresh .handle)
    (hnext : l.next slots .handle = some l') : l'.Accounted slots := by
  simp only [Link.next] at hnext
  split at hnext
  · next freeSlots frames _ hframes =>
    cases hnext
    have hmin : min l.free freeSlots = l.free :=
      min_eq_left (by simpa only [Fresh, hframes] using hfresh)
    exact ⟨(by rw [hmin]; exact h.total), (by rw [hmin]; exact h.seen), h.width⟩
  · next jobId frames hcrediting _ =>
    split at hnext
    · next hmem =>
      cases hnext
      have htotal := h.total
      rw [hcrediting, Bool.toNat_false, ← List.length_erase_add_one hmem] at htotal
      refine ⟨?_, h.seen, h.width⟩
      show l.free + (l.inFlight.erase jobId).length + l.reserved + 1 = slots
      omega
    · cases hnext
      exact ⟨h.total, h.seen, h.width⟩
  · cases hnext

theorem Accounted.next {e : Event} (hfresh : l.Fresh e)
    (hnext : l.next slots e = some l') : l'.Accounted slots := by
  cases e with
  | saw jobId =>
    obtain ⟨⟨hplacing, hfree, -⟩, hnext⟩ := Option.ite_none_right_eq_some.mp hnext
    cases hnext
    have htotal := h.total
    rw [reserved, hplacing] at htotal
    exact ⟨htotal, fun _ _ => Nat.pos_of_ne_zero hfree, h.width⟩
  | reserve =>
    simp only [Link.next] at hnext
    split at hnext
    · next hplacing =>
      obtain rfl := Option.some.inj hnext
      exact h.reserve hplacing
    · cases hnext
  | dispatch =>
    simp only [Link.next] at hnext
    split at hnext
    · next hplacing =>
      split at hnext <;> cases hnext
      · exact h.giveBack hplacing
      · exact h.dispatch hplacing
    · cases hnext
  | giveBack =>
    simp only [Link.next] at hnext
    split at hnext <;> cases hnext
    next hplacing => exact h.giveBack hplacing
  | handle => exact h.handle hfresh hnext
  | credit =>
    obtain ⟨hcrediting, hnext⟩ := Option.ite_none_right_eq_some.mp hnext
    cases hnext
    exact h.credit hcrediting
  | executor act =>
    obtain ⟨_, -, rfl⟩ := Option.map_eq_some_iff.mp hnext
    exact ⟨h.total, h.seen, h.width⟩

end

end Steps

/-- **No slot leaks**, and none is made up, as long as heartbeats are fresh. -/
theorem slots_accounted {slots : Nat} (hwidth : slots < 2 ^ 32) {l : Link}
    (h : Reaches (next slots) Fresh (start slots) l) :
    l.free + l.inFlight.length + l.reserved ≤ slots ∧
      (l.crediting = false → l.free + l.inFlight.length + l.reserved = slots) := by
  obtain ⟨htotal, -, -⟩ : l.Accounted slots :=
    h.invariant ⟨rfl, nofun, hwidth⟩ fun _ _ _ hI hok hnext => hI.next hok hnext
  refine ⟨by omega, fun hidle => ?_⟩
  rw [hidle] at htotal
  exact htotal

def oneJob (acts : List Executor.Act) : List Event :=
  [.saw "a", .reserve, .dispatch] ++ acts.map .executor ++ [.handle, .credit]

def stale : List Executor.Act :=
  [.accept, .load, .publish 0, .readFree, .finish "a", .finished, .load, .publish 0, .beat]

/-- The heartbeat says what the scheduler knows. -/
theorem late_reading_keeps_slot : ∃ l, Reaches (next 1) Fresh (start 1) l ∧
    l.frames = [] ∧ l.free + l.inFlight.length + l.reserved = 1 := by
  refine exists_reached_imp (P := fun l => l.frames = [] ∧ l.crediting = false)
    (oneJob [.accept, .load, .publish 0, .finish "a", .finished, .load, .publish 0, .readFree,
      .beat] ++ [.handle]) ?_
  exact fun l hl hP => ⟨hP.1, (slots_accounted (by decide) hl).2 hP.2⟩

/-- The heartbeat is from before the result.  If `place` comes in between, the
scheduler has all but one of a `u32`. -/
theorem stale_heartbeat_loses_slot :
    (∃ l, Reaches (next 1) (fun _ _ => True) (start 1) l ∧
      l = { free := 0, executor := { freeSlots := 1 } }) ∧
    ∃ l, Reaches (next 1) (fun _ _ => True) (start 1) l ∧
      1 < l.free + l.inFlight.length + l.reserved :=
  ⟨exists_reached (oneJob stale ++ [.handle]),
    exists_reached (oneJob stale ++ [.saw "b", .handle, .reserve])⟩

end Link

end FlexiQ.Worker
