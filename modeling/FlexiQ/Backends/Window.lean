/-
# `Backends.Window` — no ready job inside the window is starved

Both backends bound the candidates one dequeue looks at: the SQL backends
take the first `min (4 * max) 400` due rows of the queue and namespace, the
Redis backend the first `4 * max` members of the queue's sorted set, at
least 100 and at most 400.  Candidates that are then skipped still use up
the window, so a ready job BEHIND it can be passed over by every call
(`ready_job_passed_over`); a ready job inside it cannot.

What stands in front of what is a matter of columns on SQL and of one packed
number on Redis.  The two agree where the number has room for both columns
(`packed_order`).
-/
import FlexiQ.Redis.Ready
import FlexiQ.Sql.Ready

namespace FlexiQ.Backends

/-- **A ready job inside the scan window is never starved**: one batch
dequeue claims at least one job, on the SQL backends and on Redis. -/
theorem dequeue_claims_in_window :
    (∀ (s : Sql.Store) (queue : String) (now : Int) (ns : Option String) (max : Nat)
      (order : Sql.DispatchOrder) (job : Job), Sql.Separate s → 1 ≤ max →
      Sql.Ready s queue now ns job →
      job ∈ Sql.scanDequeueCandidates s queue now ns (Sql.scanLimit max) order →
      ∃ out s', Sql.dequeueBatchOrdered s queue now ns max order = .ok (out, s') ∧
        out.claimed ≠ []) ∧
    ∀ (s : Redis.Store) (queue : String) (now : Int) (ns : Option String) (max : Nat)
      (job : Job), 1 ≤ max → Redis.Ready s queue now ns job →
      job.id ∈ Redis.window s queue max →
      (Redis.dequeueBatch s queue now ns max).1.1 ≠ [] := by
  refine ⟨?_, ?_⟩
  · intro s queue now ns max order job hsep hmax hready hwindow
    exact Sql.dequeueBatchOrdered_claims hsep hmax hready hwindow
  · intro s queue now ns max job hmax hready hwindow
    exact Redis.dequeueBatch_claims hmax hready hwindow

def queuedJob (id : String) (priority scheduledAt : Int) (dependsOn : List String) : Job :=
  (⟨"q", "task", [], priority, scheduledAt, 3, 1000, none, none, none, dependsOn, none, none,
    none, none, none⟩ : NewJob).intoJob id 0

/-- A job that four others wait for, and behind those four a job that waits
for nothing. -/
def crowdedStore : Sql.Store :=
  { Sql.Store.empty with
    jobs := ⟨[queuedJob "parent" 0 100 [], queuedJob "a" 1 0 ["parent"],
      queuedJob "b" 1 0 ["parent"], queuedJob "c" 1 0 ["parent"], queuedJob "d" 1 0 ["parent"],
      queuedJob "ready" 0 0 []], by decide⟩
    edges := [⟨"a", "parent"⟩, ⟨"b", "parent"⟩, ⟨"c", "parent"⟩, ⟨"d", "parent"⟩] }

def crowdedJobs : List Job :=
  (List.range 100).map (fun i =>
    queuedJob (String.singleton (Char.ofNat (256 + i))) 1 (1000 + 2 * i) []) ++
    [queuedJob "ready" 0 0 []]

theorem nodup_crowdedJobs : (crowdedJobs.map Job.id).Nodup := by
  decide +kernel

def crowdedServer : Redis.Store :=
  { Redis.Store.empty with
    jobs := ⟨crowdedJobs, nodup_crowdedJobs⟩
    sets := ⟨crowdedJobs.map fun job => (.status .pending, job.id), by
      refine List.Nodup.of_map Prod.snd ?_
      rw [List.map_map, List.map_map]
      exact nodup_crowdedJobs⟩
    zsets := ⟨crowdedJobs.map fun job => ⟨.pending "q", job.id,
      Redis.dequeueScore job.priority job.scheduledAt⟩, by
      refine List.Nodup.of_map Prod.snd ?_
      rw [List.map_map, List.map_map]
      exact nodup_crowdedJobs⟩ }

theorem ready_in_crowdedStore : Sql.Ready crowdedStore "q" 10 none (queuedJob "ready" 0 0 []) :=
  ⟨by decide, rfl, rfl, by decide, rfl, rfl, by decide⟩

theorem separate_crowdedStore : Sql.Separate crowdedStore := by
  intro k row _
  rfl

theorem ready_in_crowdedServer :
    Redis.Ready crowdedServer "q" 10 none (queuedJob "ready" 0 0 []) where
  live := by decide +kernel
  queued := by decide +kernel
  pending := rfl
  indexed := by decide +kernel
  due := by decide
  unexpired := rfl
  inNamespace := rfl
  deps := by decide +kernel

/-- Four blocked jobs fill the window of a single-job batch on the SQL
backends, a hundred jobs that are not due fill it on Redis, and the ready
job behind them is passed over. -/
theorem ready_job_passed_over :
    (Sql.Ready crowdedStore "q" 10 none (queuedJob "ready" 0 0 []) ∧ Sql.Separate crowdedStore ∧
      Sql.dequeueBatchOrdered crowdedStore "q" 10 none 1 .fifo = .ok (⟨[], []⟩, crowdedStore)) ∧
    Redis.Ready crowdedServer "q" 10 none (queuedJob "ready" 0 0 []) ∧
      (Redis.dequeueBatch crowdedServer "q" 10 none 1).1 = ([], []) :=
  ⟨⟨ready_in_crowdedStore, separate_crowdedStore, by decide +kernel⟩, ready_in_crowdedServer,
    by decide +kernel⟩

theorem ready_job_claimed :
    (∃ out s', Sql.dequeueBatchOrdered crowdedStore "q" 10 none 2 .fifo = .ok (out, s') ∧
      out.claimed ≠ []) ∧
    (Redis.dequeueBatch crowdedServer "q" 10 none 26).1.1 ≠ [] :=
  ⟨dequeue_claims_in_window.1 crowdedStore "q" 10 none 2 .fifo (queuedJob "ready" 0 0 [])
      separate_crowdedStore (by decide) ready_in_crowdedStore (by decide +kernel),
    dequeue_claims_in_window.2 crowdedServer "q" 10 none 26 (queuedJob "ready" 0 0 [])
      (by decide) ready_in_crowdedServer (by decide +kernel)⟩

/-! ## The order of a window -/

def clamped (job : Job) : Int := max 0 (min job.priority 999)

/-- What `dequeue_score` packs, as an exact number: before it wraps and becomes
a float. -/
def packed (job : Job) : Int := (1000 - clamped job) * 10000000000000 + job.scheduledAt

theorem dequeueScore_of_packed {job : Job} (h : -2 ^ 63 ≤ packed job ∧ packed job < 2 ^ 63) :
    Redis.dequeueScore job.priority job.scheduledAt = Redis.asF64 (packed job) := by
  have hsum : Int.bmod (packed job) (2 ^ 64) = packed job :=
    Int.bmod_eq_of_le (by omega) (by omega)
  exact congrArg Redis.asF64 hsum

/-- The entry of a job in the sorted set of its queue, under the exact number. -/
def packedEntry (job : Job) : Lib.Scored Redis.ZKey String :=
  ⟨.pending job.queue, job.id, packed job⟩

/-- There is room above the instant for what the priority adds. -/
def HasRoom (job : Job) : Prop :=
  job.scheduledAt < 2 ^ 63 - (1000 - clamped job) * 10 ^ 13

/-- A job of higher priority is not scheduled so much later that the step
between the priorities, as clamped, is used up. -/
def Apart (a b : Job) : Prop :=
  b.priority < a.priority → a.scheduledAt - b.scheduledAt < (clamped a - clamped b) * 10 ^ 13

section Packed

variable {a b : Job}

theorem packed_fits_iff (h : -2 ^ 63 ≤ a.scheduledAt) :
    (-2 ^ 63 ≤ packed a ∧ packed a < 2 ^ 63) ↔ HasRoom a := by
  unfold packed HasRoom clamped
  omega

theorem packed_lt_iff (hab : Apart a b) (hba : Apart b a) :
    packed a < packed b ↔ a.priority > b.priority ∨
      (a.priority = b.priority ∧ a.scheduledAt < b.scheduledAt) := by
  unfold Apart at hab hba
  unfold packed clamped at *
  omega

theorem packed_eq_iff (hab : Apart a b) (hba : Apart b a) :
    packed a = packed b ↔ a.priority = b.priority ∧ a.scheduledAt = b.scheduledAt := by
  unfold Apart at hab hba
  unfold packed clamped at *
  omega

/-- Whatever the two jobs are called, the packed number puts the one in front
that the columns put in front. -/
def SameOrder (a b : Job) : Prop :=
  ∀ i j, Lib.SortedSets.before (packedEntry { a with id := i }) (packedEntry { b with id := j }) ↔
    Sql.DispatchOrder.fifo.before { a with id := i } { b with id := j }

theorem sameOrder_iff : SameOrder a b ↔ Apart a b ∧ Apart b a := by
  have hbefore (i j : String) :
      Lib.SortedSets.before (packedEntry { a with id := i }) (packedEntry { b with id := j }) ↔
        packed a < packed b ∨ (packed a = packed b ∧ i ≤ j) := Iff.rfl
  constructor
  · -- The same two jobs under names in either order: a tie must be a tie on both sides.
    intro h
    have hup := h "a" "b"
    have hdown := h "b" "a"
    rw [hbefore] at hup hdown
    simp only [show ("a" ≤ "b") = True by decide, show ("b" ≤ "a") = False by decide, and_true,
      and_false, or_false, Sql.DispatchOrder.before] at hup hdown
    unfold Apart
    unfold packed at hup hdown
    constructor <;> intro hlt <;> omega
  · rintro ⟨hab, hba⟩ i j
    rw [hbefore, packed_lt_iff hab hba, packed_eq_iff hab hba]
    unfold Sql.DispatchOrder.before
    tauto

/-- **When Redis dispatches in the order of the SQL backends**, higher priority
first and then the earlier instant: exactly where the instants leave room.  What
is stored there is the packed number, as a double. -/
theorem packed_order (ha : -2 ^ 63 ≤ a.scheduledAt) (hb : -2 ^ 63 ≤ b.scheduledAt) :
    (((-2 ^ 63 ≤ packed a ∧ packed a < 2 ^ 63) ∧ (-2 ^ 63 ≤ packed b ∧ packed b < 2 ^ 63) ∧
      SameOrder a b) ↔ HasRoom a ∧ HasRoom b ∧ Apart a b ∧ Apart b a) ∧
    (HasRoom a → Redis.dequeueScore a.priority a.scheduledAt = Redis.asF64 (packed a)) := by
  constructor
  · rw [packed_fits_iff ha, packed_fits_iff hb, sameOrder_iff]
  · intro hroom
    exact dequeueScore_of_packed ((packed_fits_iff ha).mpr hroom)

end Packed

/-- Priorities from 999 on are packed alike, so the earlier job of the lower
priority goes first; and a sleep that saturates overflows the sum. -/
theorem packed_too_tight :
    (Sql.DispatchOrder.fifo.before (queuedJob "a" 2000 1 []) (queuedJob "b" 1000 0 []) ∧
      ¬ Lib.SortedSets.before (packedEntry (queuedJob "a" 2000 1 []))
        (packedEntry (queuedJob "b" 1000 0 []))) ∧
    2 ^ 63 ≤ packed (queuedJob "a" 0 (2 ^ 63 - 1) []) := by
  decide

theorem packed_with_room :
    SameOrder (queuedJob "a" 5 0 []) (queuedJob "b" 5 (2 * 10 ^ 13) []) :=
  ((packed_order (a := queuedJob "a" 5 0 []) (b := queuedJob "b" 5 (2 * 10 ^ 13) []) (by decide)
    (by decide)).1.mpr ⟨by unfold HasRoom; decide, by unfold HasRoom; decide,
      fun h => absurd h (by decide), fun h => absurd h (by decide)⟩).2.2

end FlexiQ.Backends
