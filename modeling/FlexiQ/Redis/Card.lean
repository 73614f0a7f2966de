/-
# `Redis.Card` — the server as one job sees it

The keys that concern ONE job — its two documents, its places in the index
sets and in the queues, what it waits for, its claim, its settle marker and
its steps — are gathered on a `Card`.  A command acts on the card of a job as
it acts on the server (`exec_card`), so what a pipeline does to a job is
computed on the card and says everything about that job: the pipelines below
have one equation each, and a job they are not about keeps its card.
-/
import FlexiQ.Redis.Requests

namespace FlexiQ.Redis

open FlexiQ.Lib

structure Card where
  doc : Option Job
  gone : Option Job
  status : JobStatus → Bool
  byQueue : String → Bool
  byTask : String → Bool
  queued : String → Bool
  waitsFor : String → Bool
  claim : Option ClaimKey
  marker : Option MarkerKey
  steps : Option StepHash

def cardOf (s : Store) (j : String) : Card where
  doc := s.jobs.find j
  gone := s.archived.find j
  status := fun st => s.sets.sismember (.status st) j
  byQueue := fun q => s.sets.sismember (.byQueue q) j
  byTask := fun t => s.sets.sismember (.byTask t) j
  queued := fun q => (s.zsets.zscore (.pending q) j).isSome
  waitsFor := fun d => s.sets.sismember (.dependsOn j) d
  claim := s.claims.find j
  marker := s.markers.find j
  steps := s.steps.find j

namespace Card

section

variable (card : Card) (j : String)

/-- `SADD`, as job `j` sees it. -/
def sadd (key : SetKey) (m : String) : Card :=
  match key with
  | .status st =>
    if m = j then { card with status := fun st' => st' = st || card.status st' } else card
  | .byQueue q =>
    if m = j then { card with byQueue := fun q' => q' = q || card.byQueue q' } else card
  | .byTask t => if m = j then { card with byTask := fun t' => t' = t || card.byTask t' } else card
  | .dependsOn k =>
    if k = j then { card with waitsFor := fun d => d = m || card.waitsFor d } else card
  | .byNs _ => card
  | .archivedStatus _ => card
  | .dependents _ => card

def srem (key : SetKey) (m : String) : Card :=
  match key with
  | .status st =>
    if m = j then { card with status := fun st' => st' ≠ st && card.status st' } else card
  | .byQueue q =>
    if m = j then { card with byQueue := fun q' => q' ≠ q && card.byQueue q' } else card
  | .byTask t => if m = j then { card with byTask := fun t' => t' ≠ t && card.byTask t' } else card
  | .dependsOn k =>
    if k = j then { card with waitsFor := fun d => d ≠ m && card.waitsFor d } else card
  | .byNs _ => card
  | .archivedStatus _ => card
  | .dependents _ => card

def delSet (key : SetKey) : Card :=
  match key with
  | .status st => { card with status := fun st' => st' ≠ st && card.status st' }
  | .byQueue q => { card with byQueue := fun q' => q' ≠ q && card.byQueue q' }
  | .byTask t => { card with byTask := fun t' => t' ≠ t && card.byTask t' }
  | .dependsOn k => if k = j then { card with waitsFor := fun _ => false } else card
  | .byNs _ => card
  | .archivedStatus _ => card
  | .dependents _ => card

def zadd (key : ZKey) (m : String) : Card :=
  match key with
  | .pending q => if m = j then { card with queued := fun q' => q' = q || card.queued q' } else card
  | _ => card

def zrem (key : ZKey) (m : String) : Card :=
  match key with
  | .pending q => if m = j then { card with queued := fun q' => q' ≠ q && card.queued q' } else card
  | _ => card

end

section

variable (clock : Int) (j : String) (card : Card)

/-- A command on a server whose clock shows `clock`, as job `j` sees it. -/
def apply : Cmd → Card
  | .setJob job => if job.id = j then { card with doc := some job } else card
  | .delJob id => if id = j then { card with doc := none } else card
  | .setArchived job => if job.id = j then { card with gone := some job } else card
  | .delArchived id => if id = j then { card with gone := none } else card
  | .setDead _ => card
  | .delDead _ => card
  | .setUnique _ => card
  | .delUnique .. => card
  | .sadd key m => card.sadd j key m
  | .srem key m => card.srem j key m
  | .delSet key => card.delSet j key
  | .zadd key m _ => card.zadd j key m
  | .zrem key m => card.zrem j key m
  | .setClaim id value =>
    if id = j then { card with claim := some ⟨id, value, clock + claimTtlMs⟩ } else card
  | .delClaim id => if id = j then { card with claim := none } else card
  | .setMarker id deadline =>
    if id = j then { card with marker := some ⟨id, deadline, clock + claimTtlMs⟩ } else card
  | .delMarker id => if id = j then { card with marker := none } else card
  | .setSteps hash =>
    if hash.jobId = j then
      { card with steps := if hash.expiresAt ≤ clock then none else some hash }
    else card
  | .delSteps id => if id = j then { card with steps := none } else card

def run (cmds : List Cmd) : Card :=
  cmds.foldl (apply clock j) card

@[simp] theorem run_nil : card.run clock j [] = card := rfl

@[simp] theorem run_cons (c : Cmd) (cmds : List Cmd) :
    card.run clock j (c :: cmds) = (card.apply clock j c).run clock j cmds := rfl

@[simp] theorem run_append (cmds cmds' : List Cmd) :
    card.run clock j (cmds ++ cmds') = (card.run clock j cmds).run clock j cmds' :=
  List.foldl_append

end

end Card

/-! ## A command acts on the cards -/

section Apply

variable (s : Store) (j : String)

theorem card_sadd (key : SetKey) (m : String) :
    cardOf (s.apply (.sadd key m)) j = (cardOf s j).sadd j key m := by
  unfold cardOf Store.apply
  simp only [Sets.sismember_sadd]
  cases key <;> simp only [Card.sadd] <;> try split
  all_goals simp_all [eq_comm]

theorem card_srem (key : SetKey) (m : String) :
    cardOf (s.apply (.srem key m)) j = (cardOf s j).srem j key m := by
  unfold cardOf Store.apply
  simp only [Sets.sismember_srem]
  cases key <;> simp only [Card.srem] <;> try split
  all_goals simp_all [eq_comm]

theorem card_delSet (key : SetKey) :
    cardOf (s.apply (.delSet key)) j = (cardOf s j).delSet j key := by
  unfold cardOf Store.apply
  simp only [Sets.sismember_drop]
  cases key <;> simp only [Card.delSet] <;> try split
  all_goals simp_all [eq_comm]

theorem card_zadd (key : ZKey) (m : String) (score : Int) :
    cardOf (s.apply (.zadd key m score)) j = (cardOf s j).zadd j key m := by
  unfold cardOf Store.apply
  simp only [SortedSets.zscore_zadd]
  cases key <;> simp only [Card.zadd] <;> try split
  all_goals simp_all [eq_comm, apply_ite Option.isSome]

theorem card_zrem (key : ZKey) (m : String) :
    cardOf (s.apply (.zrem key m)) j = (cardOf s j).zrem j key m := by
  unfold cardOf Store.apply
  simp only [SortedSets.zscore_zrem]
  cases key <;> simp only [Card.zrem] <;> try split
  all_goals simp_all [eq_comm, apply_ite Option.isSome]

/-- **A command acts on a job's card.** -/
theorem apply_card (c : Cmd) : cardOf (s.apply c) j = (cardOf s j).apply s.clock j c := by
  cases c with
  | sadd key m => exact card_sadd s j key m
  | srem key m => exact card_srem s j key m
  | delSet key => exact card_delSet s j key
  | zadd key m score => exact card_zadd s j key m score
  | zrem key m => exact card_zrem s j key m
  | setDead | delDead | setUnique | delUnique => rfl
  | setSteps hash =>
    simp only [Store.apply, cardOf, Card.apply]
    by_cases hlate : hash.expiresAt ≤ s.clock
    · rw [if_pos hlate, if_pos hlate]
      simp only [Table.find_delete_key, eq_comm (a := j)]
      split <;> rfl
    · rw [if_neg hlate, if_neg hlate, Table.find_upsert]
      split <;> rfl
  | setJob | setArchived | setClaim | setMarker =>
    simp only [Store.apply, cardOf, Card.apply, Table.find_upsert]
    split <;> rfl
  | delJob | delArchived | delClaim | delMarker | delSteps =>
    simp only [Store.apply, cardOf, Card.apply, Table.find_delete_key, eq_comm (a := j)]
    split <;> rfl

theorem apply_clock (c : Cmd) : (s.apply c).clock = s.clock := by
  cases c <;> rfl

end Apply

theorem exec_clock (cmds : List Cmd) : ∀ s : Store, (s.exec cmds).clock = s.clock := by
  induction cmds with
  | nil => exact fun _ => rfl
  | cons c cmds ih => exact fun s => (ih (s.apply c)).trans (apply_clock s c)

/-- **So does a pipeline.** -/
theorem exec_card (j : String) (cmds : List Cmd) : ∀ s : Store,
    cardOf (s.exec cmds) j = (cardOf s j).run s.clock j cmds := by
  induction cmds with
  | nil => exact fun _ => rfl
  | cons c cmds ih =>
    intro s
    refine (ih (s.apply c)).trans ?_
    rw [apply_card, apply_clock, Card.run_cons]

/-! ## The pipelines -/

namespace Card

section Entries

variable (clock : Int) (j : String) (card : Card)

theorem run_of_hidden {cmds : List Cmd}
    (h : ∀ c ∈ cmds, ∀ card : Card, card.apply clock j c = card) :
    card.run clock j cmds = card := by
  induction cmds with
  | nil => rfl
  | cons c cmds ih =>
    rw [run_cons, h c List.mem_cons_self]
    exact ih fun c hc => h c (List.mem_cons_of_mem _ hc)

@[simp] theorem run_debounce_zadd (job : Job) (m : String) (score : Int) :
    card.run clock j ((jobDebounceIndexKey job).toList.map fun key => .zadd key m score) =
      card := by
  refine run_of_hidden clock j card fun c hc card => ?_
  obtain ⟨key, hkey, rfl⟩ := List.mem_map.mp hc
  obtain ⟨k, -, rfl⟩ := Option.map_eq_some_iff.mp (Option.mem_toList.mp hkey)
  rfl

@[simp] theorem run_debounce_zrem (job : Job) (m : String) :
    card.run clock j ((jobDebounceIndexKey job).toList.map fun key => .zrem key m) = card := by
  refine run_of_hidden clock j card fun c hc card => ?_
  obtain ⟨key, hkey, rfl⟩ := List.mem_map.mp hc
  obtain ⟨k, -, rfl⟩ := Option.map_eq_some_iff.mp (Option.mem_toList.mp hkey)
  rfl

@[simp] theorem run_archivedExpiry (expiry : Option Int) (m : String) :
    card.run clock j (expiry.toList.map fun at' => .zadd .archivedExpiry m (asF64 at')) = card := by
  refine run_of_hidden clock j card fun c hc card => ?_
  obtain ⟨at', -, rfl⟩ := List.mem_map.mp hc
  rfl

end Entries

section

variable (card : Card) (job : Job)

def requeued (old : JobStatus) (revoke : Bool) : Card :=
  { card with
    doc := some job
    status := if old = .pending then card.status
      else fun st => st = .pending || (st ≠ old && card.status st)
    queued := fun q => q = job.queue || card.queued q
    claim := if revoke then none else card.claim }

def returned (old : JobStatus) : Card :=
  { card with
    doc := some job
    status := fun st => st = .pending || (st ≠ old && card.status st)
    queued := fun q => q = job.queue || card.queued q
    claim := none }

/-- Out of `queue` and running. -/
def started (queue : String) : Card :=
  { card with
    doc := some job
    status := fun st => st = .running || (st ≠ .pending && card.status st)
    queued := fun q => q ≠ queue && card.queued q }

def shelved (old : JobStatus) : Card :=
  { card with
    doc := none
    gone := some job
    status := fun st => st ≠ old && card.status st
    byQueue := fun q => q ≠ job.queue && card.byQueue q
    byTask := fun t => t ≠ job.taskName && card.byTask t
    queued := if old = .pending then fun q => q ≠ job.queue && card.queued q else card.queued
    claim := none
    steps := none }

/-- Brought in, behind `dependsOn`. -/
def inserted (dependsOn : List String) : Card :=
  { card with
    doc := some job
    status := fun st => st = job.status || card.status st
    byQueue := fun q => q = job.queue || card.byQueue q
    byTask := fun t => t = job.taskName || card.byTask t
    queued := fun q => q = job.queue || card.queued q
    waitsFor := fun d => d ∈ dependsOn || card.waitsFor d }

end

end Card

section Pipelines

variable (clock : Int) (j : String) (card : Card)

theorem requeueOps_card (job : Job) (old : JobStatus) (revoke : Bool) :
    card.run clock j (requeueOps job old revoke) =
      if job.id = j then card.requeued job old revoke else card := by
  by_cases hj : job.id = j <;> by_cases hold : old = .pending <;> cases revoke <;>
    simp [requeueOps, Card.requeued, Card.apply, Card.sadd, Card.srem, Card.zadd, Card.zrem, hj,
      hold]

theorem requeueStuckOps_card (read : Job) (now : Int) :
    card.run clock j (requeueStuckOps read now) =
      if read.id = j then
        card.returned { read.pendingAt now with cancelRequested := false } .running
      else card := by
  by_cases hj : read.id = j <;>
    simp [requeueStuckOps, Card.returned, Card.apply, Card.sadd, Card.srem, Card.zadd, Card.zrem,
      Job.pendingAt, hj]

theorem suspendOps_card (old : Job) (deadline : Int) : card.run clock j (suspendOps old deadline) =
      if old.id = j then card.returned (old.pendingAt deadline) old.status else card := by
  by_cases hj : old.id = j <;>
    simp [suspendOps, Card.returned, Card.apply, Card.sadd, Card.srem, Card.zadd, Card.zrem,
      Job.pendingAt, hj]

theorem claimOps_card (queue : String) (running : Job) : card.run clock j (claimOps queue running) =
      if running.id = j then card.started running queue else card := by
  by_cases hj : running.id = j <;>
    simp [claimOps, Card.started, Card.apply, Card.sadd, Card.srem, Card.zrem, hj]

theorem pushArchiveOps_card (job : Job) (old : JobStatus) (now : Int) :
    card.run clock j (pushArchiveOps job old now) =
      if job.id = j then card.shelved job old else card := by
  by_cases hj : job.id = j <;> by_cases hold : old = .pending <;>
    simp [pushArchiveOps, Card.shelved, Card.apply, Card.sadd, Card.srem, Card.zadd, Card.zrem,
      hj, hold]

theorem edges_card (id : String) : ∀ (dependsOn : List String) (card : Card),
    card.run clock j (dependsOn.flatMap fun depId =>
        [.sadd (.dependsOn id) depId, .sadd (.dependents depId) id]) =
      if id = j then { card with waitsFor := fun d => d ∈ dependsOn || card.waitsFor d }
      else card := by
  intro dependsOn
  induction dependsOn with
  | nil =>
    intro card
    simp
  | cons depId dependsOn ih =>
    intro card
    rw [List.flatMap_cons, Card.run_append, ih]
    by_cases hj : id = j
    · simp only [Card.run_cons, Card.run_nil, Card.apply, Card.sadd, hj, if_true]
      congr 1
      funext d
      by_cases hd : d = depId <;> simp [hd]
    · simp [Card.apply, Card.sadd, hj]

theorem insertOps_card (job : Job) (dependsOn : List String) :
    card.run clock j (insertOps job dependsOn) =
      if job.id = j then card.inserted job dependsOn else card := by
  rw [insertOps, Card.run_append, edges_card, Card.run_append, Card.run_debounce_zadd]
  by_cases hj : job.id = j <;>
    simp [Card.apply, Card.sadd, Card.zadd, Card.inserted, hj]

end Pipelines

end FlexiQ.Redis
