/-
# `Scheduler.InFlight` — what a scheduler remembers of its dispatches

`scheduler/mod.rs`.  A dispatch is remembered under its JOB ID: live while
its slot is taken, retired once the slot is freed.  There is one live and
one retired record per id, so a second dispatch of a job takes the place of
the first and leaves nothing of it to check a late result against.
-/
import FlexiQ.Lib.Table
import Mathlib.Data.List.Basic

namespace FlexiQ.Scheduler

open FlexiQ.Lib

/-- `DispatchRecord`: the fencing token of one dispatch. -/
structure DispatchRecord where
  taskName : String
  queue : String
  owner : String
  attempt : Int
  epoch : Option Int
  deriving DecidableEq, Repr

def retiredDispatches : Nat := 1024

/-- `InFlight`.  `retiredOrder` lists the ids of `retired`, oldest first. -/
structure InFlight where
  byJob : Table String (String × DispatchRecord) Prod.fst
  countByTask : Table String (String × Nat) Prod.fst
  retired : Table String (String × DispatchRecord) Prod.fst
  retiredOrder : List String
  deriving DecidableEq

namespace InFlight

def empty : InFlight := ⟨.empty, .empty, .empty, []⟩

section

variable (f : InFlight)

def live (jobId : String) : Option DispatchRecord :=
  (f.byJob.find jobId).map Prod.snd

def spent (jobId : String) : Option DispatchRecord :=
  (f.retired.find jobId).map Prod.snd

def countFor (taskName : String) : Nat :=
  ((f.countByTask.find taskName).map Prod.snd).getD 0

def dropRetired (jobId : String) : InFlight :=
  match f.retired.find jobId with
  | some _ => { f with
      retired := f.retired.delete (fun e => e.1 = jobId)
      retiredOrder := f.retiredOrder.filter (· ≠ jobId) }
  | none => f

/-- `insert`: the new dispatch is the only one remembered of this id. -/
def insert (jobId : String) (record : DispatchRecord) : InFlight :=
  let f := f.dropRetired jobId
  match f.byJob.find jobId with
  | some _ => { f with byJob := f.byJob.upsert (jobId, record) }
  | none => { f with
      byJob := f.byJob.upsert (jobId, record)
      countByTask := f.countByTask.upsert (record.taskName, f.countFor record.taskName + 1) }

/-- `take`: the live record and its count, retiring nothing. -/
def take (jobId : String) : Option DispatchRecord × InFlight :=
  match f.live jobId with
  | none => (none, f)
  | some record =>
    let count := f.countFor record.taskName - 1
    (some record, { f with
      byJob := f.byJob.delete (fun e => e.1 = jobId)
      countByTask :=
        if count = 0 then f.countByTask.delete (fun e => e.1 = record.taskName)
        else f.countByTask.upsert (record.taskName, count) })

end

/-- The trim of `retire`: pop the oldest until the rest fits. -/
def trim : List String → Table String (String × DispatchRecord) Prod.fst →
    List String × Table String (String × DispatchRecord) Prod.fst
  | [], retired => ([], retired)
  | oldest :: order, retired =>
    if retiredDispatches < (oldest :: order).length then
      trim order (retired.delete (fun e => e.1 = oldest))
    else (oldest :: order, retired)

section

variable (f : InFlight) (jobId : String)

def retire (record : DispatchRecord) : InFlight :=
  let order := match f.retired.find jobId with
    | some _ => f.retiredOrder
    | none => f.retiredOrder ++ [jobId]
  let (order, retired) := trim order (f.retired.upsert (jobId, record))
  { f with retired := retired, retiredOrder := order }

/-- `remove`: the live record, retired. -/
def remove : Option DispatchRecord × InFlight :=
  match f.take jobId with
  | (none, f) => (none, f)
  | (some record, f) => (some record, f.retire jobId record)

/-- `last_dispatch`: the live record, else the retired one. -/
def lastDispatch : Option DispatchRecord :=
  (f.live jobId).or (f.spent jobId)

/-- `forget`: the rollback of a dispatch that never left. -/
def forget : InFlight :=
  (f.take jobId).2.dropRetired jobId

end

/-! ## The live records, operation by operation -/

section

variable (f : InFlight)

@[simp] theorem live_dropRetired (jobId k : String) : (f.dropRetired jobId).live k = f.live k := by
  unfold dropRetired
  split <;> rfl

theorem live_insert (jobId : String) (record : DispatchRecord) (k : String) :
    (f.insert jobId record).live k = if jobId = k then some record else f.live k := by
  have hput : ∀ g : InFlight, ∀ count,
      ({ g with byJob := g.byJob.upsert (jobId, record), countByTask := count } : InFlight).live k =
        if jobId = k then some record else g.live k := by
    intro g count
    unfold live
    rw [Table.find_upsert]
    split <;> rfl
  unfold insert
  simp only []
  split
  · rw [← live_dropRetired f jobId k]
    exact hput _ _
  · rw [← live_dropRetired f jobId k]
    exact hput _ _

theorem take_fst (jobId : String) : (f.take jobId).1 = f.live jobId := by
  unfold take
  cases h : f.live jobId <;> rfl

theorem live_take (jobId k : String) :
    (f.take jobId).2.live k = if k = jobId then none else f.live k := by
  unfold take
  cases h : f.live jobId with
  | none =>
    by_cases hk : k = jobId
    · simp [hk, h]
    · simp [hk]
  | some record =>
    show ((f.byJob.delete (fun e => e.1 = jobId)).find k).map Prod.snd = _
    rw [Table.find_delete_key]
    split <;> rfl

theorem remove_fst (jobId : String) : (f.remove jobId).1 = f.live jobId := by
  rw [← take_fst, remove]
  cases h : f.take jobId with
  | mk o g => cases o <;> rfl

theorem live_remove (jobId k : String) :
    (f.remove jobId).2.live k = if k = jobId then none else f.live k := by
  rw [← live_take, remove]
  cases h : f.take jobId with
  | mk o g => cases o <;> rfl

end

theorem remove_of_live_none {f : InFlight} {jobId : String} (h : f.live jobId = none) :
    f.remove jobId = (none, f) := by
  unfold remove take
  rw [h]

theorem live_forget (f : InFlight) (jobId k : String) :
    (f.forget jobId).live k = if k = jobId then none else f.live k := by
  rw [forget, live_dropRetired, live_take]

end InFlight

end FlexiQ.Scheduler
