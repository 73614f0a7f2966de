/-
# `Redis.Effects` — what the pipelines do, key family by key family

A pipeline acts on each family of keys separately, so what it does to one
family is the fold of the commands on that family.  The specs below say for
each pipeline what a reader of the documents and of the index sets sees
afterwards; nothing later unfolds a pipeline.
-/
import FlexiQ.Redis.Jobs

namespace FlexiQ.Redis

open List FlexiQ.Lib

/-! ## One family at a time -/

def Cmd.onJobs (t : Table String Job Job.id) : Cmd → Table String Job Job.id
  | .setJob job => t.upsert job
  | .delJob id => t.delete (fun r => r.id = id)
  | _ => t

def Cmd.onArchived (t : Table String Job Job.id) : Cmd → Table String Job Job.id
  | .setArchived job => t.upsert job
  | .delArchived id => t.delete (fun r => r.id = id)
  | _ => t

def Cmd.onDead (t : Table String DeadJobEntry Sql.DeadRow.id) :
    Cmd → Table String DeadJobEntry Sql.DeadRow.id
  | .setDead entry => t.upsert entry
  | .delDead id => t.delete (fun r => r.id = id)
  | _ => t

def Cmd.onSets (t : Sets SetKey String) : Cmd → Sets SetKey String
  | .sadd key member => t.sadd key member
  | .srem key member => t.srem key member
  | .delSet key => t.drop key
  | _ => t

section

variable (cmds : List Cmd) (s : Store)

theorem exec_jobs : (s.exec cmds).jobs = cmds.foldl Cmd.onJobs s.jobs :=
  (foldl_hom Store.jobs fun _ c => by cases c <;> rfl).symm

theorem exec_archived : (s.exec cmds).archived = cmds.foldl Cmd.onArchived s.archived :=
  (foldl_hom Store.archived fun _ c => by cases c <;> rfl).symm

theorem exec_dead : (s.exec cmds).dead = cmds.foldl Cmd.onDead s.dead :=
  (foldl_hom Store.dead fun _ c => by cases c <;> rfl).symm

theorem exec_sets : (s.exec cmds).sets = cmds.foldl Cmd.onSets s.sets :=
  (foldl_hom Store.sets fun _ c => by cases c <;> rfl).symm

end

theorem elim_same {α β : Type} (o : Option α) (b : β) : (o.elim b fun _ => b) = b := by
  cases o <;> rfl

/-! ## Archiving -/

/-- `job` left the live documents for the archive.  Other jobs keep their
documents and their places in the sets, and nobody's dependencies change. -/
structure Archived (s s' : Store) (job : Job) : Prop where
  jobs : ∀ k, s'.jobs.find k = if k = job.id then none else s.jobs.find k
  archived : ∀ k, s'.archived.find k = if k = job.id then some job else s.archived.find k
  dead : s'.dead = s.dead
  deps : ∀ k m, s'.sets.sismember (.dependsOn k) m = s.sets.sismember (.dependsOn k) m
  status : ∀ st m, m ≠ job.id →
    s'.sets.sismember (.status st) m = s.sets.sismember (.status st) m

theorem archiveJobImmediately_spec (s : Store) (job : Job) (old : JobStatus) (now : Int) :
    Archived s (archiveJobImmediately s job old now) job := by
  refine ⟨?_, ?_, ?_, ?_, ?_⟩
  · intro k
    rw [archiveJobImmediately, exec_jobs]
    by_cases hold : old = .pending <;>
      simp [pushArchiveOps, Cmd.onJobs, elim_same, foldl_map, hold, Table.find_delete_key]
  · intro k
    rw [archiveJobImmediately, exec_archived]
    by_cases hold : old = .pending <;>
      simp [pushArchiveOps, Cmd.onArchived, elim_same, foldl_map, hold, Table.find_upsert, eq_comm]
  · rw [archiveJobImmediately, exec_dead]
    by_cases hold : old = .pending <;>
      simp [pushArchiveOps, Cmd.onDead, elim_same, foldl_map, hold]
  · intro k m
    rw [archiveJobImmediately, exec_sets]
    by_cases hold : old = .pending <;>
      simp [pushArchiveOps, Cmd.onSets, elim_same, foldl_map, hold, Sets.sismember_sadd,
        Sets.sismember_srem]
  · intro st m hm
    rw [archiveJobImmediately, exec_sets]
    by_cases hold : old = .pending <;>
      simp [pushArchiveOps, Cmd.onSets, elim_same, foldl_map, hold, Sets.sismember_sadd,
        Sets.sismember_srem, hm]

end FlexiQ.Redis
