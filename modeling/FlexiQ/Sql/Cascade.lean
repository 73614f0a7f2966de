/-
# `Sql.Cascade` — cancelling the dependents of a job that will not complete

`cascade_cancel_reporting`.  The search runs OUTSIDE the transaction that
archives what it found: one read of `job_dependencies` per node, then one
write.  The search between two reads is a `Lib.Search`, so that a history
may place other calls there; `cascadeCancel` is the whole call with nothing
in between.
-/
import FlexiQ.Lib.Bfs
import FlexiQ.Sql.Jobs

namespace FlexiQ.Sql

open FlexiQ.Lib

/-- `cascade_cancel_reporting`.  A node is queued once and every node but the
root is the waiting end of an edge, so there are never more turns than edges
and one. -/
def cascadeCancel (s : Store) (failedJobId reason : String) (scope : Scope)
    (now : Int) : Result (List Job × Store) :=
  let search := (Search.start failedJobId).expandAll (dependentsOf s) (s.edges.length + 1)
  if search.found.isEmpty then .ok ([], s)
  else cascadeArchive s search.found reason failedJobId scope now

theorem mem_dependentsOf {s : Store} {id dep : String} :
    dep ∈ dependentsOf s id ↔ (⟨dep, id⟩ : Edge) ∈ s.edges := by
  simp only [dependentsOf, List.mem_map, List.mem_filter, decide_eq_true_eq]
  constructor
  · rintro ⟨e, ⟨he, rfl⟩, rfl⟩
    exact he
  · intro h
    exact ⟨_, ⟨h, rfl⟩, rfl⟩

end FlexiQ.Sql
