/-
# `Workflow.Queues` — the job stores, as the workflow code calls them

The three calls of `JobQueue` on the SQL store and on Redis, and a small
workflow on SQLite to run them on.
-/
import FlexiQ.Core.FlatJson
import FlexiQ.Redis.Jobs
import FlexiQ.Sql.Cascade
import FlexiQ.Sql.Dequeue
import FlexiQ.Workflow.Loop
import FlexiQ.Workflow.Ops

namespace FlexiQ.Workflow

/-- `cancel_job` in SQL: the row, and then its dependents. -/
def sqlCancelJob (id : String) (scope : Scope) (now : Int) (q : Sql.Store) :
    Result Bool × Sql.Store :=
  match Sql.cancelJobRow q id scope now with
  | .error e => (.error e, q)
  | .ok (false, q) => (.ok false, q)
  | .ok (true, q) =>
    let (answer, q) := committed q (Sql.cascadeCancel q id dependencyCancelled scope now)
    (answer.map fun _ => true, q)

def sqlJobs : JobQueue Sql.Store where
  enqueue new id now q := committed q (Sql.enqueue q new id now)
  getJob id scope q := Sql.getJob q id scope
  cancelJob := sqlCancelJob

def redisJobs : JobQueue Redis.Store where
  enqueue new id now q := committed q (Redis.enqueue q new id now)
  getJob id scope q := Redis.getJob q id scope
  cancelJob id scope now q :=
    let ((cancelled, _), q) := Redis.cancelJob q id scope now
    (.ok cancelled, q)

/-! ## A small workflow

Run `r` of a workflow of one plain step per name, each after the one before
it. -/

def chainGraph (names : List String) : SerializableGraph :=
  ⟨names, names.zipWith SerializableEdge.mk names.tail⟩

def chainJson (names : List String) : String :=
  let node (name : String) := "\x7b\"name\":\"" ++ name ++ "\"\x7d"
  let edge (e : SerializableEdge) :=
    "\x7b\"from\":\"" ++ e.«from» ++ "\",\"to\":\"" ++ e.«to» ++ "\",\"weight\":1.0\x7d"
  "\x7b\"nodes\":[" ++ ",".intercalate (names.map node) ++ "],\"edges\":[" ++
    ",".intercalate ((chainGraph names).edges.map edge) ++ "]\x7d"

/-- The libraries, on the document of a chain. -/
def smallExternals (names : List String) : Externals where
  fromUtf8 bytes :=
    match String.fromUTF8? ⟨bytes.toArray⟩ with
    | some text => .ok text
    | none => .error "invalid utf-8 sequence"
  graphFromStr text :=
    if text = chainJson names then .ok (chainGraph names) else .error "expected value"
  fromSerializable graph := if graph = chainGraph names then .ok graph else .error "cycle detected"
  topologicalSort graph := .ok graph.nodes
  serde := FlatJson.flatJson
  display _ := "storage error"

theorem sorts_smallExternals {names : List String} (hnodup : names.Nodup)
    (hchain : ∀ e ∈ (chainGraph names).edges, names.idxOf e.«from» < names.idxOf e.«to») :
    (smallExternals names).Sorts := by
  have hchain' : ∀ {graph dag order}, (smallExternals names).fromSerializable graph = .ok dag →
      (smallExternals names).topologicalSort dag = .ok order →
      graph = chainGraph names ∧ order = names := by
    intro graph dag order hdag horder
    cases horder
    unfold smallExternals at hdag
    dsimp only at hdag
    split at hdag
    · next heq =>
      cases hdag
      exact ⟨heq, by rw [heq]; rfl⟩
    · cases hdag
  constructor
  · intro graph dag order hdag horder
    obtain ⟨rfl, rfl⟩ := hchain' hdag horder
    exact ⟨hnodup, fun _ => Iff.rfl⟩
  · intro graph dag order hdag horder
    obtain ⟨rfl, rfl⟩ := hchain' hdag horder
    exact hchain

def smallRequest (names : List String) : SubmitStaticWorkflowRequest where
  name := "w"
  version := 1
  dagBytes := (chainJson names).toUTF8.data.toList
  stepMetadata := names.map fun name => (name, ⟨"t", none, none, none, none, none, none, none⟩)
  nodePayloads := names.map fun name => (name, [])
  queueDefault := "q"
  deferredNodeNames := []
  cacheHitNodes := []
  parentRunId := none
  parentNodeName := none
  defaultTimeoutMs := 1000
  defaultPriority := 0
  defaultMaxRetries := 0
  resultTtlMs := none
  «namespace» := none
  enqueuedBy := none

def smallMinted : Minted := ⟨"r", "d", fun i => if i = 0 then "j0" else "j1", 0⟩

def sqliteHandle : Handle := ⟨.sqlite, none⟩

def emptyWorld : World Sql.Store := ⟨.empty, .empty⟩

def worked (id : String) (now : Int) (q : Sql.Store) : Sql.Store :=
  (committed q ((Sql.complete (Sql.claimPending q id now).2 id none none now).map
    fun q => ((), q))).2

end FlexiQ.Workflow
