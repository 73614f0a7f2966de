/-
# `Workflow.RunKeys` — the runs of a workflow store on Redis, key by key

`redis_store.rs`: a run is a hash, and three families of sorted sets list the
run ids by creation time — all of them, those in a state, those of a
definition.  A definition is a hash with an entry in the sorted set of its
name.

A call is a sequence of commands; a `MULTI` block is one of them.  What is
read before the block can be out of date when the block is executed, so the
calls are programs (`Lib.Prog`).  The score of an entry is a double, so two
creation times past 2⁵³ can share one.
-/
import FlexiQ.Lib.Keyspace
import FlexiQ.Lib.Prog
import FlexiQ.Redis.Store
import FlexiQ.Workflow.State
import Mathlib.Algebra.Ring.Int.Defs
import Mathlib.Data.String.Basic

namespace FlexiQ.Workflow.RedisStore

open FlexiQ.Lib

/-! ## The keys -/

/-- `wf:run:{run}`. -/
structure RunHash where
  run : String
  id : Option String := none
  definitionId : Option String := none
  state : Option WorkflowState := none
  startedAt : Option Int := none
  completedAt : Option Int := none
  error : Option String := none
  parentRunId : Option String := none
  parentNodeName : Option String := none
  «namespace» : Scope := none
  createdAt : Option Int := none
  deriving DecidableEq, Repr

/-- The fields of `new` where it has them, else those of `old`. -/
def RunHash.over (new old : RunHash) : RunHash where
  run := new.run
  id := new.id <|> old.id
  definitionId := new.definitionId <|> old.definitionId
  state := new.state <|> old.state
  startedAt := new.startedAt <|> old.startedAt
  completedAt := new.completedAt <|> old.completedAt
  error := new.error <|> old.error
  parentRunId := new.parentRunId <|> old.parentRunId
  parentNodeName := new.parentNodeName <|> old.parentNodeName
  «namespace» := new.namespace <|> old.namespace
  createdAt := new.createdAt <|> old.createdAt

def RunHash.written (fields : RunHash) : Option RunHash → RunHash
  | some old => fields.over old
  | none => fields

/-- `wf:runs:all`, `wf:runs:by_state:{state}`, `wf:runs:by_def:{definition_id}`. -/
inductive RunIndex
  | all
  | byState (state : WorkflowState)
  | byDef (definitionId : String)
  deriving DecidableEq, Repr

/-- The keys of a store: `definitions` are the hashes `wf:def:{id}`, `byName`
the sorted sets `wf:def:by_name:{name}`. -/
structure Keys where
  definitions : Table String WorkflowDefinition WorkflowDefinition.id
  byName : SortedSets String String
  runs : Table String RunHash RunHash.run
  indexes : SortedSets RunIndex String

def Keys.empty : Keys := ⟨.empty, .empty, .empty, .empty⟩

/-! ## The commands -/

/-- A command of a `MULTI` block. -/
inductive Write
  /-- One `HSET` for each field that `fields` has. -/
  | hset (fields : RunHash)
  | hdelError (run : String)
  | zadd (index : RunIndex) (run : String) (score : Int)
  | zrem (index : RunIndex) (run : String)
  deriving DecidableEq, Repr

def RunHash.cleared (hash : RunHash) : RunHash := { hash with error := none }

def Write.apply : Write → Keys → Keys
  | .hset fields, keys =>
    { keys with runs := keys.runs.upsert (fields.written (keys.runs.find fields.run)) }
  | .hdelError run, keys =>
    { keys with runs := keys.runs.update (fun hash => hash.run = run) RunHash.cleared fun _ => rfl }
  | .zadd index run score, keys =>
    { keys with indexes := keys.indexes.zadd index run (Redis.asF64 score) }
  | .zrem index run, keys => { keys with indexes := keys.indexes.zrem index run }

/-- `MULTI` … `EXEC`. -/
def exec (block : List Write) (keys : Keys) : Keys :=
  block.foldl (fun keys write => write.apply keys) keys

inductive Cmd
  | hgetNamespace (run : String)
  | hgetState (run : String)
  | hgetCreatedAt (run : String)
  | existsRun (run : String)
  | multi (block : List Write)
  deriving DecidableEq, Repr

def Cmd.Reply : Cmd → Type
  | .hgetNamespace _ => Option String
  | .hgetState _ => Option WorkflowState
  | .hgetCreatedAt _ => Option Int
  | .existsRun _ => Bool
  | .multi _ => Unit

def answer : (c : Cmd) → Keys → c.Reply × Keys
  | .hgetNamespace run, keys => ((keys.runs.find run).bind RunHash.namespace, keys)
  | .hgetState run, keys => ((keys.runs.find run).bind RunHash.state, keys)
  | .hgetCreatedAt run, keys => ((keys.runs.find run).bind RunHash.createdAt, keys)
  | .existsRun run, keys => ((keys.runs.find run).isSome, keys)
  | .multi block, keys => ((), exec block keys)

/-! ## The calls -/

abbrev Act (α : Type) := Prog Cmd Cmd.Reply α

def hgetNamespace (run : String) : Act (Option String) := Prog.call (Cmd.hgetNamespace run)
def hgetState (run : String) : Act (Option WorkflowState) := Prog.call (Cmd.hgetState run)
def hgetCreatedAt (run : String) : Act (Option Int) := Prog.call (Cmd.hgetCreatedAt run)
def existsRun (run : String) : Act Bool := Prog.call (Cmd.existsRun run)
def multi (block : List Write) : Act Unit := Prog.call (Cmd.multi block)

/-- `run_out_of_scope`; no namespace addresses every run. -/
def runOutOfScope : Option String → String → Act Bool
  | none, _ => pure false
  | some ns, run => do
    let stored ← hgetNamespace run
    return decide (stored ≠ some ns)

section

variable (ns : Scope) (run : WorkflowRun)

def newHash : RunHash where
  run := run.id
  id := some run.id
  definitionId := some run.definitionId
  state := some run.state
  startedAt := run.startedAt
  completedAt := run.completedAt
  error := run.error
  parentRunId := run.parentRunId
  parentNodeName := run.parentNodeName
  «namespace» := ns
  createdAt := some run.createdAt

/-- The block of `create_workflow_run`. -/
def createOps : List Write :=
  [.hset (newHash ns run),
    .zadd .all run.id run.createdAt,
    .zadd (.byState run.state) run.id run.createdAt,
    .zadd (.byDef run.definitionId) run.id run.createdAt]

/-- `create_workflow_run`, once the parent has been checked. -/
def createUnder : Act (Result Unit) := do
  let foreign ← runOutOfScope ns run.id
  if ns.isSome && foreign then
    let taken ← existsRun run.id
    if taken then return .error (.other ("workflow run id already taken: " ++ run.id))
    else
      multi (createOps ns run)
      return .ok ()
  else
    multi (createOps ns run)
    return .ok ()

def createWorkflowRun : Act (Result Unit) :=
  match run.parentRunId with
  | some parent => do
    let out ← runOutOfScope ns parent
    if out then return .error (.other ("parent workflow run not found: " ++ parent))
    else createUnder ns run
  | none => createUnder ns run

end

/-- The index entry moves from the state that was read, if it is another one
and the run's creation time is known. -/
def moveOps (run : String) (current : Option WorkflowState) (createdAt : Option Int)
    (state : WorkflowState) : List Write :=
  match current, createdAt with
  | some old, some ts =>
    if old ≠ state then [.zrem (.byState old) run, .zadd (.byState state) run ts] else []
  | _, _ => []

def updateWorkflowRunState (ns : Scope) (run : String) (state : WorkflowState)
    (error : Option String) : Act (Result Unit) := do
  let out ← runOutOfScope ns run
  if out then return .ok ()
  else
    let current ← hgetState run
    let createdAt ← hgetCreatedAt run
    multi ([.hset { run := run, state := some state },
      match error with
      | some e => .hset { run := run, error := some e }
      | none => .hdelError run] ++ moveOps run current createdAt state)
    return .ok ()

def setWorkflowRunStarted (ns : Scope) (run : String) (startedAt : Int) : Act (Result Unit) := do
  let out ← runOutOfScope ns run
  if out then return .ok ()
  else
    let createdAt ← hgetCreatedAt run
    let current ← hgetState run
    multi ([.hset { run := run, state := some .running },
      .hset { run := run, startedAt := some startedAt }] ++ moveOps run current createdAt .running)
    return .ok ()

def setWorkflowRunCompleted (ns : Scope) (run : String) (completedAt : Int) :
    Act (Result Unit) := do
  let out ← runOutOfScope ns run
  if out then return .ok ()
  else
    multi [.hset { run := run, completedAt := some completedAt }]
    return .ok ()

/-- `create_workflow_definition`, one block.  A version is an `i32`, and a
double as it is. -/
def createWorkflowDefinition (definition : WorkflowDefinition) (keys : Keys) : Keys :=
  { keys with
    definitions := keys.definitions.upsert definition
    byName := keys.byName.zadd definition.name definition.id definition.version }

/-! ## The listings -/

/-- An `i64` after an operation that does not check for overflow. -/
def wrap64 (x : Int) : Int := (x + 2 ^ 63) % 2 ^ 64 - 2 ^ 63

/-- `ZREVRANGE`: the members from the highest score down, both ends of the
window included, a negative end counted from the last. -/
def zrevrange {K : Type} [DecidableEq K] (sets : SortedSets K String) (set : K)
    (start stop : Int) : List String :=
  let members := ((sets.zrange set).map Scored.member).reverse
  let fromEnd (i : Int) : Int := if i < 0 then i + members.length else i
  let first := max 0 (fromEnd start)
  (members.drop first.toNat).take (fromEnd stop + 1 - first).toNat

def missingField (field : String) : String := "missing field '" ++ field ++ "'"

def hashGet {α : Type} (field : String) : Option α → Except String α
  | some a => .ok a
  | none => .error (missingField field)

/-- `map_to_run`; the namespace is only in the hash. -/
def mapToRun (hash : RunHash) : Except String WorkflowRun := do
  let id ← hashGet "id" hash.id
  let definitionId ← hashGet "definition_id" hash.definitionId
  let state ← hashGet "state" hash.state
  let createdAt ← hashGet "created_at" hash.createdAt
  return ⟨id, definitionId, state, hash.startedAt, hash.completedAt, hash.error, hash.parentRunId,
    hash.parentNodeName, createdAt, hash.namespace⟩

def loadRun (ns : Scope) (keys : Keys) (run : String) : Except String (Option WorkflowRun) :=
  match keys.runs.find run with
  | none => .ok none
  | some hash =>
    if ns.all fun ns => hash.namespace = some ns then (mapToRun hash).map some else .ok none

/-- The loop over the candidates: those this store can see, in the state
asked for. -/
def loadRuns (ns : Scope) (state : Option WorkflowState) (keys : Keys) :
    List String → Except String (List WorkflowRun)
  | [] => .ok []
  | id :: rest => do
    let run ← loadRun ns keys id
    let runs ← loadRuns ns state keys rest
    return match run with
      | some run => if state.all fun st => run.state = st then run :: runs else runs
      | none => runs

def definitionOf (keys : Keys) (name : String) : Option String :=
  (zrevrange keys.byName name 0 0).head?

/-- "The most selective index". -/
def indexFor (definitionId : Option String) (state : Option WorkflowState) : RunIndex :=
  match definitionId, state with
  | some definitionId, _ => .byDef definitionId
  | none, some state => .byState state
  | none, none => .all

/-- `list_workflow_runs`, once the index is chosen.  A store bound to no
namespace leaves the window to the server. -/
def listFrom (ns : Scope) (keys : Keys) (index : RunIndex) (state : Option WorkflowState)
    (limit offset : Int) : Except String (List WorkflowRun) :=
  if ns.isSome then do
    let runs ← loadRuns ns state keys (zrevrange keys.indexes index 0 (-1))
    let rest := runs.drop (max offset 0).toNat
    return if limit ≤ 0 then rest else rest.take limit.toNat
  else
    let stop := if limit ≤ 0 then -1 else wrap64 (wrap64 (offset + limit) - 1)
    loadRuns ns state keys (zrevrange keys.indexes index offset stop)

def listWorkflowRuns (ns : Scope) (keys : Keys) (definitionName : Option String)
    (state : Option WorkflowState) (limit offset : Int) : Except String (List WorkflowRun) :=
  match definitionName with
  | some name =>
    match definitionOf keys name with
    | some definitionId =>
      listFrom ns keys (indexFor (some definitionId) state) state limit offset
    | none => .ok []
  | none => listFrom ns keys (indexFor none state) state limit offset

/-- Before a cursor, in the order of a listing. -/
def beforeCursor (less : String → String → Bool) (after : Int × String) (run : WorkflowRun) :
    Bool :=
  decide (run.createdAt < after.1) || (decide (run.createdAt = after.1) && less run.id after.2)

/-- From the latest to the earliest; runs of one time by their ids. -/
def latestFirst (less : String → String → Bool) (a b : WorkflowRun) : Bool :=
  decide (b.createdAt < a.createdAt) || (decide (b.createdAt = a.createdAt) && !less a.id b.id)

/-- `list_workflow_runs_after`, once the index is chosen. -/
def listAfterFrom (ns : Scope) (keys : Keys) (index : RunIndex)
    (state : Option WorkflowState) (limit : Int) (after : Option (Int × String)) :
    Except String (List WorkflowRun) := do
  let runs ← loadRuns ns state keys (zrevrange keys.indexes index 0 (-1))
  let less (a b : String) : Bool := decide (a < b)
  let sorted := runs.insertionSort fun a b => latestFirst less a b
  return (sorted.filter fun run => after.all fun cursor => beforeCursor less cursor run).take
    (max limit 0).toNat

def listWorkflowRunsAfter (ns : Scope) (keys : Keys) (definitionName : Option String)
    (state : Option WorkflowState) (limit : Int) (after : Option (Int × String)) :
    Except String (List WorkflowRun) :=
  match definitionName with
  | some name =>
    match definitionOf keys name with
    | some definitionId =>
      listAfterFrom ns keys (indexFor (some definitionId) state) state limit after
    | none => .ok []
  | none => listAfterFrom ns keys (indexFor none state) state limit after

end FlexiQ.Workflow.RedisStore
