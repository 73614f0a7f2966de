/-
# `Workflow.Listings` — the same listing on every backend?

The same definitions and runs are written through a SQL store and through a
Redis store, and both are asked for a page of runs.  SQL joins on the
definition's name, applies every filter and then the window.  Redis picks one
index and, for a name, ONE definition: that of the highest version.  A store
bound to no namespace also leaves the window to the server, and filters what
it gets by state.

So the pages differ where a name has two versions
(`older_version_not_listed`), and where such a store filters by name and state.
Elsewhere they are the same runs in the same order (`listings_agree`).
-/
import FlexiQ.Workflow.Effects
import FlexiQ.Workflow.RunIndex

namespace FlexiQ.Workflow

open FlexiQ.Lib FlexiQ.Resilience Table
open FlexiQ.Redis (asF64 asF64_mono)
open List hiding beq_eq_decide

/-! ## The SQL listings -/

def setWorkflowRunStarted (h : Handle) (runId : String) (startedAt : Int) (s : Store) : Store :=
  updateRun h runId (fun run => { run with state := .running, startedAt := some startedAt })
    (fun _ => rfl) s

/-- `RUN_IN_NAMESPACE`. -/
def Handle.owns (h : Handle) (run : WorkflowRun) : Bool :=
  h.namespace.all fun ns => run.namespace = some ns

def selected (h : Handle) (s : Store) (definitionName : Option String)
    (state : Option WorkflowState) (run : WorkflowRun) : Bool :=
  (definitionName.all fun name =>
      (s.definitions.find run.definitionId).any fun d => d.name = name) &&
    (state.all fun st => run.state = st) && h.owns run

/-- `LIMIT ? OFFSET ?`, as SQLite reads it: no limit if it is negative.
Postgres refuses a negative number. -/
def window {α : Type} (limit offset : Int) (rows : List α) : List α :=
  let rest := rows.drop offset.toNat
  if limit < 0 then rest else rest.take limit.toNat

/-- `ORDER BY created_at DESC`. -/
def latest (a b : WorkflowRun) : Prop := b.createdAt ≤ a.createdAt

instance : DecidableRel latest := fun _ _ => inferInstanceAs (Decidable (_ ≤ _))

def listWorkflowRuns (h : Handle) (s : Store) (definitionName : Option String)
    (state : Option WorkflowState) (limit offset : Int) : List WorkflowRun :=
  window limit offset
    ((s.runs.rows.filter (selected h s definitionName state)).insertionSort latest)

/-- `list_workflow_runs_after`.  `less` is how the database compares text; no
cursor is a cursor behind everything. -/
def listWorkflowRunsAfter (less : String → String → Bool) (h : Handle) (s : Store)
    (definitionName : Option String) (state : Option WorkflowState) (limit : Int)
    (after : Option (Int × String)) : List WorkflowRun :=
  let cursor := after.getD (2 ^ 63 - 1, "")
  window limit 0 ((s.runs.rows.filter fun run =>
    selected h s definitionName state run && RedisStore.beforeCursor less cursor run).insertionSort
      fun a b => RedisStore.latestFirst less a b)

/-! ## The writes -/

inductive RunWrite
  | define (definition : WorkflowDefinition)
  | create (ns : Scope) (run : WorkflowRun)
  | update (ns : Scope) (run : String) (state : WorkflowState) (error : Option String)
  | start (ns : Scope) (run : String) (startedAt : Int)
  | complete (ns : Scope) (run : String) (completedAt : Int)
  deriving DecidableEq

def RunWrite.onSql (b : Backend) : RunWrite → Store → Store
  | .define definition, s => (createWorkflowDefinition ⟨b, none⟩ definition s).2
  | .create ns run, s => (createWorkflowRun ⟨b, ns⟩ run s).2
  | .update ns run state error, s => updateWorkflowRunState ⟨b, ns⟩ run state error s
  | .start ns run startedAt, s => setWorkflowRunStarted ⟨b, ns⟩ run startedAt s
  | .complete ns run completedAt, s => setWorkflowRunCompleted ⟨b, ns⟩ run completedAt s

def RunWrite.onRedis : RunWrite → RedisStore.Keys → RedisStore.Keys
  | .define definition, keys => RedisStore.createWorkflowDefinition definition keys
  | .create ns run, keys => ((RedisStore.createWorkflowRun ns run).run RedisStore.answer keys).2
  | .update ns run state error, keys =>
    ((RedisStore.updateWorkflowRunState ns run state error).run RedisStore.answer keys).2
  | .start ns run startedAt, keys =>
    ((RedisStore.setWorkflowRunStarted ns run startedAt).run RedisStore.answer keys).2
  | .complete ns run completedAt, keys =>
    ((RedisStore.setWorkflowRunCompleted ns run completedAt).run RedisStore.answer keys).2

/-- A write that is not a conflict: SQL refuses a second definition of one name
and version and a second run of one id, Redis writes over the first; a write to
a run that is not there makes a stray hash on Redis.  Creation times are
distinct, also as doubles, and before the end of time. -/
def RunWrite.Fits (s : Store) : RunWrite → Prop
  | .define definition => ∀ d ∈ s.definitions.rows,
      d.id ≠ definition.id ∧ ¬(d.name = definition.name ∧ d.version = definition.version)
  | .create _ run => run.createdAt < 2 ^ 63 - 1 ∧
      ∀ other ∈ s.runs.rows, other.id ≠ run.id ∧ asF64 other.createdAt ≠ asF64 run.createdAt
  | .update ns run _ _ | .start ns run _ | .complete ns run _ =>
    ns = none → (s.runs.find run).isSome = true

def bothWrite (b : Backend) (stores : Store × RedisStore.Keys) (write : RunWrite) :
    Option (Store × RedisStore.Keys) :=
  some (write.onSql b stores.1, write.onRedis stores.2)

/-! ## The relation -/

def RedisStore.RunIndex.holds : RedisStore.RunIndex → WorkflowRun → Bool
  | .all, _ => true
  | .byState state, run => run.state = state
  | .byDef definitionId, run => run.definitionId = definitionId

open RedisStore (Keys RunHash RunIndex Write newHash moveOps runOutOfScope zrevrange latestFirst
  beforeCursor indexFor loadRun loadRuns definitionOf wrap64 listFrom listAfterFrom createOps
  createUnder smallRun find_hset find_hdelError existsRun)

/-- Where a run stands in an index. -/
def WorkflowRun.score (run : WorkflowRun) : Int := asF64 run.createdAt

/-- Two stores that hold the same definitions and runs. -/
structure Agrees (s : Store) (keys : Keys) : Prop where
  byName : ∀ name id, keys.byName.zscore name id =
    ((s.definitions.find id).filter fun d => d.name = name).map WorkflowDefinition.version
  runs : ∀ id, keys.runs.find id = (s.runs.find id).map fun run => newHash run.namespace run
  indexes : ∀ index id, keys.indexes.zscore index id =
    ((s.runs.find id).filter index.holds).map WorkflowRun.score
  dated : ∀ id run, s.runs.find id = some run → run.createdAt < 2 ^ 63 - 1 ∧
    ∀ id' run', s.runs.find id' = some run' → run.score = run'.score → run = run'

theorem agrees_empty : Agrees .empty .empty :=
  ⟨fun _ _ => rfl, fun _ => rfl, fun _ _ => rfl, fun _ _ h => by cases h⟩

section Writes

variable {s s' : Store} {keys fields : Keys} {run : WorkflowRun}

theorem Agrees.set (h : Agrees s keys) (run : WorkflowRun) (hdefs : s'.definitions = s.definitions)
    (hname : fields.byName = keys.byName)
    (hrow : ∀ id, s'.runs.find id = if id = run.id then some run else s.runs.find id)
    (hdate : run.createdAt < 2 ^ 63 - 1 ∧ ∀ id other, s.runs.find id = some other →
      id ≠ run.id → other.score ≠ run.score)
    (hhash : ∀ id, fields.runs.find id =
      if id = run.id then some (newHash run.namespace run) else keys.runs.find id)
    (hscore : ∀ index id, fields.indexes.zscore index id =
      if id = run.id then (if index.holds run then some run.score else none)
      else keys.indexes.zscore index id) : Agrees s' fields := by
  refine ⟨fun name id => ?_, fun id => ?_, fun index id => ?_, fun id r hr => ?_⟩
  · rw [hname, hdefs, h.byName]
  · rw [hhash, hrow]
    split
    · rfl
    · exact h.runs id
  · rw [hscore, hrow]
    split
    · cases hholds : index.holds run <;> simp [hholds]
    · exact h.indexes index id
  · rw [hrow] at hr
    split at hr
    · next hid =>
      cases hr
      refine ⟨hdate.1, fun id' r' hr' heq => ?_⟩
      rw [hrow] at hr'
      split at hr'
      · exact Option.some.inj hr'
      · next hne => exact absurd heq.symm (hdate.2 id' r' hr' hne)
    · next hne =>
      refine ⟨(h.dated id r hr).1, fun id' r' hr' heq => ?_⟩
      rw [hrow] at hr'
      split at hr'
      · cases hr'
        exact absurd heq (hdate.2 id r hr hne)
      · exact (h.dated id r hr).2 id' r' hr' heq

theorem zscore_moveOps (id : String) (old state : WorkflowState) (ts : Int) (keys : Keys)
    (index : RunIndex) (id' : String) :
    (RedisStore.exec (moveOps id (some old) (some ts) state) keys).indexes.zscore index id' =
      if id' = id ∧ old ≠ state ∧ (index = .byState state ∨ index = .byState old) then
        (if index = .byState state then some (asF64 ts) else none)
      else keys.indexes.zscore index id' := by
  unfold moveOps
  dsimp only
  by_cases hne : old ≠ state
  · rw [if_pos hne]
    refine (SortedSets.zscore_zadd _ _ _ _ _ _).trans ?_
    dsimp only [Write.apply]
    rw [SortedSets.zscore_zrem]
    by_cases hid : id' = id <;> by_cases hnew : index = .byState state <;>
      by_cases hold : index = .byState old <;> simp [hid, hnew, hold, hne]
  · rw [if_neg hne, if_neg fun h => hne h.2.1]
    rfl

theorem Agrees.move {new : WorkflowRun} (h : Agrees s keys) (hrun : s.runs.find run.id = some run)
    (hkeep : new.id = run.id ∧ new.definitionId = run.definitionId ∧
      new.createdAt = run.createdAt) (hdefs : s'.definitions = s.definitions)
    (hrow : ∀ id, s'.runs.find id = if id = run.id then some new else s.runs.find id)
    (hname : fields.byName = keys.byName) (hindex : fields.indexes = keys.indexes)
    (hhash : ∀ id, fields.runs.find id =
      if id = run.id then some (newHash new.namespace new) else keys.runs.find id) :
    Agrees s' (RedisStore.exec
      (moveOps run.id (some run.state) (some run.createdAt) new.state) fields) := by
  have hmove : ∀ {α : Type} (g : Keys → α), (∀ index m score (k : Keys),
        g { k with indexes := k.indexes.zadd index m score } = g k ∧
        g { k with indexes := k.indexes.zrem index m } = g k) →
      g (RedisStore.exec (moveOps run.id (some run.state) (some run.createdAt) new.state) fields) =
        g fields := by
    intro α g hg
    unfold moveOps
    dsimp only
    split
    · exact (hg _ _ _ _).1.trans (hg _ _ 0 _).2
    · rfl
  have hscore : new.score = run.score := congrArg asF64 hkeep.2.2
  refine h.set new hdefs ((hmove Keys.byName fun _ _ _ _ => ⟨rfl, rfl⟩).trans hname)
    (fun id => by rw [hkeep.1]; exact hrow id) ⟨?_, fun id other hother hne => ?_⟩
    (fun id => ?_) fun index id => ?_
  · rw [hkeep.2.2]
    exact (h.dated _ _ hrun).1
  · rw [hscore]
    intro heq
    have hsame := (h.dated _ _ hother).2 _ _ hrun heq
    rw [hkeep.1, ← hsame] at hne
    exact hne (key_of_find hother).symm
  · rw [hmove Keys.runs fun _ _ _ _ => ⟨rfl, rfl⟩, hkeep.1]
    exact hhash id
  · rw [zscore_moveOps, hindex, hkeep.1, hscore, h.indexes, ← WorkflowRun.score]
    by_cases hid : id = run.id
    · subst hid
      rw [hrun]
      cases index with
      | all => simp [RunIndex.holds]
      | byDef => simp [RunIndex.holds, hkeep.2.1, Option.filter, apply_ite]
      | byState state =>
        simp only [RunIndex.holds, RunIndex.byState.injEq, Option.filter, decide_eq_true_eq]
        by_cases hnew : new.state = state
        · by_cases hold : run.state = state <;> simp [hnew, hold]
        · by_cases hold : run.state = state
          · simp [hnew, hold, Ne.symm hnew]
          · simp [hnew, hold, Ne.symm hnew, Ne.symm hold]
    · simp [hid]

theorem run_outOfScope (h : Agrees s keys) (b : Backend) (ns : Scope) (id : String) :
    (runOutOfScope ns id).run RedisStore.answer keys = (!(⟨b, ns⟩ : Handle).sees s id, keys) := by
  cases ns with
  | none => rfl
  | some ns =>
    refine Prod.ext ?_ rfl
    show decide ((keys.runs.find id).bind RunHash.namespace ≠ some ns) =
      !(s.runs.find id).any fun run => run.namespace == some ns
    rw [h.runs]
    cases s.runs.find id with
    | none => rfl
    | some run =>
      show decide (¬run.namespace = some ns) = !(run.namespace == some ns)
      rw [decide_not, beq_eq_decide]

/-- An update of a run, in both stores: on Redis `rest` is what follows the look
at its namespace. -/
theorem Agrees.update {b : Backend} {ns : Scope} {id : String}
    {f : WorkflowRun → WorkflowRun} {hf : ∀ run, (f run).id = run.id} (h : Agrees s keys)
    (hthere : ns = none → (s.runs.find id).isSome = true)
    (hkeep : ∀ run, (f run).definitionId = run.definitionId ∧
      (f run).createdAt = run.createdAt) {rest : RedisStore.Act (Result Unit)}
    (hrest : ∀ run, id = run.id → keys.runs.find run.id = some (newHash run.namespace run) →
      ∃ fields : Keys, (rest.run RedisStore.answer keys).2 = RedisStore.exec
          (moveOps run.id (some run.state) (some run.createdAt) (f run).state) fields ∧
        fields.byName = keys.byName ∧ fields.indexes = keys.indexes ∧ ∀ id, fields.runs.find id =
          if id = run.id then some (newHash (f run).namespace (f run)) else keys.runs.find id) :
    Agrees (updateRun ⟨b, ns⟩ id f hf s) ((do
      let out ← runOutOfScope ns id
      if out then return .ok () else rest : RedisStore.Act _).run RedisStore.answer keys).2 := by
  rw [Prog.run_bind, run_outOfScope h b]
  cases hsees : (⟨b, ns⟩ : Handle).sees s id with
  | false =>
    rw [updateRun, if_neg (by simp [hsees])]
    exact h
  | true =>
    obtain ⟨run, hrun⟩ : ∃ run, s.runs.find id = some run := by
      cases ns with
      | none => exact Option.isSome_iff_exists.mp (hthere rfl)
      | some =>
        obtain ⟨run, hrun, -⟩ := (Option.any_eq_true _ _).mp hsees
        exact ⟨run, hrun⟩
    obtain rfl : run.id = id := key_of_find hrun
    obtain ⟨fields, hkeys, hname, hindex, hhash⟩ :=
      hrest run rfl ((h.runs _).trans (congrArg _ hrun))
    show Agrees _ (rest.run RedisStore.answer keys).2
    rw [hkeys]
    refine h.move hrun ⟨hf run, hkeep run⟩ (updateRun_definitions _ _ _ _) (fun id => ?_) hname
      hindex hhash
    rw [find_updateRun, hsees]
    by_cases hid : id = run.id
    · subst hid
      simp [hrun]
    · simp [hid]

theorem exec_move {id : String} (hhash : keys.runs.find id = some (newHash run.namespace run))
    (writes : List Write) (state : WorkflowState) :
    RedisStore.exec (writes ++ moveOps id ((keys.runs.find id).bind RunHash.state)
        ((keys.runs.find id).bind RunHash.createdAt) state) keys =
      RedisStore.exec (moveOps id (some run.state) (some run.createdAt) state)
        (RedisStore.exec writes keys) := by
  rw [hhash]
  exact foldl_append

theorem find_over (fields : RunHash) {hash : RunHash}
    (hhash : keys.runs.find fields.run = some hash) (id : String) :
    ((Write.hset fields).apply keys).runs.find id =
      if id = fields.run then some (fields.over hash) else keys.runs.find id := by
  rw [find_hset, hhash]
  simp only [RunHash.written, eq_comm]

theorem find_over₂ (one two : RunHash) {hash : RunHash} (hsame : two.run = one.run)
    (hhash : keys.runs.find one.run = some hash) (id : String) :
    (RedisStore.exec [.hset one, .hset two] keys).runs.find id =
      if id = one.run then some (two.over (one.over hash)) else keys.runs.find id := by
  have hone := (find_over one hhash one.run).trans (if_pos rfl)
  rw [← hsame] at hone
  refine (find_over two hone id).trans ?_
  rw [hsame, find_over one hhash]
  split <;> rfl

variable {b : Backend}

theorem Agrees.define (h : Agrees s keys) {definition : WorkflowDefinition}
    (hfits : (RunWrite.define definition).Fits s) :
    Agrees ((RunWrite.define definition).onSql b s)
      ((RunWrite.define definition).onRedis keys) := by
  have hfree : (s.definitions.rows.any fun d => d.id = definition.id ||
      (d.name = definition.name && d.version = definition.version)) = false := by
    refine any_eq_false.mpr fun d hd => ?_
    simp only [Bool.or_eq_true, Bool.and_eq_true, decide_eq_true_eq, not_or]
    exact hfits d hd
  have hsql : (RunWrite.define definition).onSql b s =
      { s with definitions := s.definitions.upsert definition } := by
    simp only [RunWrite.onSql, createWorkflowDefinition, hfree, Bool.and_false, Bool.false_eq_true,
      if_false]
  rw [hsql]
  refine ⟨fun name id => ?_, h.runs, h.indexes, h.dated⟩
  refine (SortedSets.zscore_zadd _ _ _ _ _ _).trans ?_
  rw [find_upsert, h.byName]
  by_cases hid : definition.id = id
  · subst hid
    have hnone : s.definitions.find definition.id = none :=
      find_eq_none.mpr fun d hd => (hfits d hd).1
    by_cases hname : definition.name = name
    · simp [hname]
    · simp [hname, Ne.symm hname, hnone]
  · simp [hid, Ne.symm hid]

theorem Agrees.create (h : Agrees s keys) (hb : b ≠ .redis) {ns : Scope}
    (hfits : (RunWrite.create ns run).Fits s) :
    Agrees ((RunWrite.create ns run).onSql b s) ((RunWrite.create ns run).onRedis keys) := by
  have habsent : s.runs.find run.id = none :=
    find_eq_none.mpr fun other hother => (hfits.2 other hother).1
  have hnew : ∀ runs, s.runs.insert { run with «namespace» := ns } = some runs →
      Agrees { s with runs := runs } (RedisStore.exec (createOps ns run) keys) := by
    intro runs hruns
    refine h.set { run with «namespace» := ns } rfl rfl (fun id => ?_) ⟨hfits.1,
      fun id other hother _ => (hfits.2 other (find_eq_some.mp hother).1).2⟩
      (fun id => ?_) fun index id => ?_
    · refine (find_insert hruns id).trans ?_
      simp only [eq_comm]
    · refine (find_hset keys (newHash ns run) id).trans ?_
      have hnone : keys.runs.find (newHash ns run).run = none := by
        rw [h.runs]
        exact congrArg _ habsent
      rw [hnone]
      simp only [newHash, eq_comm, RunHash.written]
    · refine (SortedSets.zscore_zadd _ _ _ _ _ _).trans ?_
      dsimp only [List.foldl, Write.apply]
      rw [SortedSets.zscore_zadd, SortedSets.zscore_zadd]
      by_cases hid : id = run.id
      · subst hid
        rw [h.indexes, habsent]
        cases index <;> simp [RunIndex.holds, WorkflowRun.score, eq_comm]
      · simp [hid]
  obtain ⟨runs, hruns⟩ := insert_isSome (r := { run with «namespace» := ns }) habsent
  have hunder : ((createUnder ns run).run RedisStore.answer keys).2 =
      RedisStore.exec (createOps ns run) keys := by
    have hfree : (existsRun run.id).run RedisStore.answer keys = (false, keys) := by
      refine Prod.ext ?_ rfl
      show (keys.runs.find run.id).isSome = false
      rw [h.runs, habsent]
      rfl
    unfold createUnder
    rw [Prog.run_bind, run_outOfScope h b]
    split
    · rw [Prog.run_bind, hfree]
      rfl
    · rfl
  show Agrees (createWorkflowRun ⟨b, ns⟩ run s).2
    ((RedisStore.createWorkflowRun ns run).run RedisStore.answer keys).2
  unfold RedisStore.createWorkflowRun
  have hsql : (run.parentRunId.any fun parent => !(⟨b, ns⟩ : Handle).sees s parent) = false →
      (createWorkflowRun ⟨b, ns⟩ run s).2 = { s with runs := runs } := by
    intro hparent
    unfold createWorkflowRun
    rw [if_neg (by simp [hparent]), hruns]
    cases b with
    | redis => exact absurd rfl hb
    | sqlite => rfl
    | postgres => rfl
  cases hparent : run.parentRunId with
  | none =>
    rw [hunder, hsql (by rw [hparent]; rfl)]
    exact hnew runs hruns
  | some parent =>
    rw [Prog.run_bind, run_outOfScope h b]
    cases hsees : (⟨b, ns⟩ : Handle).sees s parent with
    | true =>
      rw [hsql (by rw [hparent, Option.any_some, hsees]; rfl)]
      exact hunder ▸ hnew runs hruns
    | false =>
      have hsame : (createWorkflowRun ⟨b, ns⟩ run s).2 = s := by
        unfold createWorkflowRun
        rw [if_pos (by rw [hparent, Option.any_some, hsees]; rfl)]
      rw [hsame]
      exact h

theorem Agrees.write (h : Agrees s keys) (hb : b ≠ .redis) {w : RunWrite} (hfits : w.Fits s) :
    Agrees (w.onSql b s) (w.onRedis keys) := by
  cases w with
  | define => exact h.define hfits
  | create => exact h.create hb hfits
  | update ns id state error =>
    refine h.update hfits ?_ fun run hid hhash => ?_
    · exact fun _ => ⟨rfl, rfl⟩
    · subst hid
      cases error with
      | some e =>
        exact ⟨_, exec_move hhash _ _, rfl, rfl, find_over₂ { run := run.id, state := some state }
          { run := run.id, error := some e } rfl hhash⟩
      | none =>
        refine ⟨_, exec_move hhash _ _, rfl, rfl, fun id => (find_hdelError _ run.id id).trans ?_⟩
        rw [find_over { run := run.id, state := some state } hhash]
        split <;> rfl
  | start ns id startedAt =>
    refine h.update hfits ?_ fun run hid hhash => ?_
    · exact fun _ => ⟨rfl, rfl⟩
    · subst hid
      exact ⟨_, exec_move hhash _ _, rfl, rfl, find_over₂ { run := run.id, state := some .running }
        { run := run.id, startedAt := some startedAt } rfl hhash⟩
  | complete ns id completedAt =>
    refine h.update hfits ?_ fun run hid hhash => ?_
    · exact fun _ => ⟨rfl, rfl⟩
    · subst hid
      refine ⟨(Write.hset { run := run.id, completedAt := some completedAt }).apply keys, ?_, rfl,
        rfl, find_over { run := run.id, completedAt := some completedAt } hhash⟩
      simp only [moveOps, ne_eq, not_true, if_false]
      rfl

end Writes

/-! ## The order of a page -/

instance : Std.Total latest := ⟨fun a b => le_total b.createdAt a.createdAt⟩
instance : IsTrans WorkflowRun latest := ⟨fun _ _ _ hab hbc => le_trans hbc hab⟩

section Pages

variable {s : Store} {keys : Keys}

theorem Agrees.unique (h : Agrees s keys) {runs runs' : List WorkflowRun}
    (hstored : ∀ run ∈ runs, run ∈ s.runs.rows) (horder : runs.Pairwise latest)
    (horder' : runs'.Pairwise latest) (hperm : runs.Perm runs') : runs = runs' := by
  refine hperm.eq_of_pairwise (fun a b ha hb hab hba => ?_) horder horder'
  exact (h.dated _ _ (find_of_mem (hstored a ha))).2 _ _
    (find_of_mem (hstored b (hperm.mem_iff.mpr hb))) (congrArg asF64 (le_antisymm hba hab))

def ranked (s : Store) (p : WorkflowRun → Bool) : List WorkflowRun :=
  (s.runs.rows.filter p).insertionSort latest

theorem mem_ranked {p : WorkflowRun → Bool} {run : WorkflowRun} :
    run ∈ ranked s p ↔ run ∈ s.runs.rows ∧ p run = true := by
  rw [ranked, mem_insertionSort, mem_filter]

theorem Agrees.ranked_filter (h : Agrees s keys) (p q : WorkflowRun → Bool) :
    (ranked s p).filter q = ranked s fun run => p run && q run := by
  refine h.unique (fun run hrun => (mem_ranked.mp (mem_filter.mp hrun).1).1)
    ((pairwise_insertionSort _ _).filter _) (pairwise_insertionSort _ _) ?_
  refine ((perm_insertionSort _ _).filter q).trans ?_
  rw [filter_filter]
  simp only [Bool.and_comm]
  exact (perm_insertionSort _ _).symm

theorem Agrees.members (h : Agrees s keys) (index : RunIndex) :
    ((keys.indexes.zrange index).map Scored.member).reverse =
      (ranked s index.holds).map WorkflowRun.id := by
  let entry (run : WorkflowRun) : Scored RunIndex String := ⟨index, run.id, run.score⟩
  have hmem : ∀ e, e ∈ (keys.indexes.zrange index).reverse ↔
      e ∈ (ranked s index.holds).map entry := by
    intro e
    simp only [mem_reverse, SortedSets.mem_zrange_iff, h.indexes, Option.map_eq_some_iff,
      Option.filter_eq_some_iff, mem_map, mem_ranked]
    constructor
    · rintro ⟨rfl, run, ⟨hfind, hholds⟩, hscore⟩
      obtain ⟨hrow, hid⟩ := find_eq_some.mp hfind
      exact ⟨run, ⟨hrow, hholds⟩, by simp only [entry, hid, hscore]⟩
    · rintro ⟨run, ⟨hrow, hholds⟩, rfl⟩
      exact ⟨rfl, run, ⟨find_of_mem hrow, hholds⟩, rfl⟩
  have hnodup : (ranked s index.holds).Nodup :=
    (perm_insertionSort _ _).nodup_iff.mpr (s.runs.nodup_rows.filter _)
  have hperm : (keys.indexes.zrange index).reverse.Perm ((ranked s index.holds).map entry) := by
    refine (perm_ext_iff_of_nodup ?_ ?_).mpr hmem
    · exact nodup_reverse.mpr (keys.indexes.nodup_zrange index).of_map
    · refine hnodup.map_on fun a ha b hb heq => ?_
      have hid : a.id = b.id := congrArg Scored.member heq
      have hfind := find_of_mem (mem_ranked.mp ha).1
      rw [hid, find_of_mem (mem_ranked.mp hb).1] at hfind
      exact (Option.some.inj hfind).symm
  have hsame : (keys.indexes.zrange index).reverse = (ranked s index.holds).map entry := by
    have horder : (keys.indexes.zrange index).reverse.Pairwise fun a b => b.score ≤ a.score :=
      pairwise_reverse.mpr ((pairwise_insertionSort _ _).imp fun hab =>
        hab.elim le_of_lt fun heq => heq.1.le)
    have hranked : (ranked s index.holds).Pairwise fun a b => b.score ≤ a.score :=
      (pairwise_insertionSort _ _).imp fun hab => asF64_mono hab
    refine hperm.eq_of_pairwise ?_ horder (pairwise_map.mpr hranked)
    · intro a b ha hb hab hba
      obtain ⟨run, hrun, rfl⟩ := mem_map.mp ((hmem a).mp ha)
      obtain ⟨run', hrun', rfl⟩ := mem_map.mp hb
      rw [(h.dated _ _ (find_of_mem (mem_ranked.mp hrun).1)).2 _ _
        (find_of_mem (mem_ranked.mp hrun').1) (le_antisymm hba hab)]
  rw [← map_reverse, hsame, map_map]
  rfl

def asked (h : Handle) (state : Option WorkflowState) (run : WorkflowRun) : Bool :=
  h.owns run && state.all fun st => run.state = st

theorem Agrees.loaded (h : Agrees s keys) (b : Backend) (ns : Scope)
    (state : Option WorkflowState) : ∀ runs : List WorkflowRun, (∀ run ∈ runs, run ∈ s.runs.rows) →
      loadRuns ns state keys (runs.map WorkflowRun.id) = .ok (runs.filter (asked ⟨b, ns⟩ state))
  | [], _ => rfl
  | run :: rest, hrows => by
    have hload : loadRun ns keys run.id =
        .ok (if (⟨b, ns⟩ : Handle).owns run then some run else none) := by
      unfold loadRun
      rw [h.runs, find_of_mem (hrows run mem_cons_self)]
      show (if (⟨b, ns⟩ : Handle).owns run = true then _ else _) = _
      split <;> rfl
    rw [map_cons, loadRuns, hload,
      h.loaded b ns state rest fun r hr => hrows r (mem_cons_of_mem _ hr)]
    rw [filter_cons, asked]
    cases (⟨b, ns⟩ : Handle).owns run with
    | false => rfl
    | true =>
      cases hst : state.all fun st => decide (run.state = st) <;>
        simp [bind, Except.bind, hst, pure, Except.pure]

theorem zrevrange_all {K : Type} [DecidableEq K] (sets : SortedSets K String) (set : K) :
    zrevrange sets set 0 (-1) = ((sets.zrange set).map Scored.member).reverse := by
  unfold zrevrange
  simp

theorem zrevrange_window {K : Type} [DecidableEq K] (sets : SortedSets K String) (set : K)
    {start stop : Int} (hstart : 0 ≤ start) (hstop : 0 ≤ stop) :
    zrevrange sets set start stop =
      (((sets.zrange set).map Scored.member).reverse.drop start.toNat).take
        (stop + 1 - start).toNat := by
  unfold zrevrange
  simp [not_lt.mpr hstart, not_lt.mpr hstop, hstart]

/-- A name has one version at most. -/
def Unversioned (s : Store) (name : String) : Prop :=
  ∀ d ∈ s.definitions.rows, ∀ d' ∈ s.definitions.rows, d.name = name → d'.name = name → d = d'

theorem Agrees.definition (h : Agrees s keys) (name : String) :
    (definitionOf keys name = none ∧ ∀ d ∈ s.definitions.rows, d.name ≠ name) ∨
      ∃ d ∈ s.definitions.rows, d.name = name ∧ definitionOf keys name = some d.id := by
  have hdef : definitionOf keys name =
      ((keys.byName.zrange name).map Scored.member).reverse.head? := by
    rw [definitionOf, zrevrange_window _ _ le_rfl le_rfl]
    simp [List.head?_take]
  rw [hdef]
  cases hmembers : ((keys.byName.zrange name).map Scored.member).reverse with
  | nil =>
    refine .inl ⟨rfl, fun d hd hname => ?_⟩
    have hentry : (⟨name, d.id, d.version⟩ : Scored _ _) ∈ keys.byName.zrange name := by
      rw [SortedSets.mem_zrange_iff, h.byName, find_of_mem hd]
      simp [hname]
    simp only [reverse_eq_nil_iff, map_eq_nil_iff] at hmembers
    rw [hmembers] at hentry
    cases hentry
  | cons id =>
    have hid : id ∈ ((keys.byName.zrange name).map Scored.member).reverse := by
      rw [hmembers]
      exact mem_cons_self
    obtain ⟨e, he, rfl⟩ := mem_map.mp (mem_reverse.mp hid)
    obtain ⟨-, hscore⟩ := SortedSets.mem_zrange_iff.mp he
    rw [h.byName, Option.map_eq_some_iff] at hscore
    obtain ⟨d, hd, -⟩ := hscore
    obtain ⟨hfind, hname⟩ := Option.filter_eq_some_iff.mp hd
    obtain ⟨hrow, hkey⟩ := find_eq_some.mp hfind
    exact .inr ⟨d, hrow, by simpa using hname, by rw [← hkey]; rfl⟩

theorem Agrees.joins (h : Agrees s keys) (handle : Handle) {name : Option String}
    (hname : ∀ n ∈ name, Unversioned s n) (state : Option WorkflowState) :
    (∃ n, name = some n ∧ definitionOf keys n = none ∧
        ∀ run, selected handle s name state run = false) ∨
      ∃ definitionId, name.bind (definitionOf keys) = definitionId ∧
        name.isSome = definitionId.isSome ∧ ∀ run, selected handle s name state run =
          ((indexFor definitionId state).holds run && asked handle state run) := by
  cases name with
  | none =>
    refine .inr ⟨none, rfl, rfl, fun run => ?_⟩
    cases state <;> simp [selected, indexFor, RunIndex.holds, asked,
      Bool.and_comm]
  | some n =>
    rcases h.definition n with ⟨hnone, hall⟩ | ⟨d, hd, hn, hsome⟩
    · refine .inl ⟨n, rfl, hnone, fun run => ?_⟩
      have hno : ((s.definitions.find run.definitionId).any fun d => d.name = n) = false := by
        cases hfind : s.definitions.find run.definitionId with
        | none => rfl
        | some d => simpa using hall d (find_eq_some.mp hfind).1
      simp [selected, hno]
    · refine .inr ⟨some d.id, hsome, rfl, fun run => ?_⟩
      have hjoin : ((s.definitions.find run.definitionId).any fun d => d.name = n) =
          decide (run.definitionId = d.id) := by
        rw [Bool.eq_iff_iff, Option.any_eq_true, decide_eq_true_eq]
        constructor
        · rintro ⟨d', hfind, hn'⟩
          obtain ⟨hrow, hkey⟩ := find_eq_some.mp hfind
          rw [← hkey, hname n rfl d' hrow d hd (of_decide_eq_true hn') hn]
        · intro hid
          exact ⟨d, by rw [hid, find_of_mem hd], decide_eq_true hn⟩
      simp [selected, indexFor, RunIndex.holds, asked, hjoin, Bool.and_comm,
        Bool.and_left_comm]

theorem Agrees.indexed (h : Agrees s keys) (b : Backend) (ns : Scope) (index : RunIndex)
    (state : Option WorkflowState) :
    loadRuns ns state keys (zrevrange keys.indexes index 0 (-1)) =
      .ok (ranked s fun run => index.holds run && asked ⟨b, ns⟩ state run) := by
  rw [zrevrange_all, h.members, h.loaded b ns state _ fun run hrun => (mem_ranked.mp hrun).1,
    h.ranked_filter]

theorem wrap64_of_mem {x : Int} (hlow : 0 ≤ x) (hhigh : x < 2 ^ 63) : wrap64 x = x := by
  unfold wrap64
  omega

theorem Agrees.page (h : Agrees s keys) (b : Backend) (ns : Scope) (index : RunIndex)
    (state : Option WorkflowState) {limit : Int} (hlimit : 0 < limit) (offset : Int)
    (hoffset : 0 ≤ offset) (hns : ns = none → offset + limit < 2 ^ 63 ∧
      ∀ run, index.holds run = true → (state.all fun st => run.state = st) = true) :
    listFrom ns keys index state limit offset = .ok (window limit offset
      (ranked s fun run => index.holds run && asked ⟨b, ns⟩ state run)) := by
  rw [window, if_neg (not_lt.mpr hlimit.le)]
  unfold listFrom
  cases ns with
  | some =>
    rw [if_pos Option.isSome_some, h.indexed b, max_eq_left hoffset]
    simp only [if_neg (not_le.mpr hlimit)]
    rfl
  | none =>
    -- The server applies the window first; the filter has nothing to remove.
    obtain ⟨hsmall, hall⟩ := hns rfl
    have hasked : ∀ run, index.holds run = true → asked ⟨b, none⟩ state run = true := hall
    have hholds : ∀ run, (index.holds run && asked ⟨b, none⟩ state run) = index.holds run := by
      intro run
      cases hrun : index.holds run with
      | false => rfl
      | true => exact hasked run hrun
    rw [if_neg (by simp)]
    dsimp only
    rw [if_neg (not_le.mpr hlimit), wrap64_of_mem (by omega) hsmall,
      wrap64_of_mem (by omega) (by omega), zrevrange_window _ _ hoffset (by omega), h.members,
      ← map_drop, ← map_take]
    simp only [hholds]
    rw [h.loaded b none state _ fun run hrun =>
      (mem_ranked.mp (mem_of_mem_drop (mem_of_mem_take hrun))).1]
    rw [filter_eq_self.mpr fun run hrun => hasked run
        (mem_ranked.mp (mem_of_mem_drop (mem_of_mem_take hrun))).2]
    congr 3
    omega

/-! ### After a cursor -/

abbrev byIds (a b : String) : Bool := decide (a < b)

theorem latestFirst_iff {a b : WorkflowRun} : latestFirst byIds a b = true ↔
    toLex (b.createdAt, b.id) ≤ toLex (a.createdAt, a.id) := by
  rw [Prod.Lex.toLex_le_toLex, latestFirst]
  simp only [Bool.or_eq_true, Bool.and_eq_true, decide_eq_true_eq, Bool.not_eq_true',
    decide_eq_false_iff_not, not_lt]

instance : Std.Total fun a b => latestFirst byIds a b = true :=
  ⟨fun _ _ => by simpa only [latestFirst_iff] using le_total _ _⟩

instance : IsTrans _ fun a b => latestFirst byIds a b = true :=
  ⟨fun _ _ _ hab hbc => latestFirst_iff.mpr
    ((latestFirst_iff.mp hbc).trans (latestFirst_iff.mp hab))⟩

theorem sorted_latest (runs : List WorkflowRun) :
    (runs.insertionSort fun a b => latestFirst byIds a b).Pairwise latest := by
  refine (pairwise_insertionSort _ runs).imp fun hab => ?_
  rcases Prod.Lex.toLex_le_toLex.mp (latestFirst_iff.mp hab) with hlt | ⟨heq, -⟩
  · exact le_of_lt hlt
  · exact le_of_eq heq

theorem Agrees.pageAfter (h : Agrees s keys) (b : Backend) (ns : Scope) (index : RunIndex)
    (state : Option WorkflowState) {limit : Int} (hlimit : 0 < limit)
    (after : Option (Int × String)) :
    listAfterFrom ns keys index state limit after = .ok (window limit 0
      ((s.runs.rows.filter fun run => (index.holds run && asked ⟨b, ns⟩ state run) &&
        beforeCursor byIds (after.getD (2 ^ 63 - 1, "")) run).insertionSort
          fun a b => latestFirst byIds a b)) := by
  rw [window, if_neg (not_lt.mpr hlimit.le)]
  unfold listAfterFrom
  rw [h.indexed b, max_eq_left hlimit.le]
  refine congrArg (fun runs => Except.ok (List.take limit.toNat runs)) ?_
  have hcursor : ∀ run ∈ s.runs.rows, (after.all fun cursor =>
      beforeCursor byIds cursor run) =
        beforeCursor byIds (after.getD (2 ^ 63 - 1, "")) run := by
    intro run hrun
    cases after with
    | some => rfl
    | none =>
      have hdate := (h.dated _ _ (find_of_mem hrun)).1
      simp only [beforeCursor, Option.getD_none, Option.all_none, hdate, decide_true,
        Bool.true_or]
  refine h.unique (fun run hrun => ?_) ((sorted_latest _).filter _) (sorted_latest _) ?_
  · exact (mem_ranked.mp ((mem_insertionSort _).mp (mem_filter.mp hrun).1)).1
  · refine ((perm_insertionSort _ _).trans (perm_insertionSort _ _) |>.filter _).trans ?_
    rw [filter_filter, filter_congr fun run hrun => ?_]
    · exact (perm_insertionSort _ _).symm
    · rw [Bool.and_comm]
      exact congrArg _ (hcursor run hrun)

/-- **Where the listings agree.** -/
theorem listings_agree {b : Backend} (hb : b ≠ .redis)
    (hr : Reaches (bothWrite b) (fun stores w => w.Fits stores.1) (.empty, .empty) (s, keys))
    (ns name : Option String) (state : Option WorkflowState) {limit : Int} (hlimit : 0 < limit)
    (hname : ∀ n ∈ name, Unversioned s n) :
    (∀ offset, 0 ≤ offset →
      (ns = none → offset + limit < 2 ^ 63 ∧ (name = none ∨ state = none)) →
        RedisStore.listWorkflowRuns ns keys name state limit offset =
          .ok (listWorkflowRuns ⟨b, ns⟩ s name state limit offset)) ∧
      ∀ after, RedisStore.listWorkflowRunsAfter ns keys name state limit after =
        .ok (listWorkflowRunsAfter byIds ⟨b, ns⟩ s name state limit after) := by
  have h : Agrees s keys := hr.invariant (I := fun stores => Agrees stores.1 stores.2)
    agrees_empty fun _ _ _ hagrees hfits hstep => by
      cases hstep
      exact hagrees.write hb hfits
  unfold RedisStore.listWorkflowRuns RedisStore.listWorkflowRunsAfter listWorkflowRuns
    listWorkflowRunsAfter
  rcases h.joins ⟨b, ns⟩ hname state with ⟨n, rfl, hnone, hsel⟩ | ⟨found, hfound, hsome, hsel⟩
  · simp [funext hsel, hnone, window]
  · rw [show selected ⟨b, ns⟩ s name state = _ from funext hsel]
    have hafter := h.pageAfter b ns (indexFor found state) state hlimit
    have hpage := h.page b ns (indexFor found state) state hlimit
    cases name with
    | none =>
      cases hfound
      refine ⟨fun offset hoffset hns => hpage offset hoffset fun hnone =>
        ⟨(hns hnone).1, fun run hrun => ?_⟩, hafter⟩
      cases state with
      | none => rfl
      | some => exact hrun
    | some =>
      obtain ⟨id, rfl⟩ := Option.isSome_iff_exists.mp hsome.symm
      dsimp only [Option.bind_some] at hfound ⊢
      rw [hfound]
      refine ⟨fun offset hoffset hns => hpage offset hoffset fun hnone => ?_, hafter⟩
      obtain ⟨hsmall, hname | rfl⟩ := hns hnone
      · cases hname
      · exact ⟨hsmall, fun _ _ => rfl⟩

end Pages

/-! ## Small runs -/

instance (s : Store) (w : RunWrite) : Decidable (w.Fits s) :=
  by cases w <;> unfold RunWrite.Fits <;> infer_instance

def version (id : String) (n : Int) : WorkflowDefinition := ⟨id, "w", n, [], [], n⟩

theorem small_listings_agree : ∃ s keys,
    (listWorkflowRuns ⟨.sqlite, some "n"⟩ s (some "w") (some .running) 1 0).length = 1 ∧
      RedisStore.listWorkflowRuns (some "n") keys (some "w") (some .running) 1 0 =
        .ok (listWorkflowRuns ⟨.sqlite, some "n"⟩ s (some "w") (some .running) 1 0) := by
  obtain ⟨⟨s, keys⟩, hr, hone, hname⟩ : ∃ stores,
      Reaches (bothWrite .sqlite) (fun stores w => w.Fits stores.1) (.empty, .empty) stores ∧
        (listWorkflowRuns ⟨.sqlite, some "n"⟩ stores.1 (some "w") (some .running) 1 0).length = 1 ∧
        ∀ d ∈ stores.1.definitions.rows, ∀ d' ∈ stores.1.definitions.rows,
          d.name = "w" → d'.name = "w" → d = d' :=
    exists_reached [.define (version "d" 1),
      .create (some "n") smallRun,
      .create none { smallRun with id := "s", createdAt := 2 },
      .start (some "n") "r" 3]
  refine ⟨s, keys, hone, (listings_agree (by decide) hr _ _ _ one_pos fun n hn => ?_).1 0 le_rfl
    fun h => by cases h⟩
  cases hn
  exact hname

/-- A run of the first of two versions, listed by its name: on Redis it is not
there. -/
theorem older_version_not_listed : ∃ stores,
    Reaches (bothWrite .sqlite) (fun stores w => w.Fits stores.1) (.empty, .empty) stores ∧
      RedisStore.listWorkflowRuns none stores.2 (some "w") none 10 0 = .ok [] ∧
      (listWorkflowRuns ⟨.sqlite, none⟩ stores.1 (some "w") none 10 0).map WorkflowRun.id = ["r"] ∧
      RedisStore.listWorkflowRunsAfter none stores.2 (some "w") none 10 none = .ok [] ∧
      (listWorkflowRunsAfter byIds ⟨.sqlite, none⟩ stores.1 (some "w") none 10 none).map
        WorkflowRun.id = ["r"] :=
  exists_reached [.define (version "d" 1), .define (version "e" 2),
    .create none smallRun]

end FlexiQ.Workflow
