/-
# `Workflow.Jobs` — what a workflow counts on in a job store

Three laws.  A lookup with a scope finds nothing a lookup without one would
not; an enqueue adds the one job, with its metadata, or changes nothing; a
cancellation loses no job, adds none, and leaves the finished ones as they
are.  Both job stores keep them, and of an enqueue they keep more: the job is
stored as it was given, and waits for what it was given to wait for.
-/
import FlexiQ.Redis.Card
import FlexiQ.Redis.Effects
import FlexiQ.Sql.Effects
import FlexiQ.Workflow.Queues

namespace FlexiQ

def JobStatus.finished : JobStatus → Bool
  | .pending | .running => false
  | _ => true

end FlexiQ

namespace FlexiQ.Workflow

open List FlexiQ.Lib

variable {Q : Type}

/-- The job under an id, whoever may see it. -/
def JobQueue.find (jobs : JobQueue Q) (q : Q) (id : String) : Option Job := jobs.getJob id none q

/-- No job is lost or new, and the finished ones are as they were. -/
structure JobQueue.Steady (jobs : JobQueue Q) (q q' : Q) : Prop where
  kept : ∀ id job, jobs.find q id = some job → ∃ job', jobs.find q' id = some job' ∧
    job'.metadata = job.metadata ∧ (job.status.finished = true → job'.status = job.status)
  old : ∀ id job', jobs.find q' id = some job' → ∃ job, jobs.find q id = some job

structure JobQueue.Lawful (jobs : JobQueue Q) : Prop where
  found : ∀ {id scope q job}, jobs.getJob id scope q = some job → jobs.find q id = some job
  enqueued : ∀ {new id now q job q'}, jobs.enqueue new id now q = (.ok job, q') →
    jobs.find q id = none →
    job.id = id ∧ (∃ job', jobs.find q' id = some job' ∧ job'.metadata = new.metadata) ∧
      ∀ id', id' ≠ id → jobs.find q' id' = jobs.find q id'
  refused : ∀ {new id now q e q'}, jobs.enqueue new id now q = (.error e, q') →
    ∀ id', jobs.find q' id' = jobs.find q id'
  cancelled : ∀ id scope now q, jobs.Steady q (jobs.cancelJob id scope now q).2

/-- An enqueue of an admissible job under an unused id stores the job and its
edges, and nothing else.  `waits q id d`: in `q`, the job `id` waits for `d`. -/
def JobQueue.Stores (jobs : JobQueue Q) (waits : Q → String → String → Bool)
    (admissible : NewJob → Prop) : Prop :=
  ∀ {new id now q job q'}, admissible new → jobs.enqueue new id now q = (.ok job, q') →
    jobs.find q id = none →
    job.id = id ∧ jobs.find q' id = some (new.intoJob id now) ∧
      (∀ id', id' ≠ id → jobs.find q' id' = jobs.find q id') ∧
      ∀ id' d, waits q' id' d = true ↔ waits q id' d = true ∨ id' = id ∧ d ∈ new.dependsOn

section Steady

variable {jobs : JobQueue Q} {q q₁ q' : Q}

theorem JobQueue.Steady.refl (q : Q) : jobs.Steady q q :=
  ⟨fun _ job hjob => ⟨job, hjob, rfl, fun _ => rfl⟩, fun _ job hjob => ⟨job, hjob⟩⟩

theorem JobQueue.Steady.trans (h : jobs.Steady q q₁) (h' : jobs.Steady q₁ q') :
    jobs.Steady q q' where
  kept id job hjob := by
    obtain ⟨job₁, hjob₁, hmeta₁, hstatus₁⟩ := h.kept id job hjob
    obtain ⟨job', hjob', hmeta', hstatus'⟩ := h'.kept id job₁ hjob₁
    refine ⟨job', hjob', hmeta'.trans hmeta₁, fun hover => ?_⟩
    have hsame := hstatus₁ hover
    rw [← hsame] at hover
    exact (hstatus' hover).trans hsame
  old id job' hjob' := by
    obtain ⟨job₁, hjob₁⟩ := h'.old id job' hjob'
    exact h.old id job₁ hjob₁

theorem JobQueue.Steady.of_find (h : ∀ id, jobs.find q' id = jobs.find q id ∨ ∃ job job',
    jobs.find q id = some job ∧ job.status.finished = false ∧ jobs.find q' id = some job' ∧
      job'.metadata = job.metadata) : jobs.Steady q q' where
  kept id job hjob := by
    rcases h id with hsame | ⟨old, job', hold, hunfinished, hjob', hmeta⟩
    · exact ⟨job, hsame.trans hjob, rfl, fun _ => rfl⟩
    · cases hjob.symm.trans hold
      refine ⟨job', hjob', hmeta, fun hover => ?_⟩
      rw [hunfinished] at hover
      cases hover
  old id job' hjob' := by
    rcases h id with hsame | ⟨old, -, hold, -⟩
    · exact ⟨job', hsame.symm.trans hjob'⟩
    · exact ⟨old, hold⟩

end Steady

/-! ## The metadata of a node -/

/-- The run and the node a submission writes into a job's metadata are read
back from it. -/
def Externals.Routes (ext : Externals) : Prop :=
  ∀ runId nodeName, routing ext.serde (some (buildMetadataJson ext.serde runId nodeName)) =
    some (runId, nodeName)

theorem Externals.Routes.of_lawful {ext : Externals} (h : ext.serde.Lawful) : ext.Routes := by
  intro runId nodeName
  obtain ⟨m, hparse, hm⟩ := h (JsonMap.put (JsonMap.put .empty "workflow_run_id" (.str runId))
    "workflow_node_name" (.str nodeName))
  have hrun := (hm "workflow_run_id").2 (.str runId) (by simp) trivial
  have hnode := (hm "workflow_node_name").2 (.str nodeName) (by simp) trivial
  unfold routing buildMetadataJson
  simp [hparse, Json.get, hrun, hnode, Value.asStr]

/-! ## The SQL store -/

section Sql

open FlexiQ.Sql

theorem sql_find (q : Sql.Store) (id : String) :
    sqlJobs.find q id = (q.jobs.find id <|> q.archived.find id) := by
  show Sql.getJob q id none = _
  unfold Sql.getJob
  cases q.jobs.find id with
  | some row => rfl
  | none => cases q.archived.find id <;> rfl

theorem steady_of_archives {q q' : Sql.Store} {rows : List Job} (ha : Archives q q' rows)
    (hfrom : ∀ r ∈ rows, ∃ row, q.jobs.find r.id = some row ∧ row.status.finished = false ∧
      r.metadata = row.metadata) : sqlJobs.Steady q q' := by
  refine .of_find fun id => ?_
  rw [sql_find, sql_find, ha.jobs]
  by_cases hmem : id ∈ rows.map Job.id
  · obtain ⟨r, hr, rfl⟩ := mem_map.mp hmem
    obtain ⟨row, hrow, hunfinished, hmeta⟩ := hfrom r hr
    rw [if_pos hmem, ha.moved r hr, hrow]
    exact Or.inr ⟨row, r.archived, rfl, hunfinished, rfl, hmeta⟩
  · rw [if_neg hmem, ha.archived id hmem]
    exact Or.inl rfl

theorem sql_cascade_steady {q q' : Sql.Store} {root reason : String} {scope : Scope}
    {now : Int} {rows : List Job} (h : Sql.cascadeCancel q root reason scope now = .ok (rows, q')) :
    sqlJobs.Steady q q' := by
  refine steady_of_archives (cascadeCancel_ok h).1 fun r hr => ?_
  unfold Sql.cascadeCancel at h
  simp only [] at h
  split at h
  · cases h
    cases hr
  · obtain ⟨s₁, -, hpair⟩ := bind_eq_ok.mp h
    cases hpair
    obtain ⟨row, hrow, rfl⟩ := mem_map.mp hr
    rw [mem_filter] at hrow
    simp only [Bool.and_eq_true, decide_eq_true_eq] at hrow
    exact ⟨row, Table.find_of_mem hrow.1, by rw [hrow.2.1.2]; rfl, rfl⟩

theorem sqlCancelJob_steady (id : String) (scope : Scope) (now : Int) (q : Sql.Store) :
    sqlJobs.Steady q (sqlCancelJob id scope now q).2 := by
  unfold sqlCancelJob
  split
  · exact .refl q
  · next hrun =>
    rcases cancelJobRow_ok hrun with ⟨-, rfl⟩ | ⟨htrue, -⟩
    · exact .refl _
    · cases htrue
  · next hrun =>
    rcases cancelJobRow_ok hrun with ⟨hfalse, -⟩ | ⟨-, row, hrow, hpending, -, ha⟩
    · cases hfalse
    · have hfirst := steady_of_archives ha fun r hr => by
        rw [mem_singleton.mp hr]
        have hid : row.id = id := Table.key_of_find hrow
        exact ⟨row, by rw [← hid] at hrow; exact hrow, by rw [hpending]; rfl, rfl⟩
      dsimp only
      refine hfirst.trans ?_
      unfold committed
      split
      · next hcascade => exact sql_cascade_steady hcascade
      · exact .refl _

theorem steady_of_rewrites {q q' : Sql.Store} {id : String} {row row' : Job}
    (hr : Rewrites q q' id row') (hrow : q.jobs.find id = some row)
    (hunfinished : row.status.finished = false) (hmeta : row'.metadata = row.metadata) :
    sqlJobs.Steady q q' := by
  refine .of_find fun k => ?_
  rw [sql_find, sql_find, hr.jobs, hr.archived]
  split
  · next heq =>
    subst heq
    rw [hrow]
    exact Or.inr ⟨row, row', rfl, hunfinished, rfl, hmeta⟩
  · exact Or.inl rfl

theorem worked_steady (id : String) (now : Int) (q : Sql.Store) :
    sqlJobs.Steady q (worked id now q) := by
  have hclaim : sqlJobs.Steady q (claimPending q id now).2 := by
    rcases claimPending_spec q id now with hsame | ⟨row, q', hrun, hrow, hpending, hr, -⟩
    · rw [hsame]
      exact .refl q
    · rw [hrun]
      exact steady_of_rewrites hr hrow (by rw [hpending]; rfl) rfl
  unfold worked
  cases hrun : Sql.complete (claimPending q id now).2 id none none now with
  | error e => exact .refl q
  | ok q' =>
    refine hclaim.trans ?_
    obtain ⟨row, hrow, hrunning, ha⟩ := complete_ok hrun
    refine steady_of_archives ha fun r hr => ?_
    rw [mem_singleton.mp hr]
    have hid : row.id = id := Table.key_of_find hrow
    refine ⟨row, ?_, by rw [hrunning]; rfl, rfl⟩
    show (claimPending q id now).2.jobs.find row.id = some row
    rw [hid]
    exact hrow

/-- `job_dependencies`. -/
def sqlWaits (q : Sql.Store) (id d : String) : Bool := (Sql.dependenciesOf q id).contains d

theorem sqlJobs_stores : sqlJobs.Stores sqlWaits fun _ => True := by
  intro new id now q job q' _ henq _
  have hrun : Sql.enqueue q new id now = _ := committed_ok henq
  obtain ⟨rfl, -, hins⟩ := enqueue_ok hrun
  obtain ⟨-, hjobs, harch, -, -, hedges⟩ := insertJobWithDeps_ok hins
  refine ⟨rfl, ?_, fun id' hid' => ?_, fun id' d => ?_⟩
  · rw [sql_find, (hjobs id).trans (if_pos rfl)]
    rfl
  · rw [sql_find, sql_find, (hjobs id').trans (if_neg hid'), harch]
  · unfold sqlWaits Sql.dependenciesOf
    rw [hedges]
    simp only [contains_iff_mem, filter_append, map_append, mem_append]
    refine or_congr_right ?_
    simp only [mem_map, mem_filter, decide_eq_true_eq]
    constructor
    · rintro ⟨e, ⟨⟨dep, hdep, rfl⟩, hid⟩, rfl⟩
      exact ⟨hid.symm, hdep⟩
    · rintro ⟨rfl, hd⟩
      exact ⟨⟨id', d⟩, ⟨⟨d, hd, rfl⟩, rfl⟩, rfl⟩

theorem sqlJobs_lawful : sqlJobs.Lawful where
  found := by
    intro id scope q job hjob
    have hjob : Sql.getJob q id scope = some job := hjob
    rw [sql_find]
    unfold Sql.getJob at hjob
    cases hlive : q.jobs.find id with
    | some row =>
      rw [hlive] at hjob
      dsimp only at hjob
      split at hjob
      · exact hjob
      · cases hjob
    | none =>
      rw [hlive] at hjob
      exact (Option.filter_eq_some_iff.mp hjob).1
  enqueued := by
    intro new id now q job q' henq hnone
    obtain ⟨hid, hjob, hothers, -⟩ := sqlJobs_stores trivial henq hnone
    exact ⟨hid, ⟨_, hjob, rfl⟩, hothers⟩
  refused := by
    intro new id now q e q' henq id'
    rw [committed_error henq]
  cancelled := sqlCancelJob_steady

end Sql

/-! ## Redis -/

section Redis

open FlexiQ.Redis

theorem redis_find (q : Redis.Store) (id : String) :
    redisJobs.find q id = (loadJob q id <|> loadArchivedJob q id) := by
  show Redis.getJob q id none = _
  unfold Redis.getJob
  cases loadJob q id <|> loadArchivedJob q id <;> rfl

theorem redis_find_of_scoped {q : Redis.Store} {id : String} {scope : Scope} {job : Job}
    (hjob : Redis.getJob q id scope = some job) : redisJobs.find q id = some job := by
  rw [redis_find]
  exact (Option.filter_eq_some_iff.mp hjob).1

theorem redis_id_of_find {q : Redis.Store} {id : String} {job : Job}
    (hjob : redisJobs.find q id = some job) : job.id = id := by
  rw [redis_find] at hjob
  unfold loadJob loadArchivedJob at hjob
  cases hlive : q.jobs.find id with
  | some row =>
    rw [hlive] at hjob
    cases hjob
    exact Table.key_of_find hlive
  | none =>
    rw [hlive] at hjob
    obtain ⟨row, hrow, rfl⟩ := Option.map_eq_some_iff.mp hjob
    have hid : row.id = id := Table.key_of_find hrow
    exact hid

theorem redis_archive_steady {q : Redis.Store} {scope : Scope} {id : String} {job : Job}
    (gone : Job) (now : Int)
    (hjob : (Redis.getJob q id scope).filter (fun job => job.status = .pending) = some job)
    (hid : gone.id = job.id) (hmeta : gone.metadata = job.metadata) :
    redisJobs.Steady q (archiveJobImmediately q gone job.status now) := by
  obtain ⟨hread, hpending⟩ := Option.filter_eq_some_iff.mp hjob
  have hfind := redis_find_of_scoped hread
  have hspec := archiveJobImmediately_spec q gone job.status now
  have hgone : gone.id = id := hid.trans (redis_id_of_find hfind)
  have hafter : ∀ id', redisJobs.find (archiveJobImmediately q gone job.status now) id' =
      if id' = gone.id then some { gone with debounceKey := none } else redisJobs.find q id' := by
    intro id'
    rw [redis_find, redis_find]
    unfold loadJob loadArchivedJob
    rw [hspec.jobs, hspec.archived]
    split <;> rfl
  refine .of_find fun id' => ?_
  rw [hafter]
  split
  · next heq =>
    rw [heq, hgone]
    refine Or.inr ⟨job, _, hfind, ?_, rfl, hmeta⟩
    rw [of_decide_eq_true hpending]
    rfl
  · exact Or.inl rfl

theorem redis_cancelEach_steady (error : String) (scope : Scope) (now : Int) :
    ∀ (ids : List String) (q : Redis.Store),
      redisJobs.Steady q (cancelEach error scope now q ids).2
  | [], q => .refl q
  | id :: ids, q => by
    unfold cancelEach
    split
    · next job hjob =>
      exact (redis_archive_steady (job.finish .cancelled now (some error)) now hjob rfl
        rfl).trans (redis_cancelEach_steady error scope now ids _)
    · exact redis_cancelEach_steady error scope now ids q

/-- The set `job:{id}:depends_on`. -/
def redisWaits (q : Redis.Store) (id d : String) : Bool := q.sets.sismember (.dependsOn id) d

theorem redisJobs_stores : redisJobs.Stores redisWaits fun _ => True := by
  intro new id now q job q' _ henq _
  have hrun : Redis.enqueue q new id now = _ := committed_ok henq
  obtain ⟨-, -, hpair⟩ := bind_eq_ok.mp hrun
  cases hpair
  have hcard := fun id' => (exec_card id' (insertOps (new.intoJob id now) new.dependsOn) q).trans
    (insertOps_card _ _ _ (new.intoJob id now) new.dependsOn)
  refine ⟨rfl, ?_, fun id' hid' => ?_, fun id' d => ?_⟩
  · have hdoc := congrArg Card.doc ((hcard id).trans (if_pos rfl))
    rw [redis_find]
    unfold loadJob
    rw [show (q.exec (insertOps (new.intoJob id now) new.dependsOn)).jobs.find id =
      some (new.intoJob id now) from hdoc]
    rfl
  · have hsame := (hcard id').trans (if_neg fun heq => hid' heq.symm)
    have hdoc : (q.exec (insertOps (new.intoJob id now) new.dependsOn)).jobs.find id' =
      q.jobs.find id' := congrArg Card.doc hsame
    have hgone : (q.exec (insertOps (new.intoJob id now) new.dependsOn)).archived.find id' =
      q.archived.find id' := congrArg Card.gone hsame
    rw [redis_find, redis_find]
    unfold loadJob loadArchivedJob
    rw [hdoc, hgone]
  · show (cardOf (q.exec (insertOps (new.intoJob id now) new.dependsOn)) id').waitsFor d = true ↔
      (cardOf q id').waitsFor d = true ∨ id' = id ∧ d ∈ new.dependsOn
    have hid : (new.intoJob id now).id = id := rfl
    rw [hcard, hid]
    split
    · next heq =>
      subst heq
      simp [Card.inserted, or_comm]
    · next hne => simp [Ne.symm hne]

/-- **Redis keeps the laws of a job queue**, as SQL does. -/
theorem redisJobs_lawful : redisJobs.Lawful where
  found := redis_find_of_scoped
  enqueued := by
    intro new id now q job q' henq hnone
    obtain ⟨hid, hjob, hothers, -⟩ := redisJobs_stores trivial henq hnone
    exact ⟨hid, ⟨_, hjob, rfl⟩, hothers⟩
  refused := by
    intro new id now q e q' henq id'
    rw [committed_error henq]
  cancelled := by
    intro id scope now q
    show redisJobs.Steady q (Redis.cancelJob q id scope now).2
    unfold Redis.cancelJob
    split
    · exact .refl q
    · next job hjob =>
      exact (redis_archive_steady { job with status := .cancelled, completedAt := some now }
        now hjob rfl rfl).trans (redis_cancelEach_steady _ scope now _ _)

end Redis

end FlexiQ.Workflow
