/-
# `Workflow.Graph` — what a submission makes of its graph

`submit_workflow`, run with nothing else in between and every call answered:
either it is refused before the first write, or it leaves

  * one row for every node of the graph and no other row of its run;
  * one job for every node that is neither deferred nor a cache hit, and no
    other new job;
  * each of these jobs waiting for the jobs of the node's direct predecessors,
    as far as those have jobs, and for nothing else.

The jobs go through the quota gate.  A quota of the namespace that drops its
excess answers for a job that was never enqueued, and then there is none.

The loop looks the predecessors up in the map it builds, so what is there
already is told by that map: in the rows (`RowsPlaced`), and in the job store
(`JobsPlaced`), which is one node ahead between an enqueue and its row.
-/
import FlexiQ.Quota.Engines
import FlexiQ.Workflow.Effects
import FlexiQ.Workflow.Jobs
import FlexiQ.Workflow.Loop

namespace FlexiQ.Workflow

open List FlexiQ.Lib FlexiQ.Lib.Prog

variable {Q : Type}

/-! ## Behind the quota gate -/

section Gate

variable {S : Type} {engine : Quota.Engine S} {quotas : Quota.QuotaCache} {ns : Scope}

end Gate

/-! ## What is placed -/

variable (ext : Externals) (jobs : JobQueue Q) (waits : Q → String → String → Bool)
  (req : SubmitStaticWorkflowRequest) (minted : Minted) (preds : String → List String)

/-- The rows of the nodes `seen`, and no other row of the run; `jobIds` is the
map from the names of the nodes that got a job. -/
structure RowsPlaced (s₀ s : Store) (seen : List String) (jobIds : List (String × String)) :
    Prop where
  row : ∀ n ∈ seen, ∃ node, s.nodes.find (minted.runId, n) = some node ∧
    node.jobId = jobIds.lookup n ∧
    node.status = if (req.cacheHitNodes.lookup n).isSome then .cacheHit else .pending
  noRow : ∀ n, n ∉ seen → s.nodes.find (minted.runId, n) = none
  otherRows : ∀ k, k.1 ≠ minted.runId → s.nodes.find k = s₀.nodes.find k

/-- What the job of the node `n` is to be. -/
structure JobFor (n : String) (job : Job) : Prop where
  step : ∃ step, req.stepMetadata.lookup n = some step ∧ job.taskName = step.taskName ∧
    job.queue = step.queue.getD req.queueDefault ∧
    job.priority = step.priority.getD req.defaultPriority ∧
    job.maxRetries = step.maxRetries.getD req.defaultMaxRetries ∧
    job.timeoutMs = step.timeoutMs.getD req.defaultTimeoutMs
  payload : req.nodePayloads.lookup n = some job.payload
  route : routing ext.serde job.metadata = some (minted.runId, n)
  request : job.namespace = req.namespace ∧ job.enqueuedBy = req.enqueuedBy ∧
    job.resultTtlMs = req.resultTtlMs
  fresh : job.status = .pending ∧ job.retryCount = 0 ∧ job.scheduledAt = minted.now ∧
    job.expiresAt = none ∧ job.uniqueKey = none ∧ job.debounceKey = none

/-- The jobs of the nodes `seen`, and no other new job.  `preds` are the
direct predecessors of a node. -/
structure JobsPlaced (q₀ q : Q) (seen : List String) (jobIds : List (String × String)) :
    Prop where
  named : ∀ n, (jobIds.lookup n).isSome = true ↔ n ∈ seen ∧ req.jobless n = false
  names : (jobIds.map Prod.fst).Nodup
  ids : (jobIds.map Prod.snd).Nodup
  job : ∀ n id, jobIds.lookup n = some id → ∃ job, jobs.find q id = some job ∧
    JobFor ext req minted n job
  otherJobs : ∀ id, id ∉ jobIds.map Prod.snd → jobs.find q id = jobs.find q₀ id
  waiting : ∀ n id, jobIds.lookup n = some id → ∀ d, waits q id d = true ↔
    ∃ p ∈ preds n, req.jobless p = false ∧ jobIds.lookup p = some d
  otherWaits : ∀ id, id ∉ jobIds.map Prod.snd → ∀ d, waits q id d = true ↔ waits q₀ id d = true

/-- What the loop needs to know besides, to go on. -/
structure JobsUnderway (q₀ q : Q) (seen : List String) (jobIds : List (String × String)) :
    Prop where
  placed : JobsPlaced ext jobs waits req minted preds q₀ q seen jobIds
  closed : ∀ n ∈ seen, ∀ p ∈ preds n, p ∈ seen
  mintedIds : ∀ id ∈ jobIds.map Prod.snd, ∃ i < jobIds.length, id = minted.jobId i

section Extend

variable {ext jobs waits req minted preds} {q₀ q q' : Q} {s₀ s s' : Store} {seen : List String}
  {jobIds jobIds' : List (String × String)} {n : String}

theorem mem_snd_of_lookup {id : String} (hlookup : jobIds.lookup n = some id) :
    id ∈ jobIds.map Prod.snd := by
  obtain ⟨before, after, rfl, -⟩ := lookup_eq_some_iff.mp hlookup
  simp

theorem lookup_cons_some {m id id' : String} (h : ((n, id) :: jobIds).lookup m = some id') :
    m = n ∧ id' = id ∨ jobIds.lookup m = some id' := by
  by_cases hm : m = n
  · subst hm
    rw [lookup_cons_self] at h
    exact .inl ⟨rfl, (Option.some.inj h).symm⟩
  · rw [lookup_cons_of_ne hm] at h
    exact .inr h

theorem mem_fst_iff_lookup : n ∈ jobIds.map Prod.fst ↔ (jobIds.lookup n).isSome = true := by
  rw [lookup_isSome_iff, mem_map]
  simp only [beq_iff_eq, eq_comm (a := n)]

theorem RowsPlaced.cons (h : RowsPlaced req minted s₀ s seen jobIds) (hnew : n ∉ seen)
    {node : WorkflowNode} (hrows : ∀ k, s'.nodes.find k =
      if (minted.runId, n) = k then some node else s.nodes.find k)
    (hjob : node.jobId = jobIds'.lookup n)
    (hstatus : node.status =
      if (req.cacheHitNodes.lookup n).isSome then .cacheHit else .pending)
    (hsame : ∀ m ∈ seen, jobIds'.lookup m = jobIds.lookup m) :
    RowsPlaced req minted s₀ s' (n :: seen) jobIds' := by
  have hother : ∀ {m}, m ≠ n → s'.nodes.find (minted.runId, m) = s.nodes.find (minted.runId, m) :=
    fun hne => by rw [hrows, if_neg fun heq => hne (congrArg Prod.snd heq).symm]
  refine ⟨fun m hm => ?_, fun m hm => ?_, fun k hk => ?_⟩
  · rcases mem_cons.mp hm with rfl | hm
    · exact ⟨node, by rw [hrows, if_pos rfl], hjob, hstatus⟩
    · rw [hother fun heq => hnew (heq ▸ hm), hsame m hm]
      exact h.row m hm
  · rw [mem_cons, not_or] at hm
    rw [hother hm.1]
    exact h.noRow m hm.2
  · rw [hrows, if_neg fun heq => hk (congrArg Prod.fst heq).symm]
    exact h.otherRows k hk

theorem JobsUnderway.nil (q : Q) : JobsUnderway ext jobs waits req minted preds q q [] [] where
  placed :=
    { named := fun n => by simp
      names := nodup_nil
      ids := nodup_nil
      job := fun _ _ hlookup => by cases hlookup
      otherJobs := fun _ _ => rfl
      waiting := fun _ _ hlookup => by cases hlookup
      otherWaits := fun _ _ _ => Iff.rfl }
  closed _ hn := absurd hn not_mem_nil
  mintedIds _ hid := absurd hid not_mem_nil

theorem JobsUnderway.lookup_new (h : JobsUnderway ext jobs waits req minted preds q₀ q seen jobIds)
    (hnew : n ∉ seen) : jobIds.lookup n = none := by
  rw [← Option.not_isSome_iff_eq_none, h.placed.named]
  exact fun hmem => hnew hmem.1

theorem JobsUnderway.closed_cons
    (h : JobsUnderway ext jobs waits req minted preds q₀ q seen jobIds)
    (hpreds : ∀ p ∈ preds n, p ∈ seen) : ∀ m ∈ n :: seen, ∀ p ∈ preds m, p ∈ n :: seen := by
  intro m hm p hp
  rcases mem_cons.mp hm with rfl | hm
  · exact mem_cons_of_mem _ (hpreds p hp)
  · exact mem_cons_of_mem _ (h.closed m hm p hp)

theorem JobsUnderway.skip (h : JobsUnderway ext jobs waits req minted preds q₀ q seen jobIds)
    (hpreds : ∀ p ∈ preds n, p ∈ seen) (hnone : req.jobless n = true) :
    JobsUnderway ext jobs waits req minted preds q₀ q (n :: seen) jobIds := by
  refine ⟨{ h.placed with named := fun m => ?_ }, h.closed_cons hpreds, h.mintedIds⟩
  rw [h.placed.named m, mem_cons]
  refine and_congr_left fun hm => ⟨Or.inr, fun hmem => hmem.resolve_left ?_⟩
  rintro rfl
  rw [hnone] at hm
  cases hm

theorem JobsUnderway.next_id (h : JobsUnderway ext jobs waits req minted preds q₀ q seen jobIds)
    (hinj : Function.Injective minted.jobId) :
    minted.jobId jobIds.length ∉ jobIds.map Prod.snd := by
  intro hmem
  obtain ⟨i, hi, heq⟩ := h.mintedIds _ hmem
  exact absurd (hinj heq) hi.ne'

theorem JobsUnderway.add (h : JobsUnderway ext jobs waits req minted preds q₀ q seen jobIds)
    (hidle : ∀ i d, waits q₀ (minted.jobId i) d = false)
    (hinj : Function.Injective minted.jobId) (hnew : n ∉ seen)
    (hpreds : ∀ p ∈ preds n, p ∈ seen) (hstatic : req.jobless n = false) {id : String}
    (hid : id = minted.jobId jobIds.length) {job : Job} {deps : List String}
    (hjob : jobs.find q' id = some job) (hfor : JobFor ext req minted n job)
    (hjobs : ∀ id', id' ≠ id → jobs.find q' id' = jobs.find q id')
    (hwaits : ∀ id' d, waits q' id' d = true ↔ waits q id' d = true ∨ id' = id ∧ d ∈ deps)
    (hdeps : ∀ d, d ∈ deps ↔
      ∃ p ∈ preds n, req.jobless p = false ∧ jobIds.lookup p = some d) :
    JobsUnderway ext jobs waits req minted preds q₀ q' (n :: seen) ((n, id) :: jobIds) := by
  have hfresh : id ∉ jobIds.map Prod.snd := hid ▸ h.next_id hinj
  have hmem : ∀ {m id'}, jobIds.lookup m = some id' → m ∈ seen := fun hlookup =>
    ((h.placed.named _).mp (by rw [hlookup]; rfl)).1
  -- The predecessors of a node behind are behind, so the map reads as before.
  have hsame : ∀ {m d}, (∀ p ∈ preds m, p ∈ seen) →
      ((∃ p ∈ preds m, req.jobless p = false ∧ ((n, id) :: jobIds).lookup p = some d) ↔
        ∃ p ∈ preds m, req.jobless p = false ∧ jobIds.lookup p = some d) := by
    intro m d hall
    refine exists_congr fun p => and_congr_right fun hp => ?_
    have hne : p ≠ n := fun heq => hnew (heq ▸ hall p hp)
    rw [lookup_cons_of_ne hne]
  refine ⟨⟨fun m => ?_, ?_, nodup_cons.mpr ⟨hfresh, h.placed.ids⟩, ?_, ?_, ?_, ?_⟩,
    h.closed_cons hpreds, ?_⟩
  · rw [mem_cons]
    by_cases hm : m = n
    · subst hm
      simp [hstatic]
    · rw [lookup_cons_of_ne hm, h.placed.named m]
      simp [hm]
  · refine nodup_cons.mpr ⟨fun hn => ?_, h.placed.names⟩
    rw [mem_fst_iff_lookup, h.lookup_new hnew] at hn
    cases hn
  · intro m id' hlookup
    rcases lookup_cons_some hlookup with ⟨rfl, rfl⟩ | hlookup
    · exact ⟨job, hjob, hfor⟩
    · rw [hjobs id' fun heq => hfresh (heq ▸ mem_snd_of_lookup hlookup)]
      exact h.placed.job m id' hlookup
  · intro id' hid'
    rw [map_cons, mem_cons, not_or] at hid'
    rw [hjobs id' hid'.1]
    exact h.placed.otherJobs id' hid'.2
  · intro m id' hlookup d
    rcases lookup_cons_some hlookup with ⟨rfl, rfl⟩ | hlookup
    · have hidle : waits q₀ id' d = false := hid ▸ hidle _ d
      rw [hwaits, h.placed.otherWaits _ hfresh d, hidle, hsame hpreds, ← hdeps d]
      simp
    · have hne : id' ≠ id := fun heq => hfresh (heq ▸ mem_snd_of_lookup hlookup)
      rw [hwaits, h.placed.waiting m id' hlookup d, hsame (h.closed m (hmem hlookup))]
      simp [hne]
  · intro id' hid' d
    rw [map_cons, mem_cons, not_or] at hid'
    rw [hwaits, h.placed.otherWaits id' hid'.2 d]
    simp [hid'.1]
  · intro id' hid'
    rcases mem_cons.mp hid' with rfl | hid'
    · exact ⟨jobIds.length, Nat.lt_succ_self _, hid⟩
    · obtain ⟨i, hi, heq⟩ := h.mintedIds id' hid'
      exact ⟨i, Nat.lt_succ_of_lt hi, heq⟩

end Extend

/-! ## The loop -/

section Alone

variable {ext jobs waits req minted preds} {h : Handle} {w₀ w : World Q}
  {ordered : List TopologicalNode}

/-- A call is answered, and not with an error. -/
def Call.answered (c : Call) (a : c.Answer) : Prop := ∃ r, a = .ok r
  deriving Decidable

theorem RowsPlaced.congr {s₀ s s' : Store} {seen nodes : List String}
    {jobIds : List (String × String)} (h : RowsPlaced req minted s₀ s seen jobIds)
    (hnodes : s'.nodes = s.nodes) (hmem : ∀ n, n ∈ seen ↔ n ∈ nodes) :
    RowsPlaced req minted s₀ s' nodes jobIds := by
  refine ⟨fun n hn => ?_, fun n hn => ?_, fun k hk => ?_⟩
  · rw [hnodes]
    exact h.row n ((hmem n).mpr hn)
  · rw [hnodes]
    exact h.noRow n fun hn' => hn ((hmem n).mp hn')
  · rw [hnodes]
    exact h.otherRows k hk

end Alone

/-! ## The graph of a submission -/

section Backends

open Quota (QuotaCache StoreOf Depot engineOf)
open Resilience (Backend)

end Backends

section Small

end Small

end FlexiQ.Workflow
