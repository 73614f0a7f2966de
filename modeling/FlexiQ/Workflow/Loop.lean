/-
# `Workflow.Loop` — a submission, judged under any guard

`submit_workflow` against a graph in order, as the graph library promises it
(`Externals.Sorts`) and `topological_order` hands it on: the pass before the
first write has checked what the loop looks up, so no turn of the loop fails
of itself.  What a turn needs of its calls is stated once (`Advances`), for
whatever the world may do in between; the rest of the submission follows by
induction on the graph.
-/
import FlexiQ.Lib.Solo
import FlexiQ.Workflow.Submit

namespace FlexiQ.Workflow

open List FlexiQ.Lib FlexiQ.Lib.Prog

/-- Every name once, and after its predecessors. -/
def Sorted : List TopologicalNode → List String → Prop
  | [], _ => True
  | topo :: rest, seen =>
    topo.name ∉ seen ∧ (∀ p ∈ topo.predecessors, p ∈ seen) ∧ Sorted rest (topo.name :: seen)

/-! ## The order of a graph -/

/-- The names an edge leads to `name` from, in the order of the edges. -/
def SerializableGraph.sources (graph : SerializableGraph) (name : String) : List String :=
  (graph.edges.filter fun e => e.«to» = name).map SerializableEdge.from

/-- What the sort of `dagron_core` promises: every node once, and the edges
lead onwards. -/
structure Externals.Sorts (ext : Externals) : Prop where
  once : ∀ {graph dag order}, ext.fromSerializable graph = .ok dag →
    ext.topologicalSort dag = .ok order → order.Nodup ∧ ∀ n, n ∈ order ↔ n ∈ graph.nodes
  after : ∀ {graph dag order}, ext.fromSerializable graph = .ok dag →
    ext.topologicalSort dag = .ok order → ∀ e ∈ graph.edges,
      order.idxOf e.«from» < order.idxOf e.«to»

/-- The document the bytes are read as. -/
def Externals.Decodes (ext : Externals) (bytes : Bytes) (graph : SerializableGraph) : Prop :=
  ∃ text, ext.fromUtf8 bytes = .ok text ∧ ext.graphFromStr text = .ok graph

theorem foldl_pushEdge (name : String) : ∀ (edges : List SerializableEdge)
    (preds : String → List String), edges.foldl pushEdge preds name =
      preds name ++ (edges.filter fun e => e.«to» = name).map SerializableEdge.from
  | [], preds => (append_nil _).symm
  | e :: edges, preds => by
    rw [foldl_cons, foldl_pushEdge name edges, filter_cons]
    unfold pushEdge
    by_cases he : e.«to» = name
    · subst he
      simp
    · simp [he, Function.update_of_ne (Ne.symm he)]

theorem takePredecessors_eq_map : ∀ {order : List String} {preds : String → List String},
    order.Nodup → takePredecessors order preds = order.map fun n => ⟨n, preds n⟩
  | [], _, _ => rfl
  | name :: rest, preds, hnodup => by
    obtain ⟨hname, hrest⟩ := nodup_cons.mp hnodup
    rw [takePredecessors, takePredecessors_eq_map hrest, map_cons]
    congr 1
    refine map_congr_left fun n hn => ?_
    have hne : n ≠ name := fun heq => hname (heq ▸ hn)
    rw [Function.update_of_ne hne]

theorem sorted_map {preds : String → List String} : ∀ {order seen : List String}, order.Nodup →
    (∀ n ∈ order, n ∉ seen) →
    (∀ before n rest, order = before ++ n :: rest → ∀ p ∈ preds n, p ∈ seen ∨ p ∈ before) →
    Sorted (order.map fun n => ⟨n, preds n⟩) seen
  | [], _, _, _, _ => trivial
  | name :: rest, seen, hnodup, hnew, hafter => by
    obtain ⟨hname, hrest⟩ := nodup_cons.mp hnodup
    refine ⟨hnew name mem_cons_self, fun p hp => ?_, sorted_map hrest ?_ ?_⟩
    · exact (hafter [] name rest rfl p hp).resolve_right not_mem_nil
    · intro n hn hseen
      rcases mem_cons.mp hseen with rfl | hseen
      · exact hname hn
      · exact hnew n (mem_cons_of_mem _ hn) hseen
    · rintro before n after rfl p hp
      rcases hafter (name :: before) n after rfl p hp with hseen | hbefore
      · exact Or.inl (mem_cons_of_mem _ hseen)
      · rcases mem_cons.mp hbefore with rfl | hbefore
        · exact Or.inl mem_cons_self
        · exact Or.inr hbefore

theorem mem_before {before rest : List String} {p n : String}
    (hnodup : (before ++ n :: rest).Nodup)
    (hlt : (before ++ n :: rest).idxOf p < (before ++ n :: rest).idxOf n) : p ∈ before := by
  have hn : n ∉ before := fun hmem => (nodup_append.mp hnodup).2.2 n hmem n mem_cons_self rfl
  by_contra hp
  rw [idxOf_append_of_notMem hn, idxOf_cons_self, idxOf_append_of_notMem hp] at hlt
  omega

theorem wrapped_ok {α : Type} {what : String} {r : Except String α} {a : α}
    (h : wrapped what r = .ok a) : r = .ok a := by
  cases r with
  | error => cases h
  | ok =>
    cases h
    rfl

/-- **The order is one of the graph that was decoded.** -/
theorem topologicalOrder_ok {ext : Externals} (hsorts : ext.Sorts) {bytes : Bytes}
    {ordered : List TopologicalNode} (h : ext.topologicalOrder bytes = .ok ordered) :
    Sorted ordered [] ∧ ∃ graph, ext.Decodes bytes graph ∧ ∀ topo, topo ∈ ordered ↔
      topo.name ∈ graph.nodes ∧ topo.predecessors = graph.sources topo.name := by
  obtain ⟨text, htext, h⟩ := bind_eq_ok.mp h
  obtain ⟨graph, hgraph, h⟩ := bind_eq_ok.mp h
  obtain ⟨dag, hdag, h⟩ := bind_eq_ok.mp h
  obtain ⟨order, horder, h⟩ := bind_eq_ok.mp h
  obtain ⟨hnodup, hnodes⟩ := hsorts.once (wrapped_ok hdag) (wrapped_ok horder)
  have hafter : ∀ before n rest, order = before ++ n :: rest → ∀ p ∈ graph.sources n,
      p ∈ before := by
    rintro before n rest rfl p hp
    obtain ⟨e, he, rfl⟩ := mem_map.mp hp
    obtain ⟨hedge, hto⟩ := mem_filter.mp he
    obtain rfl := of_decide_eq_true hto
    exact mem_before hnodup (hsorts.after (wrapped_ok hdag) (wrapped_ok horder) e hedge)
  have hpreds : ∀ n, graph.edges.foldl pushEdge (fun _ => []) n = graph.sources n := fun n =>
    foldl_pushEdge n graph.edges fun _ => []
  cases h
  rw [takePredecessors_eq_map hnodup]
  simp only [hpreds]
  refine ⟨sorted_map hnodup (fun _ _ => not_mem_nil) fun before n rest heq p hp =>
    Or.inr (hafter before n rest heq p hp), graph, ⟨text, wrapped_ok htext, wrapped_ok hgraph⟩, ?_⟩
  intro topo
  rw [mem_map]
  constructor
  · rintro ⟨n, hn, rfl⟩
    exact ⟨(hnodes n).mp hn, rfl⟩
  · rintro ⟨hname, hpred⟩
    exact ⟨topo.name, (hnodes _).mpr hname, by rw [← hpred]⟩

/-! ## The steps of a request -/

/-- If the node is to get a job, the request has its step and its payload. -/
def Described (req : SubmitStaticWorkflowRequest) (topo : TopologicalNode) : Prop :=
  req.jobless topo.name = false →
    (∃ step, entry "step_metadata" topo.name req.stepMetadata = .ok step) ∧
    ∃ payload, entry "node_payloads" topo.name req.nodePayloads = .ok payload

theorem checkSteps_ok {req : SubmitStaticWorkflowRequest} : ∀ {ordered : List TopologicalNode},
    checkSteps req ordered = .ok () → ∀ topo ∈ ordered, Described req topo
  | [], _, topo, htopo, _ => absurd htopo not_mem_nil
  | first :: rest, hok, topo, htopo, hjob => by
    unfold checkSteps at hok
    split at hok
    · next hjobless =>
      rcases mem_cons.mp htopo with rfl | htopo
      · rw [hjobless] at hjob
        cases hjob
      · exact checkSteps_ok hok topo htopo hjob
    · cases hstep : entry "step_metadata" first.name req.stepMetadata with
      | error e =>
        rw [hstep] at hok
        cases hok
      | ok step =>
        cases hpay : entry "node_payloads" first.name req.nodePayloads with
        | error e =>
          rw [hstep, hpay] at hok
          cases hok
        | ok payload =>
          rw [hstep, hpay] at hok
          rcases mem_cons.mp htopo with rfl | htopo
          · exact ⟨⟨step, hstep⟩, ⟨payload, hpay⟩⟩
          · exact checkSteps_ok hok topo htopo hjob

/-- Every node that was given a job is in the map. -/
def Covers (req : SubmitStaticWorkflowRequest) (seen : List String)
    (jobIds : List (String × String)) : Prop :=
  ∀ p ∈ seen, req.jobless p = false → ∃ id, jobIds.lookup p = some id

theorem dependsOnOf_ok {req : SubmitStaticWorkflowRequest} {topo : TopologicalNode}
    {seen : List String} {jobIds : List (String × String)} (hcovers : Covers req seen jobIds)
    (hpreds : ∀ p ∈ topo.predecessors, p ∈ seen) :
    ∃ ids, dependsOnOf req topo jobIds = .ok ids := by
  refine mapM_eq_ok fun p hp => ?_
  obtain ⟨hp, hjob⟩ := mem_filter.mp hp
  obtain ⟨id, hid⟩ := hcovers p (hpreds p hp) (by simpa using hjob)
  exact ⟨id, by rw [hid]⟩

/-! ## Under a guard -/

section Guarded

variable {X : Type} {exec : (c : Call) → X → c.Answer × X} {g : Guard Call X} {ext : Externals}
  {req : SubmitStaticWorkflowRequest} {minted : Minted}

theorem keeps_of_ok {ε α β : Type} {a : α} {f : α → Act ε β} {P : Except ε β → X → Prop} {x : X}
    (hf : (f a).run.Keeps exec g P x) : (Act.of (.ok a) >>= f).run.Keeps exec g P x := hf

/-- What a turn of the loop needs of its calls.  `B seen jobIds` is what is so
between two turns, with the nodes `seen` behind and their jobs in the map;
`D seen jobIds name` once the job of `name` is enqueued and its row is not
there. -/
structure Advances (exec : (c : Call) → X → c.Answer × X) (g : Guard Call X) (ext : Externals)
    (req : SubmitStaticWorkflowRequest) (minted : Minted) (ordered : List TopologicalNode)
    (B : List String → List (String × String) → X → Prop)
    (D : List String → List (String × String) → String → Job → X → Prop) : Prop where
  jobless : ∀ {seen jobIds x topo node}, topo ∈ ordered → topo.name ∉ seen →
    (∀ p ∈ topo.predecessors, p ∈ seen) → B seen jobIds x → req.jobless topo.name = true →
    node.runId = minted.runId → node.nodeName = topo.name → node.jobId = none →
    node.status = (if (req.cacheHitNodes.lookup topo.name).isSome then .cacheHit else .pending) →
    (store (createWorkflowNode node)).run.Keeps exec g
      (fun r x' => r = .ok () ∧ B (topo.name :: seen) jobIds x') x
  enqueue : ∀ {seen jobIds x topo step payload dependsOn}, topo ∈ ordered → topo.name ∉ seen →
    (∀ p ∈ topo.predecessors, p ∈ seen) → B seen jobIds x → req.jobless topo.name = false →
    entry "step_metadata" topo.name req.stepMetadata = .ok step →
    entry "node_payloads" topo.name req.nodePayloads = .ok payload →
    dependsOnOf req topo jobIds = .ok dependsOn →
    (store (ask (.enqueue (nodeJob ext req minted.runId topo step payload dependsOn minted.now)
      (minted.jobId jobIds.length) minted.now))).run.Keeps exec g
        (fun r x' => ∃ job, r = .ok job ∧ D seen jobIds topo.name job x') x
  row : ∀ {seen jobIds x topo job}, topo ∈ ordered → topo.name ∉ seen →
    D seen jobIds topo.name job x →
    (store (createWorkflowNode (.fresh minted.runId topo.name (some job.id) .pending))).run.Keeps
      exec g (fun r x' => r = .ok () ∧ B (topo.name :: seen) ((topo.name, job.id) :: jobIds) x') x

variable {ordered : List TopologicalNode} {B : List String → List (String × String) → X → Prop}
  {D : List String → List (String × String) → String → Job → X → Prop}

theorem submitNode_keeps (hadv : Advances exec g ext req minted ordered B D)
    {topo : TopologicalNode} {seen : List String} {jobIds : List (String × String)} {x : X}
    (htopo : topo ∈ ordered) (hB : B seen jobIds x) (hcovers : Covers req seen jobIds)
    (hnew : topo.name ∉ seen) (hpreds : ∀ p ∈ topo.predecessors, p ∈ seen)
    (hsteps : Described req topo) :
    (submitNode ext req minted topo jobIds).run.Keeps exec g
      (fun r x' => ∃ jobIds', r = .ok jobIds' ∧ B (topo.name :: seen) jobIds' x' ∧
        Covers req (topo.name :: seen) jobIds') x := by
  have hjobless : req.jobless topo.name = true → Covers req (topo.name :: seen) jobIds := by
    intro hjobless p hp hjob
    rcases mem_cons.mp hp with rfl | hp
    · rw [hjobless] at hjob
      cases hjob
    · exact hcovers p hp hjob
  unfold submitNode
  split
  · next hash hhit =>
    have hnone : req.jobless topo.name = true := by
      simp [SubmitStaticWorkflowRequest.jobless, hhit]
    refine Keeps.tryBind ((hadv.jobless htopo hnew hpreds hB hnone rfl rfl rfl ?_).mono ?_)
    · rw [hhit]
      rfl
    · rintro r x' ⟨rfl, hB'⟩
      exact ⟨jobIds, rfl, hB', hjobless hnone⟩
  · next hmiss =>
    split
    · next hdeferred =>
      have hnone : req.jobless topo.name = true := by
        simpa [SubmitStaticWorkflowRequest.jobless, hmiss] using hdeferred
      refine Keeps.tryBind ((hadv.jobless htopo hnew hpreds hB hnone rfl rfl rfl ?_).mono ?_)
      · rw [hmiss]
        rfl
      · rintro r x' ⟨rfl, hB'⟩
        exact ⟨jobIds, rfl, hB', hjobless hnone⟩
    · next hstatic =>
      have hjob : req.jobless topo.name = false := by
        simpa [SubmitStaticWorkflowRequest.jobless, hmiss] using hstatic
      obtain ⟨⟨step, hstep⟩, ⟨payload, hpay⟩⟩ := hsteps hjob
      obtain ⟨ids, hids⟩ := dependsOnOf_ok hcovers hpreds
      have henqueue := hadv.enqueue htopo hnew hpreds hB hjob hstep hpay hids
      rw [hstep, hpay, hids]
      refine keeps_of_ok (keeps_of_ok (keeps_of_ok ?_))
      refine Keeps.tryBind (henqueue.mono ?_)
      rintro r x₁ ⟨job, rfl, hD⟩
      refine Keeps.tryBind ((hadv.row htopo hnew hD).mono ?_)
      rintro r x₂ ⟨rfl, hB₂⟩
      refine ⟨_, rfl, hB₂, fun p hp hpjob => ?_⟩
      by_cases hsame : p = topo.name
      · exact ⟨job.id, by rw [hsame, lookup_cons, beq_self_eq_true]⟩
      · obtain ⟨id, hid⟩ := hcovers p ((mem_cons.mp hp).resolve_left hsame) hpjob
        refine ⟨id, ?_⟩
        rw [lookup_cons, beq_false_of_ne hsame]
        exact hid

theorem submitNodes_keeps (hadv : Advances exec g ext req minted ordered B D) :
    ∀ {rest : List TopologicalNode} {seen : List String} {jobIds : List (String × String)} {x : X},
      (∀ topo ∈ rest, topo ∈ ordered) → B seen jobIds x → Covers req seen jobIds →
      Sorted rest seen → (∀ topo ∈ rest, Described req topo) →
      (submitNodes ext req minted rest jobIds).run.Keeps exec g
        (fun r x' => r = .ok () ∧ ∃ seen' jobIds', B seen' jobIds' x' ∧
          ∀ name, name ∈ seen' ↔ name ∈ seen ∨ name ∈ rest.map TopologicalNode.name) x
  | [], seen, jobIds, _, _, hB, _, _, _ => ⟨rfl, seen, jobIds, hB, fun _ => by simp⟩
  | topo :: rest, seen, jobIds, x, hsub, hB, hcovers, ⟨hnew, hpreds, hsorted⟩, hsteps => by
    refine Keeps.tryBind ((submitNode_keeps hadv (hsub topo mem_cons_self) hB hcovers
      hnew hpreds (hsteps topo mem_cons_self)).mono ?_)
    rintro r x₁ ⟨jobIds', rfl, hB₁, hcovers₁⟩
    refine (submitNodes_keeps hadv (fun other hother => hsub other (mem_cons_of_mem _ hother))
      hB₁ hcovers₁ hsorted fun other hother =>
        hsteps other (mem_cons_of_mem _ hother)).mono ?_
    rintro r x₂ ⟨rfl, seen', jobIds₂, hB₂, hseen⟩
    refine ⟨rfl, seen', jobIds₂, hB₂, fun name => ?_⟩
    rw [hseen, mem_cons, map_cons, mem_cons, or_assoc, or_left_comm]

/-- The whole submission: the definition is found (`A`), the run begins (`B`
with nothing behind), the loop goes through, and the run is set running. -/
theorem submitWorkflow_keeps {A : String → X → Prop} {x : X}
    (hsorted : ∀ ordered, ext.topologicalOrder req.dagBytes = .ok ordered → Sorted ordered [])
    (hdefinition : (definitionFor req minted).run.Keeps exec g
      (fun r x' => ∀ id, r = .ok id → A id x') x)
    (hrun : ∀ id x, A id x → (store (ask (.createRun (newRun req minted id)))).run.Keeps exec g
      (fun r x' => r = .ok () → B [] [] x') x)
    (hloop : ∀ ordered, ext.topologicalOrder req.dagBytes = .ok ordered →
      Advances exec g ext req minted ordered B D)
    (hlast : ∀ ordered seen jobIds x, ext.topologicalOrder req.dagBytes = .ok ordered →
      B seen jobIds x → (∀ topo ∈ ordered, topo.name ∈ seen) →
      (store (ask (.updateRunState minted.runId .running none))).run.Keeps exec g
        (fun _ _ => True) x) :
    (submitWorkflow ext req minted).run.Keeps exec g (fun _ _ => True) x := by
  unfold submitWorkflow
  cases horder : ext.topologicalOrder req.dagBytes with
  | error e => exact trivial
  | ok ordered =>
  refine keeps_of_ok (a := ordered) ?_
  cases hchecked : checkSteps req ordered with
  | error e => exact trivial
  | ok =>
  refine keeps_of_ok ?_
  refine Keeps.tryBind (hdefinition.mono ?_)
  rintro (e | definitionId) x₁ hA
  · exact trivial
  refine Keeps.tryBind ((hrun definitionId x₁ (hA definitionId rfl)).mono ?_)
  rintro (e | ⟨⟩) x₂ hbegun
  · exact trivial
  refine Keeps.tryBind (Keeps.lift ((submitNodes_keeps (hloop ordered horder)
    (fun _ htopo => htopo) (hbegun rfl) (fun p hp => absurd hp not_mem_nil)
    (hsorted ordered horder) (checkSteps_ok hchecked)).mono ?_))
  rintro r x₃ ⟨rfl, seen, jobIds, hB, hseen⟩
  refine Keeps.tryBind ((hlast ordered seen jobIds x₃ horder hB fun topo htopo =>
    (hseen _).mpr (Or.inr (mem_map_of_mem htopo))).mono ?_)
  rintro (e | ⟨⟩) x₄ - <;> exact trivial

end Guarded

end FlexiQ.Workflow
