/-
# `Workflow.Effects` — what each store call leaves

One equation for each call that writes: which rows it changes, and what the
others are.  A call that does not write a table leaves it as it was
(`answer_runs`, `answer_nodes`).
-/
import FlexiQ.Workflow.Ops

namespace FlexiQ.Workflow

open FlexiQ.Lib FlexiQ.Resilience Table FlexiQ.Lib.Prog

variable {Q : Type} {h : Handle} {jobs : JobQueue Q} {s s' : Store} {w : World Q}
  {runId nodeName : String} {node : WorkflowNode} {nodes : List WorkflowNode} {b : Backend}
  {c : Call}

/-! ## Runs -/

section

variable (runId : String) (f : WorkflowRun → WorkflowRun) (hf : ∀ run, (f run).id = run.id)
  (s : Store)
include hf

theorem find_updateRun (id : String) : (updateRun h runId f hf s).runs.find id =
      if h.sees s runId = true ∧ id = runId then (s.runs.find id).map f else s.runs.find id := by
  unfold updateRun
  split
  · next hsees =>
    rw [find_update_key]
    simp [hsees]
  · next hsees => simp [hsees]

theorem updateRun_nodes : (updateRun h runId f hf s).nodes = s.nodes := by
  unfold updateRun
  split <;> rfl

theorem updateRun_definitions : (updateRun h runId f hf s).definitions = s.definitions := by
  unfold updateRun
  split <;> rfl

end

theorem updateRun_map {γ : Type} {g : WorkflowRun → γ} {f : WorkflowRun → WorkflowRun}
    {hf : ∀ run, (f run).id = run.id} (hg : ∀ run, g (f run) = g run) (s : Store) (id : String) :
    ((updateRun h runId f hf s).runs.find id).map g = (s.runs.find id).map g := by
  rw [find_updateRun]
  split
  · rw [Option.map_map]
    exact congrArg (Option.map · (s.runs.find id)) (funext hg)
  · rfl

def Store.frame (s : Store) (id : String) : Option (Option String × Option String) :=
  (s.runs.find id).map fun run => (run.parentRunId, run.namespace)

def Store.parentOf (s : Store) (id : String) : Option String :=
  (s.frame id).bind Prod.fst

theorem frame_updateRun {f : WorkflowRun → WorkflowRun} {hf : ∀ run, (f run).id = run.id}
    (hframe : ∀ run, ((f run).parentRunId, (f run).namespace) = (run.parentRunId, run.namespace))
    (s : Store) (id : String) : (updateRun h runId f hf s).frame id = s.frame id :=
  updateRun_map hframe s id

theorem sees_congr {id : String} (hframe : s'.frame id = s.frame id) :
    h.sees s' id = h.sees s id := by
  have hsees : ∀ s : Store, h.sees s id =
      h.namespace.all fun ns => (s.frame id).any fun f => f.2 == some ns := by
    intro s
    unfold Handle.sees Store.frame
    refine congrArg (fun p => h.namespace.all p) (funext fun ns => ?_)
    rw [Option.any_map]
  rw [hsees, hsees, hframe]

/-- A run is refused, or written: as it comes where there was none of its
id, and in the scope of the handle in any case. -/
theorem createWorkflowRun_spec (run : WorkflowRun) (s : Store) :
    (∃ e, createWorkflowRun h run s = (.error e, s)) ∨
      ∃ row runs, createWorkflowRun h run s = (.ok (), { s with runs := runs }) ∧
        (s.runs.find run.id = none → row = { run with «namespace» := h.namespace }) ∧
        (∀ ns, h.namespace = some ns → row.namespace = some ns) ∧
        ∀ id, runs.find id = if run.id = id then some row else s.runs.find id := by
  unfold createWorkflowRun
  dsimp only
  split
  · exact Or.inl ⟨_, rfl⟩
  split
  · split
    · exact Or.inr ⟨_, _, rfl, fun _ => rfl, fun _ hns => hns, find_upsert _ _⟩
    · next old hold =>
      split
      · refine Or.inr ⟨WorkflowRun.over { run with «namespace» := h.namespace } old, _, rfl,
          fun hnone => ?_, fun ns hns => ?_, find_upsert _ _⟩
        · cases hold.symm.trans hnone
        · rw [hns]
          rfl
      · exact Or.inl ⟨_, rfl⟩
  · split
    · next runs hins =>
      exact Or.inr ⟨_, runs, rfl, fun _ => rfl, fun _ hns => hns, find_insert hins⟩
    · exact Or.inl ⟨_, rfl⟩

theorem createWorkflowRun_fresh {run : WorkflowRun} (hfresh : s.runs.find run.id = none) :
    (∃ e, createWorkflowRun h run s = (.error e, s)) ∨
      ∃ runs, createWorkflowRun h run s = (.ok (), { s with runs := runs }) ∧
        ∀ id, runs.find id =
          if run.id = id then some { run with «namespace» := h.namespace } else s.runs.find id := by
  rcases createWorkflowRun_spec run s with herr | ⟨row, runs, heq, hnew, -, hfind⟩
  · exact Or.inl herr
  · obtain rfl := hnew hfresh
    exact Or.inr ⟨runs, heq, hfind⟩

/-! ## Nodes -/

def written (b : Backend) (node : WorkflowNode) : Option WorkflowNode → WorkflowNode
  | some old => if b = .redis then node.over old else node
  | none => node

theorem insertNode_ok (hok : insertNode b node s = .ok s') : s' = { s with nodes := s'.nodes } ∧
      ∀ k, s'.nodes.find k =
        if node.key = k then some (written b node (s.nodes.find node.key))
        else s.nodes.find k := by
  unfold insertNode at hok
  split at hok
  · split at hok
    · next hnone =>
      cases hok
      refine ⟨rfl, fun k => ?_⟩
      rw [hnone]
      exact find_upsert _ _ k
    · next old hold =>
      cases hok
      refine ⟨rfl, fun k => ?_⟩
      rw [hold]
      exact find_upsert s.nodes (node.over old) k
  · split at hok
    · next nodes hins =>
      cases hok
      refine ⟨rfl, fun k => ?_⟩
      rw [(insert_eq_some hins).1]
      exact find_insert hins k
    · cases hok

theorem insertNode_fresh (hfresh : s.nodes.find node.key = none) :
    ∃ s', insertNode b node s = .ok s' := by
  unfold insertNode
  split
  · rw [hfresh]
    exact ⟨_, rfl⟩
  · obtain ⟨nodes, hins⟩ := insert_isSome hfresh
    rw [hins]
    exact ⟨_, rfl⟩

theorem insertNodes_frame : ∀ {nodes : List WorkflowNode} {s s' : Store},
    insertNodes b nodes s = .ok s' → s' = { s with nodes := s'.nodes }
  | [], s, s', hok => by
    cases hok
    rfl
  | node :: nodes, s, s', hok => by
    obtain ⟨s₁, h₁, h₂⟩ := bind_eq_ok.mp hok
    rw [insertNodes_frame h₂, (insertNode_ok h₁).1]

theorem insertNodes_other : ∀ {nodes : List WorkflowNode} {s s' : Store},
    insertNodes b nodes s = .ok s' → ∀ k, k ∉ nodes.map WorkflowNode.key →
      s'.nodes.find k = s.nodes.find k
  | [], s, s', hok, k, _ => by
    cases hok
    rfl
  | node :: nodes, s, s', hok, k, hk => by
    obtain ⟨s₁, h₁, h₂⟩ := bind_eq_ok.mp hok
    rw [List.map_cons, List.mem_cons, not_or] at hk
    rw [insertNodes_other h₂ k hk.2, (insertNode_ok h₁).2, if_neg fun heq => hk.1 heq.symm]

theorem createWorkflowNodesBatch_frame (nodes : List WorkflowNode) (s : Store) :
    (createWorkflowNodesBatch h nodes s).2 =
      { s with nodes := (createWorkflowNodesBatch h nodes s).2.nodes } := by
  unfold createWorkflowNodesBatch
  split
  · rfl
  · split
    · next hok => exact insertNodes_frame hok
    · rfl

/-- What a batch leaves under a key: what was there, or a row of the batch,
whose run is in scope. -/
theorem createWorkflowNodesBatch_find (nodes : List WorkflowNode) (s : Store)
    (k : String × String) :
    (createWorkflowNodesBatch h nodes s).2.nodes.find k = s.nodes.find k ∨
      k ∈ nodes.map WorkflowNode.key ∧ h.sees s k.1 = true := by
  unfold createWorkflowNodesBatch
  split
  · exact Or.inl rfl
  · next hscope =>
    split
    · next s' hok =>
      by_cases hk : k ∈ nodes.map WorkflowNode.key
      · obtain ⟨node, hnode, rfl⟩ := List.mem_map.mp hk
        refine Or.inr ⟨hk, ?_⟩
        have hseen := List.find?_eq_none.mp hscope node hnode
        rw [Bool.not_eq_true, Bool.not_eq_false'] at hseen
        exact hseen
      · exact Or.inl (insertNodes_other hok k hk)
    · exact Or.inl rfl

theorem createWorkflowNode_fresh (hsees : h.sees s runId = true) (hrun : node.runId = runId)
    (hname : node.nodeName = nodeName) (hfresh : s.nodes.find (runId, nodeName) = none) :
    ∃ s', createWorkflowNodesBatch h [node] s = (.ok (), s') ∧
      s' = { s with nodes := s'.nodes } ∧
      ∀ k, s'.nodes.find k = if k = (runId, nodeName) then some node else s.nodes.find k := by
  obtain rfl := hrun
  obtain rfl := hname
  obtain ⟨s', hins⟩ : ∃ s', insertNode h.backend node s = .ok s' := insertNode_fresh hfresh
  obtain ⟨hframe, hfind⟩ := insertNode_ok hins
  have hkey : s.nodes.find node.key = none := hfresh
  refine ⟨s', ?_, hframe, fun k => ?_⟩
  · simp only [createWorkflowNodesBatch, insertNodes, hins, List.find?_cons, hsees]
    rfl
  · rw [hfind, hkey]
    exact if_congr eq_comm rfl rfl

theorem getWorkflowNode_eq_some : getWorkflowNode h runId nodeName s = some node ↔
      h.sees s runId = true ∧ s.nodes.find (runId, nodeName) = some node := by
  unfold getWorkflowNode
  split
  · next hsees => simp [hsees]
  · next hsees => simp [hsees]

theorem setNode_find (write : NodeWrite) (hnode : getWorkflowNode h runId nodeName s = some node) :
    (setNode h runId nodeName write s).1 = .ok () ∧
      ∀ k, (setNode h runId nodeName write s).2.nodes.find k =
        if k = (runId, nodeName) then some (write.apply h.backend node) else s.nodes.find k := by
  unfold setNode
  rw [hnode]
  refine ⟨rfl, fun k => ?_⟩
  rw [find_update_key]
  split
  · next hk =>
    rw [hk, (getWorkflowNode_eq_some.mp hnode).2]
    rfl
  · rfl

theorem setNode_none {write : NodeWrite} (hnode : getWorkflowNode h runId nodeName s = none) :
    setNode h runId nodeName write s = (.error (nodeNotFound runId nodeName), s) := by
  unfold setNode
  rw [hnode]

theorem setNode_frame (runId nodeName : String) (write : NodeWrite) (s : Store) :
    (setNode h runId nodeName write s).2 =
      { s with nodes := (setNode h runId nodeName write s).2.nodes } := by
  unfold setNode
  split <;> rfl

section

variable (runId nodeName : String) (succeeded : Bool) (error : Option String) (completedAt : Int)
  (s : Store)

theorem finalizeFanOutParent_frame :
    (finalizeFanOutParent h runId nodeName succeeded error completedAt s).2 =
      { s with
        nodes :=
          (finalizeFanOutParent h runId nodeName succeeded error completedAt s).2.nodes } := by
  unfold finalizeFanOutParent
  repeat' split
  all_goals rfl

theorem finalizeFanOutParent_find (k : String × String) :
    (finalizeFanOutParent h runId nodeName succeeded error completedAt s).2.nodes.find k =
      s.nodes.find k ∨ k = (runId, nodeName) ∧ ∃ node, s.nodes.find k = some node ∧
        finalizedStatus node.status = false ∧
        (finalizeFanOutParent h runId nodeName succeeded error completedAt s).2.nodes.find k =
          some (node.finalized h.backend succeeded error completedAt) := by
  unfold finalizeFanOutParent
  split
  · exact Or.inl rfl
  · split
    · exact Or.inl rfl
    · next node hnode =>
      split
      · exact Or.inl rfl
      · next hopen =>
        rw [find_update_key]
        split
        · next hk =>
          subst hk
          exact Or.inr ⟨rfl, node, hnode, Bool.eq_false_of_not_eq_true hopen, by rw [hnode]; rfl⟩
        · exact Or.inl rfl

end

theorem createWorkflowRun_sees (run : WorkflowRun) {r : String} (hr : h.sees s r = true) :
    h.sees (createWorkflowRun h run s).2 r = true := by
  rcases createWorkflowRun_spec (h := h) run s with ⟨e, heq⟩ | ⟨row, runs, heq, -, hns, hfind⟩
  · rwa [heq]
  rw [heq]
  unfold Handle.sees at hr ⊢
  cases hname : h.namespace with
  | none => rfl
  | some ns =>
    rw [hname] at hr
    rw [hfind]
    split
    · simp [hns ns hname]
    · exact hr

/-! ## Calls -/

def Call.keepsRuns : Call → Bool
  | .createRun _ | .updateRunState .. | .setRunCompleted .. => false
  | _ => true

def Call.keepsNodes : Call → Bool
  | .createNodesBatch _ | .setNode .. | .finalizeFanOutParent .. => false
  | _ => true

theorem createWorkflowDefinition_frame (definition : WorkflowDefinition) (s : Store) :
    (createWorkflowDefinition h definition s).2.runs = s.runs ∧
      (createWorkflowDefinition h definition s).2.nodes = s.nodes := by
  unfold createWorkflowDefinition
  dsimp only
  split <;> exact ⟨rfl, rfl⟩

theorem answer_runs (hc : c.keepsRuns = true) (w : World Q) :
    (answer h jobs c w).2.store.runs = w.store.runs := by
  cases c with
  | createRun | updateRunState | setRunCompleted => cases hc
  | createDefinition definition => exact (createWorkflowDefinition_frame definition w.store).1
  | createNodesBatch nodes =>
    have hframe := congrArg Store.runs (createWorkflowNodesBatch_frame (h := h) nodes w.store)
    exact hframe
  | setNode runId nodeName write =>
    have hframe := congrArg Store.runs (setNode_frame (h := h) runId nodeName write w.store)
    exact hframe
  | finalizeFanOutParent runId nodeName succeeded error completedAt =>
    have hframe := congrArg Store.runs
      (finalizeFanOutParent_frame (h := h) runId nodeName succeeded error completedAt w.store)
    exact hframe
  | _ => rfl

theorem createWorkflowRun_nodes (run : WorkflowRun) (s : Store) :
    (createWorkflowRun h run s).2.nodes = s.nodes := by
  rcases createWorkflowRun_spec (h := h) run s with ⟨e, heq⟩ | ⟨row, runs, heq, -⟩
  all_goals rw [heq]

theorem answer_nodes (hc : c.keepsNodes = true) (w : World Q) :
    (answer h jobs c w).2.store.nodes = w.store.nodes := by
  cases c with
  | createNodesBatch | setNode | finalizeFanOutParent => cases hc
  | createDefinition definition => exact (createWorkflowDefinition_frame definition w.store).2
  | createRun run => exact createWorkflowRun_nodes run w.store
  | updateRunState | setRunCompleted => exact updateRun_nodes _ _ _ w.store
  | _ => rfl

theorem frame_answer (hc : ∀ run, c ≠ .createRun run) (w : World Q) (id : String) :
    (answer h jobs c w).2.store.frame id = w.store.frame id := by
  have hruns : ∀ {c : Call}, c.keepsRuns = true →
      (answer h jobs c w).2.store.frame id = w.store.frame id := by
    intro c hc
    unfold Store.frame
    rw [answer_runs hc]
  cases c with
  | createRun run => exact absurd rfl (hc run)
  | updateRunState runId state error =>
    exact frame_updateRun (f := fun run => { run with state := state, error := error })
      (fun _ => rfl) w.store id
  | setRunCompleted runId completedAt =>
    exact frame_updateRun (f := fun run => { run with completedAt := some completedAt })
      (fun _ => rfl) w.store id
  | _ => exact hruns rfl

/-! ## The calls of a program -/

def Call.reads : Call → Bool
  | .getDefinition .. | .getRun _ | .getChildRuns _ | .getNode .. | .selectNodes _
  | .selectNodesLike .. | .nodeNames _ | .getJob _ => true
  | _ => false

section Only

variable {P : Call → Prop} {ε : Type}

theorem only_ask (hc : P c) : Only P (ask c) := .mk (.call hc)

theorem only_tried {ε' α : Type} {x : Act ε α} (hx : Only P x) :
    Only P (x.tried : Act ε' _) := .lift hx

theorem only_of {α : Type} (x : Except ε α) : Only P (Act.of x) := .mk (.pure trivial)

theorem only_store {α : Type} {x : Act QueueError α} (hx : Only P x) : Only P (store x) := .adapt hx

variable (hreads : ∀ c : Call, c.reads = true → P c)

include hreads

theorem readNodes_only (runId : String) : ∀ names, Only P (readNodes runId names)
  | [] => .pure []
  | name :: names => by
    refine .bind (only_ask (hreads _ rfl)) fun node => ?_
    exact .bind (readNodes_only runId names) fun nodes => .pure _

theorem getWorkflowNodes_only (b : Backend) (runId : String) :
    Only P (getWorkflowNodes b runId) := by
  cases b with
  | redis => exact .bind (only_ask (hreads _ rfl)) fun names => readNodes_only hreads runId names
  | sqlite | postgres => exact only_ask (hreads _ rfl)

theorem getWorkflowNodesByStem_only (b : Backend) (runId stem : String) :
    Only P (getWorkflowNodesByStem b runId stem) := by
  cases b with
  | redis => exact .bind (getWorkflowNodes_only hreads .redis runId) fun nodes => .pure _
  | sqlite | postgres => exact only_ask (hreads _ rfl)

omit hreads

theorem cascadeSkip_only {now : Int} (hcancel : ∀ id now, P (.cancelJob id now))
    (hskip : node.status = .pending → P (.setNode runId node.nodeName (.status .skipped))) :
    Only P (cascadeSkip runId now node) := by
  unfold cascadeSkip
  split
  · next hpend =>
    split
    · refine .bind (only_tried (only_ask (hcancel _ _))) fun _ => ?_
      exact .bind (only_tried (only_ask (hskip hpend))) fun _ => .pure _
    · exact .bind (only_tried (only_ask (hskip hpend))) fun _ => .pure _
  · exact .pure _

theorem cascadeSkipPendingNodes_only {now : Int} (hcancel : ∀ id now, P (.cancelJob id now)) :
    ∀ {nodes : List WorkflowNode},
    (∀ node ∈ nodes, node.status = .pending →
      P (.setNode runId node.nodeName (.status .skipped))) →
    Only P (cascadeSkipPendingNodes runId now nodes)
  | [], _ => .pure _
  | node :: nodes, hskip => by
    refine .bind (cascadeSkip_only hcancel (hskip node List.mem_cons_self)) fun _ => ?_
    exact cascadeSkipPendingNodes_only hcancel fun other hother =>
      hskip other (List.mem_cons_of_mem _ hother)

end Only

end FlexiQ.Workflow
