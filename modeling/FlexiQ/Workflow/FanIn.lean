/-
# `Workflow.FanIn` — does a fan-in see its items in order?

`check_fan_out_completion` finds the children of a step by their names, and
hands out their jobs in the order the rows come in.  Neither a `SELECT`
without `ORDER BY` nor a set has one, so the rows of a table are taken to
stand in the order they come in, whatever it is.
-/
import FlexiQ.Workflow.Whole

namespace FlexiQ.Workflow

open List FlexiQ.Lib

def childNames (name : String) (n : Nat) : List String :=
  (List.range n).map fun i => name ++ "[" ++ toString i ++ "]"

/-- Of a list without repetitions, what is told apart by lying in a part of it
is that part. -/
theorem filter_eq_of_sublist {α : Type} {xs part : List α} {p : α → Bool} (hxs : xs.Nodup)
    (hpart : part.Sublist xs) (hp : ∀ x ∈ xs, p x = true ↔ x ∈ part) : xs.filter p = part := by
  have hself : part.filter p = part :=
    filter_eq_self.mpr fun x hx => (hp x (hpart.subset hx)).mpr hx
  have hsub : part.Sublist (xs.filter p) := hself ▸ hpart.filter p
  have hle : (xs.filter p).Subperm part := by
    refine subperm_of_subset (hxs.filter p) fun x hx => ?_
    obtain ⟨hmem, hpx⟩ := mem_filter.mp hx
    exact (hp x hmem).mp hpx
  exact (hsub.eq_of_length_le hle.length_le).symm

theorem map_some_filterMap {α β : Type} {f : α → Option β} {xs : List α}
    (h : ∀ x ∈ xs, (f x).isSome = true) : (xs.filterMap f).map some = xs.map f := by
  induction xs with
  | nil => rfl
  | cons x xs ih =>
    obtain ⟨y, hy⟩ := Option.isSome_iff_exists.mp (h x mem_cons_self)
    rw [filterMap_cons_some hy, map_cons, map_cons, hy, ih fun z hz => h z (mem_cons_of_mem x hz)]

variable {Q : Type} {h : Handle} {jobs : JobQueue Q} {w w' : World Q} {s : Store}
  {runId name : String}

theorem nodup_nodeNames : ((s.nodesOf runId).map WorkflowNode.nodeName).Nodup := by
  have hkeys : ((s.nodesOf runId).map WorkflowNode.key).Nodup :=
    s.nodes.nodup.sublist (filter_sublist.map _)
  have hpair : (s.nodesOf runId).map WorkflowNode.key =
      ((s.nodesOf runId).map WorkflowNode.nodeName).map (Prod.mk runId) := by
    rw [map_map]
    refine map_congr_left fun node hnode => ?_
    exact Table.key_of_find (nodesOf_spec.mp hnode)
  rw [hpair] at hkeys
  exact hkeys.of_map

theorem run_bind_ok {α β : Type} {x : Act QueueError α} {f : α → Act QueueError β} {a : α}
    (hx : x.run.run (answer h jobs) w = (.ok a, w')) :
    (x >>= f).run.run (answer h jobs) w = (f a).run.run (answer h jobs) w' := by
  show Prog.run _ (x.run >>= ExceptT.bindCont f) w = _
  rw [Prog.run_bind, hx]
  rfl

theorem run_readNodes (names : List String) : (readNodes runId names).run.run (answer h jobs) w =
      (.ok (names.flatMap fun n => (getWorkflowNode h runId n w.store).toList), w) := by
  induction names with
  | nil => rfl
  | cons n names ih =>
    have hread : (ask (.getNode runId n)).run.run (answer h jobs) w =
      (.ok (getWorkflowNode h runId n w.store), w) := rfl
    exact (run_bind_ok hread).trans (run_bind_ok ih)

theorem run_getWorkflowNodesByStem (jobs : JobQueue Q) (hsees : h.sees w.store runId = true)
    (stem : String) :
    (getWorkflowNodesByStem h.backend runId stem).run.run (answer h jobs) w =
      (.ok ((w.store.nodesOf runId).filter fun node => matchesStem h.backend stem node.nodeName),
        w) := by
  have hselect : selectNodes h runId w.store = w.store.nodesOf runId := if_pos hsees
  obtain ⟨b, ns⟩ := h
  cases b with
  | redis =>
    have hnames : (ask (.nodeNames runId)).run.run (answer ⟨.redis, ns⟩ jobs) w =
      (.ok ((selectNodes ⟨.redis, ns⟩ runId w.store).map WorkflowNode.nodeName), w) := rfl
    have hread : (w.store.nodesOf runId).flatMap (fun node =>
        (getWorkflowNode ⟨.redis, ns⟩ runId node.nodeName w.store).toList) =
          w.store.nodesOf runId := by
      rw [flatMap_congr (g := fun node => [node])]
      · simp
      · intro node hnode
        rw [getWorkflowNode_eq_some.mpr ⟨hsees, nodesOf_spec.mp hnode⟩]
        rfl
    have hnodes := (run_bind_ok (f := readNodes runId) hnames).trans (run_readNodes _)
    rw [flatMap_map, hselect, hread] at hnodes
    exact run_bind_ok hnodes
  | sqlite | postgres =>
    show (Except.ok (selectNodesLike _ runId stem w.store), w) = _
    rw [selectNodesLike, hselect]

def found (h : Handle) (s : Store) (runId name : String) : List WorkflowNode :=
  (s.nodesOf runId).filter fun node => matchesStem h.backend (name ++ "[") node.nodeName

theorem mem_found {node : WorkflowNode} : node ∈ found h s runId name ↔
    node ∈ s.nodesOf runId ∧ matchesStem h.backend (name ++ "[") node.nodeName = true :=
  mem_filter

theorem filterMap_jobId (rows : List WorkflowNode) :
    (rows.filter fun node => node.jobId.isSome).filterMap WorkflowNode.jobId =
      rows.filterMap WorkflowNode.jobId := by
  rw [filterMap_filter]
  refine filterMap_congr fun node _ => ?_
  cases node.jobId <;> rfl

structure AllSucceeded (h : Handle) (s : Store) (runId name : String) (n : Nat) : Prop where
  sees : h.sees s runId = true
  children : ∀ child ∈ childNames name n, ∃ node job, s.nodes.find (runId, child) = some node ∧
    node.status = .completed ∧ node.jobId = some job
  apart : ∀ node ∈ s.nodesOf runId, ∀ other ∈ s.nodesOf runId,
    node.jobId = other.jobId → node.jobId.isSome = true → node = other
  parent : ∃ node, s.nodes.find (runId, name) = some node ∧ finalizedStatus node.status = false

theorem run_checkFanOutCompletion (jobs : JobQueue Q) (now : Int)
    (hsees : h.sees w.store runId = true)
    (hparent : ∃ node, w.store.nodes.find (runId, name) = some node ∧
      finalizedStatus node.status = false) :
    ((checkFanOutCompletion h.backend runId name now).run.run (answer h jobs) w).1 =
      .ok (if (found h w.store runId name).isEmpty || !allTerminal (found h w.store runId name)
        then none
        else some (!(found h w.store runId name).any fun node => node.status = .failed,
          (found h w.store runId name).filterMap WorkflowNode.jobId)) := by
  have hfound : _ = (Except.ok (found h w.store runId name), w) :=
    run_getWorkflowNodesByStem jobs hsees (name ++ "[")
  unfold checkFanOutCompletion
  rw [run_bind_ok hfound]
  generalize found h w.store runId name = children
  split
  · rfl
  generalize (children.any fun node => node.status = .failed) = anyFailed
  obtain ⟨node, hnode, hopen⟩ := hparent
  obtain ⟨s', hwon⟩ : ∃ s', finalizeFanOutParent h runId name (!anyFailed)
      (if anyFailed then some "fan-out child failed" else none) now w.store = (true, s') := by
    unfold finalizeFanOutParent
    rw [hsees, hnode]
    dsimp only
    rw [hopen]
    exact ⟨_, rfl⟩
  have hask : (ask (.finalizeFanOutParent runId name (!anyFailed)
      (if anyFailed then some "fan-out child failed" else none) now)).run.run (answer h jobs) w =
      (.ok true, { w with store := s' }) := by
    show w.write (Except.ok (finalizeFanOutParent h runId name (!anyFailed) _ now w.store).1,
      (finalizeFanOutParent h runId name (!anyFailed) _ now w.store).2) = _
    rw [hwon]
    rfl
  exact congrArg Prod.fst (run_bind_ok hask)

def childJobs (s : Store) (runId name : String) (n : Nat) : List String :=
  (childNames name n).filterMap fun child =>
    (s.nodes.find (runId, child)).bind WorkflowNode.jobId

/-- What the query has to meet with: the rows of the children, in item order,
and besides them only rows that are over, have not failed and carry no job. -/
structure InOrder (h : Handle) (s : Store) (runId name : String) (n : Nat) : Prop where
  meant : ∀ child ∈ childNames name n, matchesStem h.backend (name ++ "[") child = true
  strays : ∀ node ∈ s.nodesOf runId, matchesStem h.backend (name ++ "[") node.nodeName = true →
    node.nodeName ∉ childNames name n →
      node.jobId = none ∧ node.status.isTerminal = true ∧ node.status ≠ .failed
  order : (childNames name n).Sublist ((s.nodesOf runId).map WorkflowNode.nodeName)

namespace AllSucceeded

variable {n : Nat} (hall : AllSucceeded h s runId name n)
include hall

theorem row {child : String} (hchild : child ∈ childNames name n) :
    ∃ node ∈ s.nodesOf runId, node.nodeName = child ∧ node.status = .completed ∧
      ∃ job, node.jobId = some job ∧
        (s.nodes.find (runId, child)).bind WorkflowNode.jobId = some job := by
  obtain ⟨node, job, hfind, hstatus, hjob⟩ := hall.children child hchild
  have hkey : node.key = (runId, child) := s.nodes.key_of_find hfind
  obtain ⟨rfl, rfl⟩ := Prod.mk.inj hkey
  exact ⟨node, nodesOf_spec.mpr hfind, rfl, hstatus, job, hjob, by rw [hfind]; exact hjob⟩

theorem eq_child {node : WorkflowNode} {job : String} (hnode : node ∈ s.nodesOf runId)
    (hjob : node.jobId = some job) (hmem : job ∈ childJobs s runId name n) :
    node.nodeName ∈ childNames name n := by
  obtain ⟨child, hchild, hbind⟩ := mem_filterMap.mp hmem
  obtain ⟨other, hother, rfl, -, job', hjob', hbind'⟩ := hall.row hchild
  cases hbind.symm.trans hbind'
  exact hall.apart node hnode other hother (hjob.trans hjob'.symm) (hjob ▸ rfl) ▸ hchild

theorem names_of_jobs (rows : List WorkflowNode) (hrows : ∀ node ∈ rows, node ∈ s.nodesOf runId)
    (hsome : ∀ node ∈ rows, node.jobId.isSome = true)
    (h : rows.filterMap WorkflowNode.jobId = childJobs s runId name n) :
    rows.map WorkflowNode.nodeName = childNames name n := by
  let owner (job : Option String) : String :=
    (((s.nodesOf runId).find? fun node => node.jobId = job).map WorkflowNode.nodeName).getD ""
  have howner : ∀ node ∈ s.nodesOf runId, node.jobId.isSome = true →
      owner node.jobId = node.nodeName := by
    intro node hnode hjob
    obtain ⟨first, hfirst⟩ : ∃ first, (s.nodesOf runId).find? (fun other =>
        other.jobId = node.jobId) = some first :=
      Option.isSome_iff_exists.mp (find?_isSome.mpr ⟨node, hnode, decide_eq_true rfl⟩)
    have hsame : first.jobId = node.jobId := by simpa using find?_some hfirst
    have heq := hall.apart first (mem_of_find?_eq_some hfirst) node hnode hsame (hsame ▸ hjob)
    simp only [owner, hfirst, Option.map_some, Option.getD_some, heq]
  have hleft : (rows.filterMap WorkflowNode.jobId).map some = rows.map WorkflowNode.jobId :=
    map_some_filterMap hsome
  have hright : (childJobs s runId name n).map some = (childNames name n).map fun child =>
      (s.nodes.find (runId, child)).bind WorkflowNode.jobId := by
    refine map_some_filterMap fun child hchild => ?_
    obtain ⟨-, -, -, -, job, -, hbind⟩ := hall.row hchild
    rw [hbind]
    rfl
  have hjobs := congrArg (map owner) (hleft.symm.trans ((congrArg (map some) h).trans hright))
  rw [map_map, map_map] at hjobs
  refine (map_congr_left fun node hnode => ?_).trans (hjobs.trans ?_)
  · exact (howner node (hrows node hnode) (hsome node hnode)).symm
  · refine (map_congr_left fun child hchild => ?_).trans (map_id _)
    obtain ⟨node, hnode, rfl, -, job, hjob, hbind⟩ := hall.row hchild
    show owner ((s.nodes.find (runId, node.nodeName)).bind WorkflowNode.jobId) = _
    rw [hbind, ← hjob]
    exact howner node hnode (by rw [hjob]; rfl)

theorem jobs_of_inOrder (hin : InOrder h s runId name n) :
    (found h s runId name).filterMap WorkflowNode.jobId = childJobs s runId name n := by
  obtain ⟨rows, hsub, hnames⟩ := sublist_map_iff.mp hin.order
  have hnodup : (s.nodesOf runId).Nodup := nodup_nodeNames.of_map
  have hmem : ∀ node ∈ s.nodesOf runId, node ∈ rows ↔ node.nodeName ∈ childNames name n := by
    intro node hnode
    rw [hnames, mem_map]
    refine ⟨fun h => ⟨node, h, rfl⟩, fun ⟨other, hother, heq⟩ => ?_⟩
    exact inj_on_of_nodup_map nodup_nodeNames (hsub.subset hother) hnode heq ▸ hother
  have hrows : (found h s runId name).filter (fun node => node.jobId.isSome) = rows := by
    rw [found, filter_filter]
    refine filter_eq_of_sublist hnodup hsub fun node hnode => ?_
    rw [hmem node hnode, Bool.and_eq_true]
    constructor
    · rintro ⟨hjob, hmatch⟩
      by_contra hstray
      rw [(hin.strays node hnode hmatch hstray).1] at hjob
      cases hjob
    · intro hchild
      obtain ⟨other, hother, heq, -, job, hjob, -⟩ := hall.row hchild
      obtain rfl := inj_on_of_nodup_map nodup_nodeNames hother hnode heq
      exact ⟨by rw [hjob]; rfl, hin.meant _ hchild⟩
  rw [← filterMap_jobId, hrows, childJobs, hnames, filterMap_map]
  refine filterMap_congr fun node hnode => ?_
  show _ = (s.nodes.find (runId, node.nodeName)).bind _
  rw [nodesOf_spec.mp (hsub.subset hnode)]
  rfl

theorem found_over (hin : InOrder h s runId name n) {node : WorkflowNode}
    (hnode : node ∈ found h s runId name) :
    node.status.isTerminal = true ∧ node.status ≠ .failed := by
  obtain ⟨hmem, hmatch⟩ := mem_found.mp hnode
  by_cases hchild : node.nodeName ∈ childNames name n
  · obtain ⟨other, hother, heq, hstatus, -⟩ := hall.row hchild
    obtain rfl := inj_on_of_nodup_map nodup_nodeNames hother hmem heq
    rw [hstatus]
    exact ⟨rfl, by decide⟩
  · exact (hin.strays node hmem hmatch hchild).2

theorem found_some (hin : InOrder h s runId name n) (hn : 0 < n) :
    (found h s runId name).isEmpty = false := by
  have hchild : name ++ "[" ++ toString 0 ++ "]" ∈ childNames name n :=
    mem_map.mpr ⟨0, mem_range.mpr hn, rfl⟩
  obtain ⟨node, hnode, hname, -⟩ := hall.row hchild
  refine isEmpty_eq_false_iff.mpr (ne_nil_of_mem (mem_found.mpr ⟨hnode, ?_⟩))
  exact hname ▸ hin.meant _ hchild

theorem inOrder_of_jobs (hterminal : allTerminal (found h s runId name) = true)
    (hfailed : ((found h s runId name).any fun node => node.status = .failed) = false)
    (hjobs : (found h s runId name).filterMap WorkflowNode.jobId = childJobs s runId name n) :
    InOrder h s runId name n := by
  have hnames := hall.names_of_jobs
    ((found h s runId name).filter fun node => node.jobId.isSome)
    (fun node hnode => (mem_found.mp (mem_filter.mp hnode).1).1)
    (fun node hnode => (mem_filter.mp hnode).2) ((filterMap_jobId _).trans hjobs)
  refine ⟨fun child hchild => ?_, fun node hnode hmatch hstray => ⟨?_, ?_, ?_⟩, ?_⟩
  · rw [← hnames] at hchild
    obtain ⟨node, hnode, rfl⟩ := mem_map.mp hchild
    exact (mem_found.mp (mem_filter.mp hnode).1).2
  · cases hjob : node.jobId with
    | none => rfl
    | some job =>
      have hmem : job ∈ childJobs s runId name n :=
        hjobs ▸ mem_filterMap.mpr ⟨node, mem_found.mpr ⟨hnode, hmatch⟩, hjob⟩
      exact absurd (hall.eq_child hnode hjob hmem) hstray
  · exact all_eq_true.mp hterminal node (mem_found.mpr ⟨hnode, hmatch⟩)
  · simpa using any_eq_false.mp hfailed node (mem_found.mpr ⟨hnode, hmatch⟩)
  · rw [← hnames]
    exact (filter_sublist.trans filter_sublist).map _

end AllSucceeded

/-- **When a fan-in sees its items in order**: the query means the children,
what else it finds does not matter, and the rows of the children come in item
order. -/
theorem fan_in_in_item_order (jobs : JobQueue Q) {n : Nat} (hn : 0 < n) (now : Int)
    (hall : AllSucceeded h w.store runId name n) :
    ((checkFanOutCompletion h.backend runId name now).run.run (answer h jobs) w).1 =
      .ok (some (true, childJobs w.store runId name n)) ↔ InOrder h w.store runId name n := by
  rw [run_checkFanOutCompletion jobs now hall.sees hall.parent]
  constructor
  · intro hresult
    split at hresult
    · cases hresult
    next hover =>
    simp only [Except.ok.injEq, Option.some.injEq, Prod.mk.injEq, Bool.not_eq_true'] at hresult
    simp only [Bool.or_eq_true, Bool.not_eq_true', not_or, Bool.not_eq_false] at hover
    exact hall.inOrder_of_jobs hover.2 hresult.1 hresult.2
  · intro hin
    have hterminal : allTerminal (found h w.store runId name) = true :=
      all_eq_true.mpr fun node hnode => (hall.found_over hin hnode).1
    have hfailed : ((found h w.store runId name).any fun node => node.status = .failed) = false :=
      any_eq_false.mpr fun node hnode => by simp [(hall.found_over hin hnode).2]
    rw [hall.found_some hin hn, hterminal, hfailed, hall.jobs_of_inOrder hin]
    rfl

def fannedOut (names : List String) : World Sql.Store where
  store :=
    { Store.empty with
      nodes := names.foldl (fun nodes name => nodes.upsert (.fresh "r" name (some name) .completed))
        (Table.empty.upsert (.fresh "r" "m" none .running)) }
  queue := .empty

theorem two_items_in_order :
    ((checkFanOutCompletion .sqlite "r" "m" 5).run.run (answer sqliteHandle sqlJobs)
      (fannedOut ["m[0]", "n", "m[1]"])).1 = .ok (some (true, ["m[0]", "m[1]"])) :=
  ((fan_in_in_item_order (h := sqliteHandle) (n := 2) sqlJobs (by decide) 5
    ⟨rfl, forall_mem_cons.mpr ⟨⟨_, _, rfl, rfl, rfl⟩, forall_mem_singleton.mpr
      ⟨_, _, rfl, rfl, rfl⟩⟩, by decide +kernel, _, rfl, rfl⟩).mpr
      ⟨by decide +kernel, by decide +kernel, by decide +kernel⟩).trans (by decide +kernel)

theorem items_out_of_order :
    ((checkFanOutCompletion .sqlite "r" "m" 5).run.run (answer sqliteHandle sqlJobs)
      (fannedOut ["m[1]", "m[0]"])).1 = .ok (some (true, ["m[1]", "m[0]"])) ∧
    ((checkFanOutCompletion .sqlite "r" "m" 5).run.run (answer sqliteHandle sqlJobs)
      (fannedOut ["m[0]", "M[0]"])).1 = .ok (some (true, ["m[0]", "M[0]"])) :=
  ⟨rfl, rfl⟩

end FlexiQ.Workflow
