/-
# `Workflow.Outcomes` — is the outcome of a node's job ever lost?

A submission enqueues the job of a node and then writes the node's row; an
expansion enqueues all its children and then writes their rows.  A worker can
finish the job in between.  Its report finds no row, is answered with
`NodeNotFound`, and the row that comes afterwards is pending for good.

Nothing else loses an outcome.  If a report is made when the row is there, and
no node is created twice, the row has the outcome from the time the report is
handled on, through any calls of any other client — or it has been skipped or
compensated since.
-/
import FlexiQ.Workflow.Calls
import FlexiQ.Workflow.Whole

namespace FlexiQ.Workflow

open FlexiQ.Lib FlexiQ.Resilience FlexiQ.Lib.Prog

variable {Q : Type} (ext : Externals) (h : Handle) (jobs : JobQueue Q)

/-! ## What is reported, and what is noted -/

/-- What a row may have once its outcome was noted: the outcome, or what a
skip or a saga made of it. -/
def recorded (succeeded : Bool) : WorkflowNodeStatus → Bool
  | .completed => succeeded
  | .failed => !succeeded
  | .skipped | .compensating | .compensated | .compensationFailed => true
  | .pending | .running | .waitingApproval | .cacheHit => false

/-- The setters that leave a noted outcome one. -/
def NodeWrite.gentle : NodeWrite → Bool
  | .status .skipped | .job _ | .compensationJob .. | .compensated _
  | .compensationFailed .. => true
  | _ => false

/-- The job of the node is over, and ended as told. -/
def Told (w : World Q) (jobId : String) (succeeded : Bool) (k : String × String) : Prop :=
  ∃ st, jobAt ext jobs w.queue jobId = some (k, st) ∧ st.finished = true ∧
    (succeeded = true ↔ st = .complete)

def Rowed (w : World Q) (k : String × String) : Prop := (w.store.nodes.find k).isSome = true
  deriving Decidable

def Bare (w : World Q) (k : String × String) : Prop :=
  Rowed w k ∧ ∀ id st, jobAt ext jobs w.queue id ≠ some (k, st)

def Recorded (w : World Q) (k : String × String) (succeeded : Bool) : Prop :=
  ∃ node, w.store.nodes.find k = some node ∧ recorded succeeded node.status = true

/-! ## The terms -/

/-- A report says how a job ended, to a node that has a row.  The parents of
fan-outs, and the other nodes whose status is written, have no jobs; a node
gets its job and its row once; and a report reads the job through a handle
that sees it. -/
def inTime : Terms Request (Q → Q) Call (World Q) where
  arrive w
    | .mark jobId succeeded .. => ∃ k, Told ext jobs w jobId succeeded k ∧ Rowed w k
    | .expand runId parent .. | .check runId parent _ => Bare ext jobs w (runId, parent)
    | .resolveGate runId nodeName .. => Bare ext jobs w (runId, nodeName)
    | .setNode runId nodeName write => write.gentle = true ∨ Bare ext jobs w (runId, nodeName)
    | .defer .. => False
    | _ => True
  call w
    | .createNodesBatch nodes => ∀ node ∈ nodes, w.store.nodes.find node.key = none
    | .enqueue new id _ => jobs.find w.queue id = none ∧
        ∀ k, routing ext.serde new.metadata = some k →
          w.store.nodes.find k = none ∧ ∀ id' st, jobAt ext jobs w.queue id' ≠ some (k, st)
    | .getJob id => jobs.getJob id h.namespace w.queue = jobs.find w.queue id
    | _ => True
  drift w f := Worked ext jobs w.queue (f w.queue)

/-! ## What every call leaves standing -/

/-- The rows are in scope, and no node has two jobs. -/
structure Tidy (w : World Q) : Prop where
  seen : ∀ k, Rowed w k → h.sees w.store k.1 = true
  one : ∀ {id id' k st st'}, jobAt ext jobs w.queue id = some (k, st) →
    jobAt ext jobs w.queue id' = some (k, st') → id = id'

/-- What a client may count on across the calls of the others. -/
structure Heeds (w w' : World Q) : Prop where
  rows : ∀ {k}, Rowed w k → Rowed w' k
  kept : ∀ {id k st}, jobAt ext jobs w.queue id = some (k, st) →
    ∃ st', jobAt ext jobs w'.queue id = some (k, st') ∧ (st.finished = true → st' = st)
  bare : ∀ {k}, Bare ext jobs w k → Bare ext jobs w' k
  noted : ∀ {id succeeded k}, Told ext jobs w id succeeded k → Recorded w k succeeded →
    Recorded w' k succeeded

def Fit (w : World Q) : Call → Prop
  | .setNode runId nodeName write => write.gentle = true ∨ Bare ext jobs w (runId, nodeName) ∨
      ∃ id succeeded, Told ext jobs w id succeeded (runId, nodeName) ∧
        ∀ b node, recorded succeeded (write.apply b node).status = true
  | .finalizeFanOutParent runId nodeName .. => Bare ext jobs w (runId, nodeName)
  | _ => True

/-- A step that keeps the stores tidy and heeds the other clients. -/
abbrev Mindful (w w' : World Q) : Prop := Tidy ext h jobs w' ∧ Heeds ext jobs w w'

section Standing

variable {ext h jobs} {w w₁ w' : World Q}

theorem Heeds.refl (w : World Q) : Heeds ext jobs w w where
  rows hrow := hrow
  kept {_ _ st} hjob := ⟨st, hjob, fun _ => rfl⟩
  bare hbare := hbare
  noted _ hrec := hrec

theorem Told.heeds {id : String} {succeeded : Bool} {k : String × String}
    (htold : Told ext jobs w id succeeded k) (hw : Heeds ext jobs w w') :
    Told ext jobs w' id succeeded k := by
  obtain ⟨st, hjob, hover, htruth⟩ := htold
  obtain ⟨st', hjob', hsame⟩ := hw.kept hjob
  rw [hsame hover] at hjob'
  exact ⟨st, hjob', hover, htruth⟩

theorem Heeds.trans (hw : Heeds ext jobs w w₁) (hw' : Heeds ext jobs w₁ w') :
    Heeds ext jobs w w' where
  rows hrow := hw'.rows (hw.rows hrow)
  kept {_ _ st} hjob := by
    obtain ⟨st₁, hjob₁, hsame₁⟩ := hw.kept hjob
    obtain ⟨st', hjob', hsame'⟩ := hw'.kept hjob₁
    refine ⟨st', hjob', fun hover => ?_⟩
    obtain rfl := hsame₁ hover
    exact hsame' hover
  bare hbare := hw'.bare (hw.bare hbare)
  noted htold hrec := hw'.noted (htold.heeds hw) (hw.noted htold hrec)

theorem recorded_gentle {write : NodeWrite} (hgentle : write.gentle = true) (b : Backend)
    (node : WorkflowNode) {succeeded : Bool} (hrec : recorded succeeded node.status = true) :
    recorded succeeded (write.apply b node).status = true := by
  cases write with
  | status written => cases written <;> first | rfl | cases hgentle
  | job | compensationJob | compensated | compensationFailed => first | exact hrec | rfl
  | running | completed | failed | fanOutCount => cases hgentle

theorem Told.unique (hw : Tidy ext h jobs w) {id id' : String} {b b' : Bool}
    {k : String × String} (htold : Told ext jobs w id b k) (htold' : Told ext jobs w id' b' k) :
    b = b' := by
  obtain ⟨st, hjob, -, htruth⟩ := htold
  obtain ⟨st', hjob', -, htruth'⟩ := htold'
  obtain rfl := hw.one hjob hjob'
  rw [hjob] at hjob'
  cases hjob'
  exact Bool.eq_iff_iff.mpr (htruth.trans htruth'.symm)

/-! ### The calls -/

theorem heeds_of_same (hw : Tidy ext h jobs w) (hnodes : w'.store.nodes = w.store.nodes)
    (hqueue : w'.queue = w.queue)
    (hsees : ∀ r, h.sees w.store r = true → h.sees w'.store r = true) :
    Mindful ext h jobs w w' := by
  have hrow : ∀ k, Rowed w' k ↔ Rowed w k := fun k => by unfold Rowed; rw [hnodes]
  refine ⟨⟨fun k hk => hsees _ (hw.seen k ((hrow k).mp hk)), ?_⟩, ?_⟩
  · rw [hqueue]
    exact hw.one
  · refine ⟨fun hk => (hrow _).mpr hk, fun {_ _ st} hjob => ⟨st, ?_, fun _ => rfl⟩,
      fun {k} hbare => ⟨(hrow _).mpr hbare.1, ?_⟩, fun _ hrec => ?_⟩
    · rw [hqueue]
      exact hjob
    · rw [hqueue]
      exact hbare.2
    · obtain ⟨node, hnode, hstatus⟩ := hrec
      exact ⟨node, by rw [hnodes]; exact hnode, hstatus⟩

theorem heeds_of_worked (hw : Tidy ext h jobs w) {q' : Q} (hq : Worked ext jobs w.queue q') :
    Mindful ext h jobs w { w with queue := q' } := by
  refine ⟨⟨hw.seen, fun hid hid' => ?_⟩, fun hk => hk, hq.kept, fun hbare => ⟨hbare.1, ?_⟩,
    fun _ hrec => hrec⟩
  · obtain ⟨st, hold⟩ := hq.old hid
    obtain ⟨st', hold'⟩ := hq.old hid'
    exact hw.one hold hold'
  · intro id st hid
    obtain ⟨st', hold⟩ := hq.old hid
    exact hbare.2 id st' hold

theorem heeds_enqueue (hjobs : jobs.Lawful) (hw : Tidy ext h jobs w) {new : NewJob} {id : String}
    {now : Int} (hcall : (inTime ext h jobs).call w (.enqueue new id now)) :
    Mindful ext h jobs w { w with queue := (jobs.enqueue new id now w.queue).2 } := by
  obtain ⟨hfresh, hnode⟩ := hcall
  cases hrun : jobs.enqueue new id now w.queue with
  | mk answer q' =>
  cases answer with
  | error =>
    have hsame := hjobs.refused hrun
    have hat : ∀ id', jobAt ext jobs q' id' = jobAt ext jobs w.queue id' := fun id' => by
      unfold jobAt
      rw [hsame]
    refine heeds_of_worked hw ⟨fun {id' k st} hjob => ⟨st, ?_, fun _ => rfl⟩,
      fun {id' k st} hjob => ⟨st, ?_⟩⟩
    · rw [hat]
      exact hjob
    · rw [← hat]
      exact hjob
  | ok job =>
    obtain ⟨-, ⟨job', hjob', hmeta⟩, hothers⟩ := hjobs.enqueued hrun hfresh
    have hold : ∀ {id' x}, jobAt ext jobs w.queue id' = some x →
        jobAt ext jobs q' id' = some x := by
      intro id' x hjob
      have hne : id' ≠ id := by
        rintro rfl
        unfold jobAt at hjob
        rw [hfresh] at hjob
        cases hjob
      unfold jobAt
      rw [hothers id' hne]
      exact hjob
    -- A job that was not there is the new one, of a node without a row or a job.
    have hnew : ∀ {id' k st}, jobAt ext jobs q' id' = some (k, st) →
        jobAt ext jobs w.queue id' = some (k, st) ∨
          id' = id ∧ w.store.nodes.find k = none ∧
            ∀ id'' st', jobAt ext jobs w.queue id'' ≠ some (k, st') := by
      intro id' k st hjob
      by_cases heq : id' = id
      · subst heq
        obtain ⟨job'', hfind, hroute, -⟩ := jobAt_eq_some.mp hjob
        rw [hjob'] at hfind
        cases hfind
        rw [hmeta] at hroute
        exact Or.inr ⟨rfl, hnode k hroute⟩
      · left
        unfold jobAt at hjob ⊢
        rw [hothers id' heq] at hjob
        exact hjob
    refine ⟨⟨hw.seen, fun {id₁ id₂ k st₁ st₂} h₁ h₂ => ?_⟩, fun hk => hk,
      fun {_ _ st} hjob => ⟨st, hold hjob, fun _ => rfl⟩, fun {k} hbare => ⟨hbare.1, ?_⟩,
      fun _ hrec => hrec⟩
    · rcases hnew h₁ with h₁ | ⟨rfl, -, hnone⟩
      · rcases hnew h₂ with h₂ | ⟨rfl, -, hnone⟩
        · exact hw.one h₁ h₂
        · exact absurd h₁ (hnone _ _)
      · rcases hnew h₂ with h₂ | ⟨rfl, -, -⟩
        · exact absurd h₂ (hnone _ _)
        · rfl
    · intro id' st hjob
      rcases hnew hjob with hjob | ⟨-, hnone, -⟩
      · exact hbare.2 id' st hjob
      · have hrow := hbare.1
        unfold Rowed at hrow
        rw [hnone] at hrow
        cases hrow

section

variable (hw : Tidy ext h jobs w)
include hw

/-- A call that writes rows, leaves those there are in place, and fits what
it changes. -/
theorem heeds_nodes {s' : Store} (hframe : s' = { w.store with nodes := s'.nodes })
    (hrows : ∀ k, (s'.nodes.find k).isSome = true → h.sees w.store k.1 = true)
    (hkept : ∀ k, Rowed w k → (s'.nodes.find k).isSome = true)
    (hnoted : ∀ {id succeeded k}, Told ext jobs w id succeeded k → Recorded w k succeeded →
      Recorded { w with store := s' } k succeeded) :
    Mindful ext h jobs w { w with store := s' } := by
  have hruns : s'.runs = w.store.runs := by rw [hframe]
  refine ⟨⟨fun k hk => ?_, hw.one⟩, hkept _, fun {_ _ st} hjob => ⟨st, hjob, fun _ => rfl⟩,
    fun {k} hbare => ⟨hkept k hbare.1, hbare.2⟩, hnoted⟩
  have hsees := hrows k hk
  unfold Handle.sees at hsees ⊢
  rw [hruns]
  exact hsees

theorem heeds_batch {nodes : List WorkflowNode}
    (hfresh : ∀ node ∈ nodes, w.store.nodes.find node.key = none) :
    Mindful ext h jobs w { w with store := (createWorkflowNodesBatch h nodes w.store).2 } := by
  have hold : ∀ k, Rowed w k →
      (createWorkflowNodesBatch h nodes w.store).2.nodes.find k = w.store.nodes.find k := by
    intro k hk
    rcases createWorkflowNodesBatch_find (h := h) nodes w.store k with hsame | ⟨hmem, -⟩
    · exact hsame
    · obtain ⟨node, hnode, rfl⟩ := List.mem_map.mp hmem
      unfold Rowed at hk
      rw [hfresh node hnode] at hk
      cases hk
  refine heeds_nodes hw (createWorkflowNodesBatch_frame nodes w.store) (fun k hk => ?_)
    (fun k hk => ?_) fun {_ _ k} _ hrec => ?_
  · rcases createWorkflowNodesBatch_find (h := h) nodes w.store k with hsame | ⟨-, hsees⟩
    · rw [hsame] at hk
      exact hw.seen k hk
    · exact hsees
  · rw [hold k hk]
    exact hk
  · obtain ⟨node, hnode, hstatus⟩ := hrec
    refine ⟨node, ?_, hstatus⟩
    rw [hold k (by unfold Rowed; rw [hnode]; rfl)]
    exact hnode

theorem heeds_setNode {runId nodeName : String} {write : NodeWrite}
    (hfit : Fit ext jobs w (.setNode runId nodeName write)) :
    Mindful ext h jobs w { w with store := (setNode h runId nodeName write w.store).2 } := by
  cases hfound : getWorkflowNode h runId nodeName w.store with
  | none =>
    rw [setNode_none hfound]
    exact ⟨hw, .refl w⟩
  | some node =>
    obtain ⟨-, hfind⟩ := setNode_find write hfound
    obtain ⟨hsees, hnode⟩ := getWorkflowNode_eq_some.mp hfound
    refine heeds_nodes hw (setNode_frame runId nodeName write w.store) (fun k hk => ?_)
      (fun k hk => ?_) fun {id succeeded k} htold hrec => ?_
    · rw [hfind] at hk
      split at hk
      · next heq =>
        rw [heq]
        exact hsees
      · exact hw.seen k hk
    · rw [hfind]
      split
      · rfl
      · exact hk
    · obtain ⟨old, hold, hstatus⟩ := hrec
      by_cases heq : k = (runId, nodeName)
      · subst heq
        rw [hnode] at hold
        cases hold
        refine ⟨write.apply h.backend node, by rw [hfind, if_pos rfl], ?_⟩
        rcases hfit with hgentle | hbare | ⟨id', b, htold', hwrite⟩
        · exact recorded_gentle hgentle h.backend node hstatus
        · obtain ⟨st, hjob, -⟩ := htold
          exact absurd hjob (hbare.2 id st)
        · rw [htold.unique hw htold']
          exact hwrite h.backend node
      · exact ⟨old, by rw [hfind, if_neg heq]; exact hold, hstatus⟩

theorem heeds_finalize {runId nodeName : String} (succeeded : Bool)
    (error : Option String) (completedAt : Int) (hbare : Bare ext jobs w (runId, nodeName)) :
    Mindful ext h jobs w { w with
      store := (finalizeFanOutParent h runId nodeName succeeded error completedAt w.store).2 } := by
  have hfind :=
    finalizeFanOutParent_find (h := h) runId nodeName succeeded error completedAt w.store
  refine heeds_nodes hw (finalizeFanOutParent_frame runId nodeName succeeded error completedAt _)
    (fun k hk => ?_) (fun k hk => ?_) fun {id _ k} htold hrec => ?_
  · rcases hfind k with hsame | ⟨rfl, node, hnode, -⟩
    · rw [hsame] at hk
      exact hw.seen k hk
    · exact hw.seen _ hbare.1
  · rcases hfind k with hsame | ⟨-, node, -, -, hafter⟩
    · rw [hsame]
      exact hk
    · rw [hafter]
      rfl
  · obtain ⟨old, hold, hstatus⟩ := hrec
    rcases hfind k with hsame | ⟨rfl, -⟩
    · exact ⟨old, hsame.trans hold, hstatus⟩
    · obtain ⟨st, hjob, -⟩ := htold
      exact absurd hjob (hbare.2 id st)

end

theorem heeds_call (hjobs : jobs.Lawful) (hw : Tidy ext h jobs w) {c : Call}
    (hcall : (inTime ext h jobs).call w c) (hfit : Fit ext jobs w c) :
    Mindful ext h jobs w (answer h jobs c w).2 := by
  have hseen : ∀ {c : Call}, (∀ run, c ≠ .createRun run) → ∀ r, h.sees w.store r = true →
      h.sees (answer h jobs c w).2.store r = true := by
    intro c hc r hr
    rw [sees_congr (frame_answer hc w r)]
    exact hr
  cases c with
  | createNodesBatch => exact heeds_batch hw hcall
  | setNode => exact heeds_setNode hw hfit
  | finalizeFanOutParent runId nodeName succeeded error completedAt =>
    exact heeds_finalize hw succeeded error completedAt hfit
  | enqueue => exact heeds_enqueue hjobs hw hcall
  | cancelJob id now =>
    exact heeds_of_worked hw (works_of_steady (hjobs.cancelled id h.namespace now w.queue))
  | createRun run =>
    exact heeds_of_same hw (answer_nodes rfl w) rfl fun r hr => createWorkflowRun_sees run hr
  | _ => exact heeds_of_same hw (answer_nodes rfl w) rfl (hseen fun _ hc => by cases hc)

end Standing

/-! ## The covenant -/

def heedful : Covenant Request Call Response (World Q) Request where
  start := id
  retag t _ _ := t
  inv := Tidy ext h jobs
  stands w request := (inTime ext h jobs).arrive w request
  apart _ _ := True
  rely _ := Heeds ext jobs
  asks _ := Fit ext jobs
  post
    | .mark jobId succeeded .., _, w =>
      ∃ k, Told ext jobs w jobId succeeded k ∧ Recorded w k succeeded
    | _, _, _ => True

/-- The calls that write a status only gently, or only the status of the one
node. -/
def Within (only : Option (String × String)) : Call → Prop
  | .setNode runId nodeName write => write.gentle = true ∨ only = some (runId, nodeName)
  | .finalizeFanOutParent runId nodeName .. => only = some (runId, nodeName)
  | _ => True

theorem within_reads (only : Option (String × String)) (c : Call) (hc : c.reads = true) :
    Within only c := by
  cases c <;> trivial

section Programs

variable {ext h jobs} {w : World Q} {request : Request}

theorem stands_heeds {w' : World Q} (hstands : (inTime ext h jobs).arrive w request)
    (hw : Heeds ext jobs w w') : (inTime ext h jobs).arrive w' request := by
  cases request with
  | mark =>
    obtain ⟨k, htold, hrow⟩ := hstands
    exact ⟨k, htold.heeds hw, hw.rows hrow⟩
  | expand | check | resolveGate => exact hw.bare hstands
  | setNode => exact Or.imp_right hw.bare hstands
  | _ => exact hstands

/-- A program that writes within bounds keeps whatever the others heed, if
that says that the node in question has no job. -/
theorem keeps_within {α : Type} {prog : Prog Call Call.Answer α} {only : Option (String × String)}
    (hjobs : jobs.Lawful) (hprog : prog.Sat (Within only) fun _ => True) {J : World Q → Prop}
    (hheeds : ∀ {w w'}, J w → Heeds ext jobs w w' → J w')
    (hbare : ∀ {w k}, only = some k → J w → Bare ext jobs w k) (hw : Tidy ext h jobs w)
    (hJ : J w) :
    prog.Keeps ((heedful ext h jobs).exec (service ext h jobs))
      ((heedful ext h jobs).guard (inTime ext h jobs))
      (fun _ x => x.2 = request ∧ Tidy ext h jobs x.1 ∧ J x.1) (w, request) := by
  refine (Sat.keeps (J := fun x => x.2 = request ∧ Tidy ext h jobs x.1 ∧ J x.1) hprog ?_ ?_
    ⟨rfl, hw, hJ⟩).mono fun _ _ hpost => hpost.2
  · rintro c ⟨w', t⟩ hc ⟨ht, hw', hJ'⟩ hcall
    have hfit : Fit ext jobs w' c := by
      cases c with
      | setNode =>
        exact Or.imp_right (fun hk => Or.inl (hbare hk hJ')) hc
      | finalizeFanOutParent => exact hbare hc hJ'
      | _ => trivial
    obtain ⟨htidy, hheed⟩ := heeds_call hjobs hw' hcall hfit
    exact ⟨hfit, ht, htidy, hheeds hJ' hheed⟩
  · rintro ⟨w₁, t₁⟩ ⟨w₂, t₂⟩ ⟨ht, -, hJ₁⟩ ⟨hsame, hrely, hinv, -⟩
    exact ⟨hsame.trans ht, hinv, hheeds hJ₁ hrely⟩

theorem finalizeIfDone_within (b : Backend) (runId : String) (succeeded : Bool)
    (error : Option String) (now : Int) :
    Only (Within none) (finalizeIfDone b runId succeeded error now) := by
  refine .bind (getWorkflowNodes_only (within_reads none) b runId) fun nodes => ?_
  split
  · exact .bind (only_ask trivial) fun _ => .bind (only_ask trivial) fun _ => .pure _
  · exact .pure _

theorem cancelLoop_within (b : Backend) (now : Int) :
    ∀ (rounds : Nat) (stack visited : List String),
    Only (Within none) (cancelLoop b now rounds stack visited)
  | 0, _, _ | _ + 1, [], _ => .pure _
  | rounds + 1, runId :: stack, visited => by
    unfold cancelLoop
    split
    · exact cancelLoop_within b now rounds stack visited
    · refine .bind (getWorkflowNodes_only (within_reads none) b runId) fun nodes => ?_
      refine .bind (cascadeSkipPendingNodes_only (fun _ _ => trivial) fun _ _ _ =>
        Or.inl rfl) fun _ => ?_
      refine .bind (only_ask trivial) fun _ => .bind (only_ask trivial) fun _ => ?_
      exact .bind (only_tried (only_ask trivial)) fun children =>
        cancelLoop_within b now rounds _ _

theorem submitNodes_within {req : SubmitStaticWorkflowRequest} {minted : Minted} :
    ∀ (ordered : List TopologicalNode) (jobIds : List (String × String)),
      Only (Within none) (submitNodes ext req minted ordered jobIds)
  | [], _ => .pure _
  | topo :: rest, jobIds => by
    refine .bind ?_ fun jobIds' => submitNodes_within rest jobIds'
    unfold submitNode
    split
    · exact .bind (only_store (only_ask trivial)) fun _ => .pure _
    · split
      · exact .bind (only_store (only_ask trivial)) fun _ => .pure _
      · refine .bind (only_of _) fun _ => .bind (only_of _) fun _ => .bind (only_of _) fun _ => ?_
        exact .bind (only_store (only_ask trivial)) fun _ =>
          .bind (only_store (only_ask trivial)) fun _ => .pure _

theorem submitWorkflow_within (req : SubmitStaticWorkflowRequest) (minted : Minted) :
    Only (Within none) (submitWorkflow ext req minted) := by
  refine .bind (only_store (only_of _)) fun ordered => .bind (only_of _) fun _ => ?_
  refine .bind (definitionFor_only (within_reads none) req minted fun _ => trivial) fun _ => ?_
  refine .bind (only_store (only_ask trivial)) fun _ => ?_
  refine .bind (only_tried (submitNodes_within ordered [])) fun outcome => ?_
  cases outcome with
  | error =>
    exact .bind (only_tried (only_ask trivial)) fun _ =>
      .bind (only_tried (only_ask trivial)) fun _ => .throw _
  | ok => exact .bind (only_store (only_ask trivial)) fun _ => .pure _

theorem markRest_within (b : Backend) (runId nodeName : String) (succeeded : Bool)
    (error : Option String) (skipCascade : Bool) (now : Int) :
    Only (Within none) (do
      failFast b runId succeeded skipCascade now
      let state ← finalizeIfDone b runId succeeded error now
      return MarkOutcome.settled runId nodeName state : Act QueueError MarkOutcome) := by
  refine .bind (failFast_only (within_reads none) b succeeded skipCascade now
    (fun _ _ => trivial) fun _ => Or.inl rfl) fun _ => ?_
  exact .bind (finalizeIfDone_within b runId succeeded error now) fun _ => .pure _

theorem recorded_outcome (succeeded : Bool) (error resultHash : Option String) (now : Int)
    (b : Backend) (node : WorkflowNode) :
    recorded succeeded ((outcomeWrite succeeded error resultHash now).apply b node).status =
      true := by
  cases succeeded <;> rfl

/-- A report finds the job, sets the row to its outcome, and the row keeps
it. -/
theorem mark_delivers (hjobs : jobs.Lawful) {jobId : String} {succeeded : Bool}
    (error : Option String) (skipCascade : Bool) (resultHash : Option String) (now : Int)
    {k : String × String} (htold : Told ext jobs w jobId succeeded k) (hrow : Rowed w k) :
    (markWorkflowNodeResult ext h.backend jobId succeeded error skipCascade resultHash
      now).run.Keeps ((heedful ext h jobs).exec (service ext h jobs))
      ((heedful ext h jobs).guard (inTime ext h jobs))
      (fun _ x => x.2 = request ∧ Tidy ext h jobs x.1 ∧
        Told ext jobs x.1 jobId succeeded k ∧ Recorded x.1 k succeeded) (w, request) := by
  obtain ⟨runId, nodeName⟩ := k
  refine Keeps.tryBind ?_
  rintro ⟨w₁, t₁⟩ ⟨ht₁, hheeds₁, hw₁, -⟩ hread
  refine ⟨trivial, ?_⟩
  have htold₁ := htold.heeds hheeds₁
  obtain ⟨st, hjob, -, -⟩ := htold₁
  obtain ⟨job, hfind, hroute, -⟩ := jobAt_eq_some.mp hjob
  show onOk _ _ (.ok (jobs.getJob jobId h.namespace w₁.queue)) (w₁, t₁)
  rw [show jobs.getJob jobId h.namespace w₁.queue = some job from Eq.trans hread hfind]
  dsimp only [onOk]
  rw [hroute]
  refine Keeps.tryBind ?_
  rintro ⟨w₂, t₂⟩ ⟨ht₂, hheeds₂, hw₂, -⟩ -
  have hheeds := hheeds₁.trans hheeds₂
  have htold₂ := htold.heeds hheeds
  have hfit : Fit ext jobs w₂
      (.setNode runId nodeName (outcomeWrite succeeded error resultHash now)) :=
    Or.inr (Or.inr ⟨jobId, succeeded, htold₂, recorded_outcome succeeded error resultHash now⟩)
  obtain ⟨hw₃, hheeds₃⟩ := heeds_call hjobs hw₂ (c := .setNode runId nodeName _) trivial hfit
  refine ⟨hfit, ?_⟩
  -- The row is there, and in scope.
  obtain ⟨node, hnode⟩ := Option.isSome_iff_exists.mp (hheeds.rows hrow)
  obtain ⟨hok, hset⟩ := setNode_find (outcomeWrite succeeded error resultHash now)
    (getWorkflowNode_eq_some.mpr ⟨hw₂.seen _ (hheeds.rows hrow), hnode⟩)
  have hrec : Recorded (answer h jobs
      (.setNode runId nodeName (outcomeWrite succeeded error resultHash now)) w₂).2
      (runId, nodeName) succeeded :=
    ⟨_, (hset _).trans (if_pos rfl), recorded_outcome succeeded error resultHash now _ node⟩
  show onOk _ _ (setNode h runId nodeName _ w₂.store).1 _
  rw [hok]
  have ht : t₂ = request := Eq.trans ht₂ ht₁
  subst ht
  exact keeps_within hjobs
    (markRest_within h.backend runId nodeName succeeded error skipCascade now)
    (J := fun w => Told ext jobs w jobId succeeded (runId, nodeName) ∧
      Recorded w (runId, nodeName) succeeded)
    (fun hJ hheed => ⟨hJ.1.heeds hheed, hheed.noted hJ.1 hJ.2⟩) (fun hnone => nomatch hnone) hw₃
    ⟨htold₂.heeds hheeds₃, hrec⟩

end Programs

/-! ## The covenant is held -/

theorem heedful_held (hjobs : jobs.Lawful) :
    (heedful ext h jobs).Held (service ext h jobs) (inTime ext h jobs) where
  refl _ w := .refl w
  trans h₁ h₂ := h₁.trans h₂
  symm _ := trivial
  fresh _ _ := trivial
  kept hstands hrely := stands_heeds (h := h) hstands hrely
  settled {t a w w'} hpost hrely _ := by
    cases t with
    | mark =>
      obtain ⟨k, htold, hrec⟩ := hpost
      exact ⟨k, htold.heeds hrely, hrely.noted htold hrec⟩
    | _ => trivial
  arrive {w request prog w'} hw hmet harrive := by
    cases harrive
    refine ⟨hw, hmet, fun _ => .refl w, ?_⟩
    -- A request that is no report owes nothing at the end.
    have hwithin : ∀ {ε α : Type} {x : Act ε α} (only : Option (String × String))
        (f : Except ε α → Response), (∀ a w', (heedful ext h jobs).post request a w') →
        Only (Within only) x → (∀ k, only = some k → Bare ext jobs w k) →
        (heedful ext h jobs).Delivers (service ext h jobs) (inTime ext h jobs) (x.answering f) w
          request := by
      intro ε α x only f hpost honly hbare
      refine Keeps.bind ((keeps_within hjobs honly
        (J := fun w' => ∀ k, only = some k → Bare ext jobs w' k)
        (fun hJ hheed k hk => hheed.bare (hJ k hk)) (fun hk hJ => hJ _ hk) hw hbare).mono ?_)
      rintro r ⟨w', t⟩ ⟨rfl, -⟩
      exact hpost _ _
    cases request with
    | mark jobId succeeded error skipCascade resultHash now =>
      obtain ⟨k, htold, hrow⟩ := hmet
      refine Keeps.bind ((mark_delivers hjobs error skipCascade resultHash now htold
        hrow).mono ?_)
      rintro r ⟨w', t⟩ ⟨rfl, -, htold', hrec⟩
      exact ⟨k, htold', hrec⟩
    | submit req minted =>
      exact hwithin _ _ (fun _ _ => trivial) (submitWorkflow_within req minted) nofun
    | cancel runId now rounds =>
      exact hwithin _ _ (fun _ _ => trivial) (cancelLoop_within h.backend now rounds _ _) nofun
    | finalize =>
      exact hwithin _ _ (fun _ _ => trivial) (finalizeIfDone_within _ _ _ _ _) nofun
    | completedWithFailures | compensating =>
      exact hwithin none _ (fun _ _ => trivial) (only_ask trivial) nofun
    | compensated | compensationFailed =>
      exact hwithin none _ (fun _ _ => trivial)
        (.bind (only_ask trivial) fun _ => only_ask trivial) nofun
    | skipNode runId nodeName now =>
      exact hwithin _ _ (fun _ _ => trivial) (skipWorkflowNode_only (within_reads none) now
        (fun _ _ => trivial) (Or.inl rfl)) nofun
    | setNode =>
      rcases hmet with hgentle | hbare
      · exact hwithin none _ (fun _ _ => trivial) (only_ask (Or.inl hgentle)) nofun
      · exact hwithin _ _ (fun _ _ => trivial) (only_ask (Or.inr rfl))
          fun k hk => Option.some.inj hk ▸ hbare
    | resolveGate =>
      exact hwithin _ _ (fun _ _ => trivial) (only_ask (Or.inr rfl))
        fun k hk => Option.some.inj hk ▸ hmet
    | expand runId parent childNames childPayloads place jobId now =>
      exact hwithin _ _ (fun _ _ => trivial) (expandFanOut_only (within_reads _) childNames
        childPayloads place jobId now (fun _ _ _ => trivial) (fun _ => trivial)
        fun _ => Or.inr rfl) fun k hk => Option.some.inj hk ▸ hmet
    | check runId parent now =>
      exact hwithin _ _ (fun _ _ => trivial) (checkFanOutCompletion_only (within_reads _) h.backend
        now fun _ _ _ => rfl) fun k hk => Option.some.inj hk ▸ hmet
    | defer => exact absurd hmet id
  call {w c t} hw hcall hstands hfit := by
    obtain ⟨hw', hheeds⟩ := heeds_call hjobs hw hcall hfit
    exact ⟨hw', stands_heeds (h := h) hstands hheeds, fun _ _ _ => ⟨hheeds, trivial⟩⟩
  drift {w f} hw hworked := by
    obtain ⟨hw', hheeds⟩ := heeds_of_worked hw hworked
    exact ⟨hw', fun _ => hheeds⟩

/-- **No outcome is lost that finds its row**: it is on the row, or the node has
been skipped or compensated since. -/
theorem reported_outcome_recorded (hjobs : jobs.Lawful) {w : World Q} (hw : Tidy ext h jobs w)
    {p p₁ p' : Pool Call Call.Answer Response (World Q)}
    (hp : Reaches (Pool.next (service ext h jobs)) (inTime ext h jobs).Met ⟨w, []⟩ p)
    {jobId : String} {succeeded : Bool} {error : Option String} {skipCascade : Bool}
    {resultHash : Option String} {now : Int}
    (hmet : (inTime ext h jobs).Met p
      (.arrive (.mark jobId succeeded error skipCascade resultHash now)))
    (harrive : p.next (service ext h jobs)
      (.arrive (.mark jobId succeeded error skipCascade resultHash now)) = some p₁)
    (hp' : Reaches (Pool.next (service ext h jobs)) (inTime ext h jobs).Met p₁ p')
    {response : Response} (hhandled : p'.result p.clients.length = some response) :
    ∃ k, Told ext jobs p'.world jobId succeeded k ∧ Recorded p'.world k succeeded := by
  have hheld := heedful_held ext h jobs hjobs
  obtain ⟨tags, htagged⟩ := hheld.sound (Pool.tagged_start hw) hp
  exact hheld.delivered (fun _ _ _ => rfl) htagged hmet harrive hp' hhandled

/-! ## One node, in time and too early -/

section Small

theorem jobless_iff (q : Sql.Store) (k : String × String) :
    ((q.jobs.rows ++ q.archived.rows).all fun row =>
        (jobAt ext sqlJobs q row.id).map Prod.fst ≠ some k) = true ↔
      ∀ id st, jobAt ext sqlJobs q id ≠ some (k, st) := by
  simp only [List.all_eq_true, decide_eq_true_eq]
  constructor
  · intro hall id st hjob
    obtain ⟨job, hfind, -, -⟩ := jobAt_eq_some.mp hjob
    rw [sql_find] at hfind
    have hrow : ∃ row ∈ q.jobs.rows ++ q.archived.rows, row.id = id := by
      cases hlive : q.jobs.find id with
      | some row =>
        exact ⟨row, List.mem_append_left _ (Table.find_eq_some.mp hlive).1, Table.key_of_find hlive⟩
      | none =>
        rw [hlive] at hfind
        exact ⟨job, List.mem_append_right _ (Table.find_eq_some.mp hfind).1,
          Table.key_of_find hfind⟩
    obtain ⟨row, hmem, rfl⟩ := hrow
    exact hall row hmem (by rw [hjob]; rfl)
  · intro hnone row _ hmap
    obtain ⟨⟨k', st⟩, hjob, rfl⟩ := Option.map_eq_some_iff.mp hmap
    exact hnone row.id st hjob

instance (q : Sql.Store) (k : String × String) :
    Decidable (∀ id st, jobAt ext sqlJobs q id ≠ some (k, st)) :=
  decidable_of_iff _ (jobless_iff ext q k)

instance (w : World Sql.Store) (k : String × String) : Decidable (Bare ext sqlJobs w k) :=
  inferInstanceAs (Decidable (_ ∧ _))

instance (w : World Q) (jobId : String) (succeeded : Bool) (k : String × String) :
    Decidable (Told ext jobs w jobId succeeded k) :=
  decidable_of_iff (∃ k' st, jobAt ext jobs w.queue jobId = some (k', st) ∧
      k' = k ∧ st.finished = true ∧ (succeeded = true ↔ st = .complete)) (by
    unfold Told
    rw [exists_comm]
    simp only [and_left_comm, exists_eq_left])

instance (w : World Q) (jobId : String) (succeeded : Bool) :
    Decidable (∃ k, Told ext jobs w jobId succeeded k ∧ Rowed w k) :=
  decidable_of_iff (∃ k st, jobAt ext jobs w.queue jobId = some (k, st) ∧
      (st.finished = true ∧ (succeeded = true ↔ st = .complete)) ∧ Rowed w k)
    (exists_congr fun k => by simp only [Told, ← exists_and_right, and_assoc])

instance (w : World Sql.Store) (request : Request) :
    Decidable ((inTime ext h sqlJobs).arrive w request) := by
  apply @Request.casesOn _ request <;> intros <;> unfold inTime <;> infer_instance
instance (w : World Sql.Store) (c : Call) : Decidable ((inTime ext h sqlJobs).call w c) := by
  apply @Call.casesOn _ c <;> intros <;> unfold inTime <;> infer_instance

theorem tidy_empty : Tidy (smallExternals ["a"]) sqliteHandle sqlJobs emptyWorld :=
  ⟨fun _ hrow => (by cases hrow), fun hjob => (by cases hjob)⟩

/-- A submission, a worker and a report, one after the other: the row has the
outcome. -/
theorem reported_node_completed : ∃ p p₁ p',
    Reaches (Pool.next (service (smallExternals ["a"]) sqliteHandle sqlJobs))
      (inTime (smallExternals ["a"]) sqliteHandle sqlJobs).Met ⟨emptyWorld, []⟩ p ∧
    p.next (service (smallExternals ["a"]) sqliteHandle sqlJobs)
      (.arrive (.mark "j0" true none false none 2)) = some p₁ ∧
    Reaches (Pool.next (service (smallExternals ["a"]) sqliteHandle sqlJobs))
      (inTime (smallExternals ["a"]) sqliteHandle sqlJobs).Met p₁ p' ∧
    ∃ k, Told (smallExternals ["a"]) sqlJobs p'.world "j0" true k ∧ Recorded p'.world k true := by
  obtain ⟨p, hp, hone, hmet, hlater⟩ : ∃ p,
      Reaches (workersNext (smallExternals ["a"]) sqliteHandle)
        (workers (inTime (smallExternals ["a"]) sqliteHandle sqlJobs)).Met ⟨emptyWorld, []⟩ p ∧
      p.clients.length = 1 ∧
      (inTime (smallExternals ["a"]) sqliteHandle sqlJobs).arrive p.world
        (.mark "j0" true none false none 2) ∧
      ((p.next (service (smallExternals ["a"]) sqliteHandle sqlJobs)
        (.arrive (.mark "j0" true none false none 2))).any fun p₁ =>
          (exec (workersNext (smallExternals ["a"]) sqliteHandle)
            (workers (inTime (smallExternals ["a"]) sqliteHandle sqlJobs)).Met p₁
            (List.replicate 5 (.step 1))).any fun p' => (p'.result 1).isSome) = true :=
    exists_reached
      ([.arrive (.submit (smallRequest ["a"]) smallMinted)] ++ List.replicate 6 (.step 0) ++
        [.drift ("j0", 1)])
  obtain ⟨p₁, harrive, hlater⟩ := (Option.any_eq_true _ _).mp hlater
  obtain ⟨p', hp', hhandled⟩ := (Option.any_eq_true _ _).mp hlater
  obtain ⟨response, hresponse⟩ := Option.isSome_iff_exists.mp hhandled
  have hp := reaches_of_workers (fun _ _ hworked => hworked) hp
  have hp' := reaches_of_workers (fun _ _ hworked => hworked) (reaches_of_exec hp')
  refine ⟨p, p₁, p', hp, harrive, hp', ?_⟩
  exact reported_outcome_recorded _ _ _ sqlJobs_lawful tidy_empty hp hmet harrive hp'
    (by rw [hone]; exact hresponse)

/-- The worker is done before the submission has written the row. -/
theorem early_outcome_lost : ∃ p,
    Reaches (Pool.next (service (smallExternals ["a"]) sqliteHandle sqlJobs)) Terms.any.Met
      ⟨emptyWorld, []⟩ p ∧
    p.Quiet ∧ p.result 0 = some (.submitted (.ok ⟨"r", "d"⟩)) ∧
    p.result 1 = some (.marked (.error (nodeNotFound "r" "a"))) ∧
    Told (smallExternals ["a"]) sqlJobs p.world "j0" true ("r", "a") ∧
    (p.world.store.nodes.find ("r", "a")).map WorkflowNode.status = some .pending :=
  exists_reached
    ([.arrive (.submit (smallRequest ["a"]) smallMinted)] ++ List.replicate 4 (.step 0) ++
      [.drift (worked "j0" 1), .arrive (.mark "j0" true none false none 2), .step 1, .step 1,
        .step 0, .step 0])

end Small

end FlexiQ.Workflow
