/-
# `Workflow.Calls` — which calls a program can make

For each entry point, the calls it can issue whatever the answers are, as a
rule for any predicate `P` on calls.  A property of every call of a program is
shown by looking at the calls and not at the program again.
-/
import FlexiQ.Workflow.Effects

namespace FlexiQ.Workflow

open FlexiQ.Lib FlexiQ.Resilience

variable {P : Call → Prop} {ext : Externals} {h : Handle}

section Reading

variable (hreads : ∀ c : Call, c.reads = true → P c)

include hreads

theorem failFast_only (b : Backend) {runId : String} (succeeded skipCascade : Bool) (now : Int)
    (hcancel : ∀ id now, P (.cancelJob id now))
    (hskip : ∀ n, P (.setNode runId n (.status .skipped))) :
    Prog.Only P (failFast b runId succeeded skipCascade now) := by
  unfold failFast
  split
  · exact .bind (getWorkflowNodes_only hreads b runId) fun nodes =>
      cascadeSkipPendingNodes_only hcancel fun node _ _ => hskip node.nodeName
  · exact .pure _

theorem skipWorkflowNode_only {runId nodeName : String} (now : Int)
    (hcancel : ∀ id now, P (.cancelJob id now))
    (hskip : P (.setNode runId nodeName (.status .skipped))) :
    Prog.Only P (skipWorkflowNode runId nodeName now) := by
  refine .bind (only_ask (hreads _ rfl)) fun found => ?_
  cases found with
  | none => exact .pure _
  | some node =>
    dsimp only
    split
    · exact .bind (only_tried (only_ask (hcancel _ _))) fun _ => only_ask hskip
    · exact only_ask hskip

theorem requireVisibleRun_only (runId : String) : Prog.Only P (requireVisibleRun runId) := by
  refine .bind (only_ask (hreads _ rfl)) fun found => ?_
  cases found with
  | none => exact .throw _
  | some run => exact .pure _

theorem checkFanOutCompletion_only (b : Backend) {runId parent : String} (now : Int)
    (hfinal : ∀ ok e t, P (.finalizeFanOutParent runId parent ok e t)) :
    Prog.Only P (checkFanOutCompletion b runId parent now) := by
  refine .bind (getWorkflowNodesByStem_only hreads b runId _) fun children => ?_
  split
  · exact .pure _
  · refine .bind (only_ask (hfinal _ _ _)) fun transitioned => ?_
    split <;> exact .pure _

omit hreads

theorem enqueueChildren_only (henqueue : ∀ new id now, P (.enqueue new id now)) (runId : String)
    (place : Placement) (jobId : Nat → String) (now : Int) :
    ∀ (i : Nat) (children : List (String × Bytes)),
      Prog.Only P (enqueueChildren ext h runId place jobId now i children)
  | _, [] => .pure _
  | i, _ :: rest => .bind (only_ask (henqueue _ _ _)) fun _ =>
    .bind (enqueueChildren_only henqueue runId place jobId now (i + 1) rest) fun _ => .pure _

include hreads

theorem expandFanOut_only {runId parent : String} (childNames : List String)
    (childPayloads : List Bytes) (place : Placement) (jobId : Nat → String) (now : Int)
    (henqueue : ∀ new id now, P (.enqueue new id now))
    (hbatch : ∀ nodes, P (.createNodesBatch nodes))
    (hparent : ∀ write, P (.setNode runId parent write)) :
    Prog.Only P (expandFanOut ext h runId parent childNames childPayloads place jobId now) := by
  unfold expandFanOut
  split
  · exact .throw _
  · split
    · exact .throw _
    · refine .bind (requireVisibleRun_only hreads runId) fun _ => ?_
      split
      · exact .bind (only_ask (hparent _)) fun _ => .bind (only_ask (hparent _)) fun _ => .pure _
      · exact .bind (enqueueChildren_only henqueue runId place jobId now 0 _) fun _ =>
          .bind (only_ask (hbatch _)) fun _ => .bind (only_ask (hparent _)) fun _ => .pure _

theorem createDeferredJob_only {runId nodeName : String} (payload : Bytes) (place : Placement)
    (jobId : String) (now : Int) (henqueue : ∀ new id now, P (.enqueue new id now))
    (hjob : ∀ id, P (.setNode runId nodeName (.job id))) :
    Prog.Only P (createDeferredJob ext h runId nodeName payload place jobId now) :=
  .bind (requireVisibleRun_only hreads runId) fun _ => .bind (only_ask (henqueue _ _ _)) fun _ =>
    .bind (only_ask (hjob _)) fun _ => .pure _

theorem definitionFor_only (req : SubmitStaticWorkflowRequest) (minted : Minted)
    (hdefinition : ∀ definition, P (.createDefinition definition)) :
    Prog.Only P (definitionFor req minted) := by
  refine .bind (only_store (only_ask (hreads _ rfl))) fun found => ?_
  cases found with
  | none => exact .bind (only_store (only_ask (hdefinition _))) fun _ => .pure _
  | some existing =>
    dsimp only
    split
    · exact .bind (.throw _) fun _ => .pure _
    · exact .pure _

end Reading

end FlexiQ.Workflow
