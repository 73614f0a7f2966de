/-
# `Redis.Issues` — which requests a call can issue

For each piece of client code: whatever is to hold of its requests has to
hold of the reads and of the few writes named here, with what the code has
checked about the documents they carry.  The answers are arbitrary, so this
says nothing about what the server holds by the time a write arrives.
-/
import FlexiQ.Redis.Calls

namespace FlexiQ.Redis

open List FlexiQ.Lib FlexiQ.Lib.Prog FlexiQ.Step FlexiQ.Sql

/-- A request that changes nothing. -/
def Req.reads : Req → Bool
  | .live _ | .archivedDoc _ | .members _ | .below .. | .first .. | .card _ | .stepRow ..
  | .deadlines _ | .deadDocs _ => true
  | _ => false

namespace Code

section Issues

variable {Q : Req → Prop} (hr : ∀ c, c.reads = true → Q c) (id : String)
  (scope : Scope) (now : Int)

include hr

/-! ## Reading -/

theorem getJob_sat : (getJob id scope).Sat Q fun _ => True := by
  refine ⟨hr _ rfl, fun live => ?_⟩
  cases live with
  | some job => exact trivial
  | none => exact ⟨hr _ rfl, fun _ => trivial⟩

theorem getJobRequiredIn_sat : (getJobRequiredIn id scope).Sat Q fun _ => True :=
  ⟨hr _ rfl, fun _ => trivial⟩

/-! ## Transitions -/

theorem complete_sat (result : Option Bytes)
    (harchive : ∀ job, job.status = .running → Q (.archive job (.complete result) now none))
    (hrelease : ∀ job, Q (.releaseUnique job)) :
    (complete id result scope now).Sat Q fun _ => True := by
  refine Sat.bind (getJobRequiredIn_sat hr id scope) fun job _ => ?_
  cases job with
  | error e => exact trivial
  | ok job =>
    dsimp only
    split
    · exact trivial
    next hrun =>
    refine Sat.ask (harchive job (not_not.mp hrun)) fun _ => ?_
    split
    · exact ⟨hrelease job, fun _ => trivial⟩
    · exact trivial

theorem fail_sat (error : String)
    (harchive : ∀ job, job.status = .running → Q (.archive job (.fail error) now none)) :
    (fail id error now).Sat Q fun _ => True := by
  refine Sat.bind (getJobRequiredIn_sat hr id none) fun job _ => ?_
  cases job with
  | error e => exact trivial
  | ok job =>
    dsimp only
    split
    · exact trivial
    · next hrun => exact ⟨harchive job (not_not.mp hrun), fun _ => trivial⟩

theorem requeue_sat (nextAt : Int) (bump : Bool) (hrequeue : ∀ job, Q (.requeue job nextAt bump)) :
    (requeue id nextAt scope bump).Sat Q fun _ => True := by
  refine Sat.bind (getJobRequiredIn_sat hr id scope) fun job _ => ?_
  cases job with
  | error e => exact trivial
  | ok job => exact ⟨hrequeue job, fun _ => trivial⟩

theorem requeueStuck_sat (hstuck : ∀ job, Q (.requeueStuck job now)) :
    (requeueStuck id now).Sat Q fun _ => True := by
  refine Sat.bind (getJob_sat hr id none) fun job _ => ?_
  split
  · exact trivial
  · next job _ => exact ⟨hstuck job, fun _ => trivial⟩

theorem requestCancel_sat (hcancel : ∀ job, Q (.requestCancel job)) :
    (requestCancel id scope).Sat Q fun _ => True := by
  refine Sat.bind (getJob_sat hr id scope) fun job _ => ?_
  split
  · exact trivial
  · next job _ => exact ⟨hcancel job, fun _ => trivial⟩

theorem updateProgress_sat (progress : Int) (hset : ∀ job, Q (.setIfLive job progress)) :
    (updateProgress id progress scope).Sat Q fun _ => True := by
  unfold updateProgress
  split
  · exact trivial
  refine Sat.bind (getJobRequiredIn_sat hr id scope) fun job _ => ?_
  cases job with
  | error e => exact trivial
  | ok job =>
    refine Sat.ask (hset job) fun live => ?_
    split
    · exact trivial
    · exact trivial

theorem markCancelled_sat (harchive : ∀ job, Q (.archive job .cancelledByRequest now none)) :
    (markCancelled id scope now).Sat Q fun _ => True := by
  refine Sat.bind (getJobRequiredIn_sat hr id none) fun job _ => ?_
  cases job with
  | error e => exact trivial
  | ok job =>
    dsimp only
    split
    · exact ⟨harchive job, fun _ => trivial⟩
    · exact trivial

/-! ## Dequeue -/

theorem archiveExpired_sat (harchive : ∀ job, job.status = .pending →
    Q (.archive job (.cancel (some expiredBeforeExecution)) now none)) : ∀ ids,
    (archiveExpired now ids).Sat Q fun _ => True := by
  intro ids
  induction ids with
  | nil => exact trivial
  | cons id ids ih =>
    refine Sat.ask (hr _ rfl) fun live => ?_
    split
    · exact ih
    · next job hjob =>
      have hpending : job.status = .pending := by
        simpa using (Option.filter_eq_some_iff.mp hjob).2
      exact Sat.ask (harchive job hpending) fun _ =>
        Sat.bind ih fun _ _ => trivial

omit hr in
theorem claimDeferred_sat (queue : String) (max : Nat)
    (hclaim : ∀ job, Q (.claimPending queue job now)) : ∀ jobs claimed,
    (claimDeferred queue now max claimed jobs).Sat Q fun _ => True := by
  intro jobs
  induction jobs with
  | nil => exact fun _ => trivial
  | cons job jobs ih =>
    intro claimed
    rw [claimDeferred]
    split
    · exact trivial
    refine Sat.ask (hclaim job) fun won => ?_
    split
    · exact ih _
    · exact ih _

theorem dequeueBatch_sat (queue : String) (ns : Scope) (max : Nat)
    (hselect : Q (.selectAndClaim queue now ns max))
    (harchive : ∀ job, job.status = .pending →
      Q (.archive job (.cancel (some expiredBeforeExecution)) now none))
    (hclaim : ∀ job, Q (.claimPending queue job now)) :
    (dequeueBatch queue now ns max).Sat Q fun _ => True := by
  unfold dequeueBatch
  split
  · exact trivial
  exact Sat.ask hselect fun out =>
    Sat.bind (archiveExpired_sat hr now harchive _) fun _ _ =>
      Sat.bind (claimDeferred_sat now queue max hclaim _ _) fun _ _ => trivial

/-! ## Cancelling -/

theorem walk_sat : ∀ rounds search, (walk rounds search).Sat Q fun _ => True := by
  intro rounds
  induction rounds with
  | zero => exact fun _ => trivial
  | succ rounds ih =>
    intro search
    rw [walk]
    split
    · exact trivial
    · exact Sat.ask (hr _ rfl) fun _ => ih _

theorem cancelEach_sat (error : String)
    (harchive : ∀ job, job.status = .pending → Q (.archive job (.cancel (some error)) now none)) :
    ∀ ids, (cancelEach error scope now ids).Sat Q fun _ => True := by
  intro ids
  induction ids with
  | nil => exact trivial
  | cons id ids ih =>
    refine Sat.bind (getJob_sat hr id scope) fun job _ => ?_
    split
    · exact ih
    · next job hjob =>
      have hpending : job.status = .pending := by
        simpa using (Option.filter_eq_some_iff.mp hjob).2
      exact Sat.ask (harchive job hpending) fun _ =>
        Sat.bind ih fun _ _ => trivial

theorem cascadeCancel_sat (reason : String) (rounds : Nat)
    (harchive : ∀ error job, job.status = .pending →
      Q (.archive job (.cancel (some error)) now none)) :
    (cascadeCancel id reason scope now rounds).Sat Q fun _ => True :=
  Sat.bind (walk_sat hr rounds _) fun _ _ => cancelEach_sat hr scope now _ (harchive _) _

theorem cancelJob_sat (rounds : Nat)
    (harchive : ∀ error job, job.status = .pending → Q (.archive job (.cancel error) now none)) :
    (cancelJob id scope now rounds).Sat Q fun _ => True := by
  refine Sat.bind (getJob_sat hr id scope) fun job _ => ?_
  split
  · exact trivial
  · next job hjob =>
    have hpending : job.status = .pending := by
      simpa using (Option.filter_eq_some_iff.mp hjob).2
    exact Sat.ask (harchive none job hpending) fun _ =>
      Sat.bind (cascadeCancel_sat hr id scope now _ rounds fun error => harchive (some error))
        fun _ _ => trivial

section

variable (hits : Job → Bool) (error : String) (listed : SetKey)
  (hzrem : ∀ queue id, Q (.cmd (.zrem (.pending queue) id)))
  (harchive : ∀ job, hits job = true →
    Q (.archive job (.cancel (some error)) now (some (.set listed))))
include hits hzrem harchive

theorem sweepEach_sat : ∀ ids, (sweepEach hits error listed now ids).Sat Q fun _ => True := by
  intro ids
  induction ids with
  | nil => exact trivial
  | cons id ids ih =>
    refine Sat.ask (hr _ rfl) fun live => ?_
    split
    · exact ih
    · next job hjob =>
      exact Sat.ask (hzrem _ _) fun _ =>
        Sat.ask (harchive job (Option.filter_eq_some_iff.mp hjob).2) fun _ =>
          Sat.bind ih fun _ _ => trivial

theorem sweep_sat : (sweep hits error listed now).Sat Q fun _ => True :=
  Sat.ask (hr _ rfl) fun ids =>
    Sat.bind (sweepEach_sat hr now hits error listed hzrem harchive ids) fun _ _ => trivial

end

/-! ## Steps and claims -/

theorem sleepRounds_sat (step : NewJobStep) (owner : String) (attempt : Int)
    (epoch : Option Int) (wakeAt : Int) (limits : StepLimits)
    (hsleep : ∀ job stored deadline,
      Q (.sleep step owner attempt epoch limits scope job stored deadline now)) : ∀ rounds,
    (sleepRounds step owner attempt epoch wakeAt limits scope now rounds).Sat Q fun _ => True := by
  intro rounds
  induction rounds with
  | zero => exact trivial
  | succ rounds ih =>
    refine Sat.ask (hr _ rfl) fun row => ?_
    split
    · exact trivial
    refine Sat.bind (getJobRequiredIn_sat hr _ scope) fun job _ => ?_
    split
    · exact trivial
    refine Sat.bind (Sat.call (hsleep _ _ _)) fun reply _ => ?_
    split
    · exact trivial
    · exact ih
    · exact trivial

/-! ## Dead letters -/

theorem deadLetter_sat (serde : Serde) (job : Job) (error : String) (metadata : Option String)
    (shed : Bool) (rounds : Nat)
    (htx : Q (.deadLetter job (deadLetterRow serde job error metadata shed id now) error now))
    (harchive : ∀ error job, job.status = .pending →
      Q (.archive job (.cancel (some error)) now none)) :
    (deadLetter serde job error metadata shed id now rounds).Sat Q fun _ => True := by
  refine Sat.ask htx fun done => ?_
  split
  · exact Sat.bind (cascadeCancel_sat hr _ _ _ _ _ harchive) fun _ _ => trivial
  · exact trivial

end Issues

end Code

/-! ## What no call does -/

/-- A command that may be sent on its own: documents leave for the archive,
and claims, markers and steps are written, by scripts and transactions
only. -/
def Cmd.tame : Cmd → Bool
  | .delJob _ | .setArchived _ | .setClaim .. | .setMarker .. | .delMarker _ | .setSteps _
  | .delSteps _ => false
  | _ => true

/-- Single commands are tame, and what slides is the document it was read
from. -/
def Req.tame : Req → Prop
  | .cmd c => c.tame = true
  | .resurrect _ c => c.tame = true
  | .debounceSlide target slid => ∃ job options, slid = target.slid job options
  | _ => True

theorem insertOps_tame {job : Job} {dependsOn : List String} :
    ∀ c ∈ insertOps job dependsOn, c.tame = true :=
  forall_insertOps.mpr ⟨rfl, rfl, rfl, rfl, rfl, rfl, fun _ _ => rfl, fun _ _ => ⟨rfl, rfl⟩⟩

theorem dlqRemoveOps_tame {id : String} {ns : Scope} :
    ∀ c ∈ Code.dlqRemoveOps id ns, c.tame = true := by
  intro c hc
  simp only [Code.dlqRemoveOps, mem_cons, not_mem_nil, or_false] at hc
  rcases hc with rfl | rfl | rfl <;> rfl

theorem deleteArchivedOps_tame {job : Job} : ∀ c ∈ deleteArchivedOps job, c.tame = true := by
  intro c hc
  simp only [deleteArchivedOps, mem_cons, not_mem_nil, or_false] at hc
  rcases hc with rfl | rfl | rfl | rfl | rfl | rfl | rfl <;> rfl

theorem dropClaim_tame {id : String} :
    ∀ c ∈ [Cmd.delClaim id, .zrem .claimsByTime id], c.tame = true := by
  intro c hc
  simp only [mem_cons, not_mem_nil, or_false] at hc
  rcases hc with rfl | rfl <;> rfl

theorem tame_of_reads (c : Req) (h : c.reads = true) : c.tame := by
  cases c <;> trivial

namespace Code

/-- Client code that issues tame requests. -/
abbrev Tame {α : Type} (p : Code α) : Prop := p.Sat Req.tame fun _ => True

theorem pipe_tame : ∀ {cmds : List Cmd}, (∀ c ∈ cmds, c.tame = true) → (pipe cmds).Tame
  | [], _ => trivial
  | c :: _, h =>
    Sat.ask (h c mem_cons_self) fun _ =>
      pipe_tame fun c hc => h c (mem_cons_of_mem _ hc)

theorem resurrect_tame (deadId : String) : ∀ {cmds : List Cmd},
    (∀ c ∈ cmds, c.tame = true) → (resurrect deadId cmds).Tame
  | [], _ => trivial
  | c :: _, h =>
    Sat.ask (h c mem_cons_self) fun _ =>
      resurrect_tame deadId fun c hc => h c (mem_cons_of_mem _ hc)

/-! ### Enqueue -/

variable (serde : Serde) (scope : Scope) (now : Int)

theorem validateDepIds_tame (ns : Scope) (batch : List Job) (depIds : List String) :
    (validateDepIds ns batch depIds).Tame := by
  induction depIds with
  | nil => exact trivial
  | cons depId depIds ih =>
    rw [validateDepIds]
    split
    · split
      · exact ih
      · exact trivial
    · refine Sat.ask trivial fun live => ?_
      cases live with
      | some dep =>
        dsimp only
        split
        · exact trivial
        · exact ih
      | none =>
        refine Sat.ask trivial fun archived => ?_
        cases archived with
        | none => exact trivial
        | some dep =>
          dsimp only
          split
          · exact ih
          · exact trivial

theorem enqueue_tame (new : NewJob) (id : String) : (enqueue new id now).Tame := by
  refine Sat.bind (validateDepIds_tame _ _ _) fun valid _ => ?_
  split
  · exact Sat.bind (pipe_tame insertOps_tame) fun _ _ => trivial
  · exact trivial

theorem validateBatch_tame (jobs : List Job) (news : List Draft) :
    (validateBatch jobs news).Tame := by
  induction news with
  | nil => exact trivial
  | cons new news ih =>
    refine Sat.bind (validateDepIds_tame _ _ _) fun valid _ => ?_
    split
    · exact ih
    · exact trivial

theorem enqueueBatch_tame (news : List Draft) : (enqueueBatch news now).Tame := by
  refine Sat.bind (validateBatch_tame _ _) fun valid _ => ?_
  split
  · refine Sat.bind (pipe_tame fun c hc => ?_) fun _ _ => trivial
    obtain ⟨new, -, hc⟩ := mem_flatMap.mp hc
    exact insertOps_tame c hc
  · exact trivial

theorem enqueueUnique_tame (new : NewJob) (id : String) : (enqueueUnique new id now).Tame := by
  unfold enqueueUnique
  split
  · exact enqueue_tame now new id
  refine Sat.ask trivial fun existing => ?_
  split
  · exact trivial
  refine Sat.bind (validateDepIds_tame _ _ _) fun valid _ => ?_
  split
  · refine Sat.ask trivial fun existing => ?_
    split <;> exact trivial
  · exact trivial

theorem debounceRounds_tame (new : NewJob) (options : DebounceOptions) (key : String) (job : Job)
    (rounds : Nat) : (debounceRounds new options key job rounds).Tame := by
  induction rounds with
  | zero => exact trivial
  | succ rounds ih =>
    have hturn : ∀ target, (do
        if ← debounceSlide target (target.slid job options) then
          return Reply.inserted (target.slid job options) true
        else debounceRounds new options key job rounds).Tame := by
      intro target
      refine Sat.ask ⟨_, _, rfl⟩ fun slid => ?_
      split
      · exact trivial
      · exact ih
    refine Sat.ask trivial fun target => ?_
    split
    · exact hturn _
    refine Sat.bind (validateDepIds_tame _ _ _) fun valid _ => ?_
    split
    · refine Sat.ask trivial fun reply => ?_
      split
      · exact trivial
      · exact trivial
      · exact hturn _
    · exact trivial

theorem enqueueDebounced_tame (new : NewJob) (options : DebounceOptions) (id : String) :
    (enqueueDebounced new options id now).Tame := by
  unfold enqueueDebounced
  split
  · exact trivial
  · exact debounceRounds_tame new options _ _ 3

/-! ### Steps and claims -/

theorem recordStepResult_tame (step : NewJobStep) (owner : String) (attempt : Int)
    (epoch : Option Int) (limits : StepLimits) :
    (recordStepResult step owner attempt epoch limits scope now).Tame := by
  unfold recordStepResult
  dsimp only
  split
  · exact trivial
  refine Sat.bind (Sat.call trivial) fun reply _ => ?_
  split <;> exact trivial

theorem claimExecution_tame (jobId worker : String) (now epoch : Int) :
    (claimExecution jobId worker now epoch).Tame := by
  refine Sat.ask trivial fun won => ?_
  split
  · exact ⟨rfl, fun _ => trivial⟩
  · exact trivial

theorem completeExecution_tame (jobId : String) : (completeExecution jobId scope).Tame := by
  have hsees : (seesJob jobId scope).Tame := by
    unfold seesJob
    split
    · exact Sat.bind (getJob_sat tame_of_reads jobId scope) fun _ _ => trivial
    · exact trivial
  refine Sat.bind hsees fun visible _ => ?_
  split
  · exact Sat.bind (pipe_tame dropClaim_tame) fun _ _ => trivial
  · exact trivial

theorem reclaimExecution_tame (jobId expected owner : String) (now epoch : Int) :
    (reclaimExecution jobId expected owner now epoch).Tame := by
  refine Sat.ask trivial fun won => ?_
  split <;> exact trivial

theorem purgeExecutionClaims_tame (olderThanMs now : Int) :
    (purgeExecutionClaims olderThanMs now).Tame := by
  refine Sat.ask trivial fun ids => ?_
  refine Sat.ask trivial fun markers => ?_
  split
  · exact trivial
  · refine Sat.bind (pipe_tame fun c hc => ?_) fun _ _ => trivial
    obtain ⟨id, -, hc⟩ := mem_flatMap.mp hc
    exact dropClaim_tame c hc

/-! ### Dead letters -/

theorem deadDoc_tame (id : String) : (deadDoc id).Tame := ⟨trivial, fun _ => trivial⟩

theorem shedNewJobs_tame (jobs : List (Job × String × String)) (metadata : Option String) :
    (shedNewJobs serde jobs metadata now).Tame := by
  unfold shedNewJobs
  split
  · exact trivial
  · exact ⟨trivial, fun _ => trivial⟩

theorem retryDead_tame (deadId : String) (newId : String) :
    (retryDead serde deadId scope newId now).Tame := by
  refine Sat.bind (deadDoc_tame deadId) fun entry _ => ?_
  split
  · exact trivial
  · exact Sat.bind (resurrect_tame deadId insertOps_tame) fun _ _ =>
      Sat.bind (pipe_tame dlqRemoveOps_tame) fun _ _ => trivial

theorem listForRetry_tame (wanted : DeadJobEntry → Bool) (limit : Nat) (ids : List String)
    (found : List DeadJobEntry) : (listForRetry wanted limit found ids).Tame := by
  induction ids generalizing found with
  | nil => exact trivial
  | cons id ids ih =>
    rw [listForRetry]
    split
    · exact trivial
    refine Sat.bind (deadDoc_tame id) fun entry _ => ?_
    split
    · exact ih _
    · exact ih _

theorem retryEach_tame (entries : List DeadJobEntry) (newIds : List String) :
    (retryEach serde scope now entries newIds).Tame := by
  induction entries generalizing newIds with
  | nil => exact trivial
  | cons entry entries ih =>
    cases newIds with
    | nil => exact trivial
    | cons newId newIds =>
      exact Sat.bind (retryDead_tame serde scope now entry.id newId) fun _ _ => ih newIds

theorem autoRetryDlq_tame (ns : Scope) (queues : List String) (cutoff maxRetries : Int)
    (newIds : List String) :
    (autoRetryDlq serde ns queues cutoff maxRetries newIds now).Tame :=
  Sat.ask trivial fun _ =>
    Sat.bind (listForRetry_tame _ _ _ _) fun _ _ =>
      Sat.bind (retryEach_tame serde ns now _ newIds) fun _ _ => trivial

theorem deleteDead_tame (deadId : String) : (deleteDead deadId scope).Tame := by
  refine Sat.bind (deadDoc_tame deadId) fun entry _ => ?_
  split
  · exact trivial
  · exact Sat.bind (pipe_tame dlqRemoveOps_tame) fun _ _ => trivial

theorem removeDead_tame {gone : List (List Cmd)} (h : ∀ cmds ∈ gone, ∀ c ∈ cmds, c.tame = true) :
    (removeDead gone).Tame := by
  refine Sat.bind (pipe_tame fun c hc => ?_) fun _ _ => trivial
  obtain ⟨cmds, hcmds, hc⟩ := mem_flatten.mp hc
  exact h cmds hcmds c hc

theorem collectDead_tame {stale : String → List Cmd} (h : ∀ id, ∀ c ∈ stale id, c.tame = true)
    (wanted : DeadJobEntry → Bool) (ids : List String) :
    (collectDead wanted stale ids).Sat Req.tame fun gone =>
      ∀ cmds ∈ gone, ∀ c ∈ cmds, c.tame = true := by
  induction ids with
  | nil => exact forall_mem_nil _
  | cons id ids ih =>
    refine Sat.bind (deadDoc_tame id) fun entry _ => ?_
    split
    · split
      · exact Sat.bind ih fun _ hgone => forall_mem_cons.mpr ⟨dlqRemoveOps_tame, hgone⟩
      · exact ih
    · exact Sat.bind ih fun _ hgone => forall_mem_cons.mpr ⟨h id, hgone⟩

theorem purgeDead_tame (olderThanMs : Int) : (purgeDead olderThanMs scope).Tame := by
  refine Sat.ask trivial fun ids => ?_
  refine Sat.ask trivial fun entries => ?_
  refine removeDead_tame fun cmds hcmds => ?_
  obtain ⟨⟨id, entry⟩, -, hcmds⟩ := mem_filterMap.mp hcmds
  dsimp only at hcmds
  split at hcmds
  · split at hcmds
    · cases hcmds
      exact dlqRemoveOps_tame
    · cases hcmds
  · split at hcmds
    · cases hcmds
      simp [Cmd.tame]
    · cases hcmds

theorem trimDeadOver_tame (ns : Scope) (keep : Int) : (trimDeadOver ns keep).Tame := by
  refine Sat.ask trivial fun total => ?_
  refine Sat.ask trivial fun ids => ?_
  refine Sat.bind (collectDead_tame (fun id c hc => ?_) _ _) fun _ => removeDead_tame
  obtain rfl := mem_singleton.mp hc
  rfl

/-! ### Retention -/

theorem purgeEach_tame (due : Job → Bool) {stale : String → Option Cmd}
    (h : ∀ id, ∀ c ∈ stale id, c.tame = true) (ids : List String) :
    (purgeEach due stale ids).Tame := by
  induction ids with
  | nil => exact trivial
  | cons id ids ih =>
    refine Sat.ask trivial fun found => ?_
    cases found with
    | none =>
      exact Sat.bind (pipe_tame fun c hc => h id c (Option.mem_toList.mp hc)) fun _ _ => ih
    | some job =>
      dsimp only
      split
      · refine Sat.bind (?_ : (deleteArchived job).Tame) fun _ _ => ih
        refine Sat.bind (pipe_tame deleteArchivedOps_tame) fun _ _ => ?_
        split
        · exact ⟨trivial, fun _ => trivial⟩
        · exact trivial
      · exact ih

end Code

open Code in
/-- **Every call** issues tame requests. -/
theorem prog_tame (serde : Serde) (call : Call) : (call.prog serde).Tame := by
  have hr := tame_of_reads
  have hpurge : ∀ (due : Job → Bool) {stale : String → Option Cmd} (ids : List String),
      (∀ id, ∀ c ∈ stale id, c.tame = true) →
      (purgeEach due stale ids >>= fun _ => (pure .done : Code Reply)).Tame :=
    fun due _ ids h => Sat.bind (purgeEach_tame due h ids) fun _ _ => trivial
  have hindex : ∀ {key : ZKey} (id : String), ∀ c ∈ some (Cmd.zrem key id), c.tame = true := by
    rintro key id c ⟨⟩
    rfl
  cases call with
  | enqueue => exact enqueue_tame _ _ _
  | enqueueBatch => exact enqueueBatch_tame _ _
  | enqueueUnique => exact enqueueUnique_tame _ _ _
  | enqueueDebounced => exact enqueueDebounced_tame _ _ _ _
  | dequeueBatch =>
    exact dequeueBatch_sat hr _ _ _ _ trivial (fun _ _ => trivial) fun _ => trivial
  | complete => exact complete_sat hr _ _ _ _ (fun _ _ => trivial) fun _ => trivial
  | fail => exact fail_sat hr _ _ _ fun _ _ => trivial
  | retry | reschedule => exact requeue_sat hr _ _ _ _ fun _ => trivial
  | requeueStuck => exact requeueStuck_sat hr _ _ fun _ => trivial
  | requestCancel => exact requestCancel_sat hr _ _ fun _ => trivial
  | updateProgress => exact updateProgress_sat hr _ _ _ fun _ => trivial
  | markCancelled => exact markCancelled_sat hr _ _ _ fun _ => trivial
  | cancelJob => exact cancelJob_sat hr _ _ _ _ fun _ _ _ => trivial
  | cascadeCancel =>
    exact Sat.bind (cascadeCancel_sat hr _ _ _ _ _ fun _ _ _ => trivial)
      fun _ _ => trivial
  | expirePendingJobs | cancelPendingByQueue | cancelPendingByTask =>
    exact sweep_sat hr _ _ _ _ (fun _ _ => rfl) fun _ _ => trivial
  | recordStepResult => exact recordStepResult_tame _ _ _ _ _ _ _
  | sleepJob => exact sleepRounds_sat hr _ _ _ _ _ _ _ _ (fun _ _ _ => trivial) 3
  | claimExecution => exact claimExecution_tame _ _ _ _
  | completeExecution => exact completeExecution_tame _ _
  | reclaimExecution => exact reclaimExecution_tame _ _ _ _ _
  | purgeExecutionClaims => exact purgeExecutionClaims_tame _ _
  | awaitSettle | claimSettle => exact ⟨trivial, fun _ => trivial⟩
  | deadLetter =>
    exact deadLetter_sat hr _ _ _ _ _ _ _ _ trivial fun _ _ _ => trivial
  | shedNewJobs => exact shedNewJobs_tame _ _ _ _
  | retryDead => exact retryDead_tame _ _ _ _ _
  | autoRetryDlq => exact autoRetryDlq_tame _ _ _ _ _ _ _
  | deleteDead => exact deleteDead_tame _ _
  | purgeDead => exact purgeDead_tame _ _
  | purgeDeadByTask =>
    refine Sat.ask trivial fun ids => ?_
    exact Sat.bind (collectDead_tame (fun _ => forall_mem_nil _) _ _)
      fun _ => removeDead_tame
  | purgeDeadWithTtl =>
    exact Sat.bind (collectDead_tame (fun _ => forall_mem_nil _) _ _)
      fun _ => removeDead_tame
  | trimDeadOver => exact trimDeadOver_tame _ _
  | drainArchivedExpiry | drainArchivedBelow => exact ⟨trivial, fun _ => hpurge _ _ hindex⟩
  | purgeCompleted =>
    refine hpurge _ _ ?_
    rintro id c ⟨⟩
  | trimArchivedOver => exact ⟨trivial, fun _ => ⟨trivial, fun _ => hpurge _ _ hindex⟩⟩

end FlexiQ.Redis
