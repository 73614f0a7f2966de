/-
# `Sql.Timeline` — histories of a SQL store

The store together with what a history must remember about it: what every job
was enqueued to wait for, which jobs ever completed, and which cascades are
between two of their database calls.  An `Act` is ONE transaction, or one read
of a cascade; a history is any sequence of acts, of any number of processes.

The cascade of a cancellation or of a dead letter is not part of the act
that causes it: the act only leaves it in `cascades`, and its reads and its
write are acts of their own, with anything in between.
-/
import FlexiQ.Lib.Runs
import FlexiQ.Lib.Board
import FlexiQ.Sql.Calm

namespace FlexiQ.Sql

open FlexiQ.Lib FlexiQ.Step

/-- What a job asked for when it was enqueued. -/
structure Birth where
  id : String
  «namespace» : Scope
  dependsOn : List String
  deriving DecidableEq, Repr

/-- A `cascade_cancel_reporting` between two of its calls. -/
structure Cascade where
  search : Search String
  reason : String
  scope : Scope
  deriving DecidableEq

structure Timeline where
  store : Store
  births : List Birth
  completed : List String
  cascades : List Cascade
  deriving DecidableEq

def Timeline.start : Timeline := ⟨.empty, [], [], []⟩

/-! ## The acts -/

/-- The sweeps over pending rows, none of which cascades. -/
inductive Sweep
  | expire
  | byQueue (queue : String)
  | byTask (task : String)
  deriving DecidableEq, Repr

def Sweep.hits (now : Int) : Sweep → Job → Bool
  | .expire, row => row.expiredAt now
  | .byQueue queue, row => row.queue = queue
  | .byTask task, row => row.taskName = task

def Sweep.run (s : Store) (now : Int) : Sweep → Result (List Job × Store)
  | .expire => expirePendingJobs s now
  | .byQueue queue => cancelPendingByQueue s queue now
  | .byTask task => cancelPendingByTask s task now

inductive Purge
  | completed (olderThanMs : Int)
  | globalTtl (cutoff : Int)
  | perEntryTtl
  | trim (ns : Scope) (limit : Nat)
  deriving DecidableEq, Repr

def Purge.run (s : Store) (now : Int) : Purge → Store
  | .completed olderThanMs => purgeCompleted s olderThanMs
  | .globalTtl cutoff => purgeGlobalTtl s cutoff
  | .perEntryTtl => purgePerEntryTtl s now
  | .trim ns limit => trimArchivedOver s ns limit

/-- One call of a dequeue, of one job or of a batch. -/
structure Dequeue where
  queue : String
  «namespace» : Scope
  order : DispatchOrder
  max : Option Nat
  deriving DecidableEq, Repr

def Dequeue.window (s : Store) (now : Int) (d : Dequeue) : List Job :=
  scanDequeueCandidates s d.queue now d.namespace (d.max.elim 100 scanLimit) d.order

def Dequeue.run (s : Store) (now : Int) (d : Dequeue) : Result (Dequeued × Store) :=
  match d.max with
  | none => dequeueOrdered s d.queue now d.namespace d.order
  | some max => dequeueBatchOrdered s d.queue now d.namespace max d.order

/-- One transaction, or one read of a cascade. -/
inductive Act
  | enqueue (new : NewJob) (id : String)
  | enqueueBatch (new : List Draft)
  | enqueueUnique (new : NewJob) (id : String)
  | enqueueUniqueBatch (new : List Draft)
  | enqueueDebounced (new : NewJob) (options : DebounceOptions) (id : String)
  | dequeue (d : Dequeue)
  | complete (id : String) (result : Option Bytes) (scope : Scope)
  | completeBatch (completions : List (String × Option Bytes)) (scope : Scope)
  | fail (id error : String)
  | markCancelled (id : String) (scope : Scope)
  | cancelJob (id : String) (scope : Scope)
  | deadLetter (job : Job) (error : String) (metadata : Option String) (deadId : String)
  | shedNewJobs (jobs : List (Job × String × String)) (metadata : Option String)
  | retryDead (deadId newId : String) (scope : Scope)
  | sweep (w : Sweep)
  | cascadeRead (i : Nat)
  | cascadeWrite (i : Nat)
  | purge (p : Purge)
  | retry (id : String) (nextScheduledAt : Int) (scope : Scope)
  | reschedule (id : String) (nextScheduledAt : Int) (scope : Scope)
  | requeueStuck (id : String)
  | requestCancel (id : String) (scope : Scope)
  | sleepJob (step : NewJobStep) (owner : String) (attempt : Int) (epoch : Option Int)
      (wakeAt : Int) (limits : StepLimits) (scope : Scope)
  | recordStepResult (step : NewJobStep) (owner : String) (attempt : Int) (epoch : Option Int)
      (limits : StepLimits) (scope : Scope)
  | claimExecution (id worker : String) (epoch : Int)
  | completeExecution (id : String) (scope : Scope)
  | reclaimExecution (id expected owner : String) (epoch : Int)
  | purgeExecutionClaims (olderThanMs : Int)
  | awaitSettle (id owner : String) (attempt : Int) (epoch : Option Int) (deadlineMs : Int)
      (scope : Scope)
  | claimSettle (id : String) (claimant : SettleClaimant) (scope : Scope)
  | deleteDead (deadId : String) (scope : Scope)
  | purgeDead (olderThanMs : Int) (scope : Scope)

/-- The births of those of the new jobs that made it into the store. -/
def Timeline.admitted (t : Timeline) (s : Store) (new : List Draft) : Timeline :=
  { t with
    store := s
    births := t.births ++ (new.filter fun e => (s.jobs.find e.2).isSome).map fun e =>
      ⟨e.2, e.1.namespace, e.1.dependsOn⟩ }

def Timeline.begin (t : Timeline) (root reason : String) (scope : Scope) : Timeline :=
  { t with cascades := ⟨Search.start root, reason, scope⟩ :: t.cascades }

def Timeline.call (serde : Serde) (t : Timeline) (now : Int) : Act → Result Timeline
  | .enqueue new id => do
    let (_, s) ← Sql.enqueue t.store new id now
    return t.admitted s [(new, id)]
  | .enqueueBatch new => do
    let (_, s) ← Sql.enqueueBatch t.store new now
    return t.admitted s new
  | .enqueueUnique new id => do
    let (_, s) ← Sql.enqueueUnique t.store new id now
    return t.admitted s [(new, id)]
  | .enqueueUniqueBatch new => do
    let (_, s) ← Sql.enqueueUniqueBatch t.store now new
    return t.admitted s new
  | .enqueueDebounced new options id => do
    let (_, s) ← Sql.enqueueDebounced t.store new options id now
    return t.admitted s [(new, id)]
  | .dequeue d => do
    let (_, s) ← d.run t.store now
    return { t with store := s }
  | .complete id result scope => do
    let s ← Sql.complete t.store id result scope now
    return { t with store := s, completed := id :: t.completed }
  | .completeBatch completions scope => do
    let s ← Sql.completeBatch t.store scope now completions
    return { t with store := s, completed := (completions.map Prod.fst).reverse ++ t.completed }
  | .fail id error => do
    let s ← Sql.fail t.store id error now
    return { t with store := s }
  | .markCancelled id scope => do
    let s ← Sql.markCancelled t.store id scope now
    return { t with store := s }
  | .cancelJob id scope => do
    let (cancelled, s) ← cancelJobRow t.store id scope now
    let t := { t with store := s }
    return if cancelled then t.begin id dependencyCancelled scope else t
  | .deadLetter job error metadata deadId => do
    let s ← deadLetterIn serde t.store job error metadata false deadId now
    let t := { t with store := s }
    return t.begin job.id dependencyFailed job.namespace
  | .shedNewJobs jobs metadata => do
    let s ← Sql.shedNewJobs serde t.store metadata now jobs
    let born := jobs.map fun e => (⟨e.1.id, e.1.namespace, []⟩ : Birth)
    return { t with store := s, births := t.births ++ born }
  | .retryDead deadId newId scope => do
    let (job, s) ← Sql.retryDead serde t.store deadId scope newId now
    return { t with store := s, births := t.births ++ [⟨job.id, job.namespace, []⟩] }
  | .sweep w => do
    let (_, s) ← w.run t.store now
    return { t with store := s }
  | .cascadeRead i =>
    match t.cascades[i]? with
    | some c =>
      let c := { c with search := c.search.expand (dependentsOf t.store) }
      .ok { t with cascades := t.cascades.set i c }
    | none => .ok t
  | .cascadeWrite i =>
    match t.cascades[i]? with
    | some c =>
      let t' := { t with cascades := t.cascades.eraseIdx i }
      if c.search.idx ≠ c.search.queue.length then .ok t
      else if c.search.found.isEmpty then .ok t'
      else
        match cascadeArchive t.store c.search.found c.reason c.search.root c.scope now with
        | .ok (_, s) => .ok { t' with store := s }
        | .error _ => .ok t'
    | none => .ok t
  | .purge p => .ok { t with store := p.run t.store now }
  | .retry id nextScheduledAt scope => do
    let s ← Sql.retry t.store id nextScheduledAt scope
    return { t with store := s }
  | .reschedule id nextScheduledAt scope => do
    let s ← Sql.reschedule t.store id nextScheduledAt scope
    return { t with store := s }
  | .requeueStuck id => .ok { t with store := (Sql.requeueStuck t.store id now).2 }
  | .requestCancel id scope => .ok { t with store := (Sql.requestCancel t.store id scope).2 }
  | .sleepJob step owner attempt epoch wakeAt limits scope => do
    let (_, s) ← Sql.sleepJob t.store step owner attempt epoch wakeAt limits scope now
    return { t with store := s }
  | .recordStepResult step owner attempt epoch limits scope => do
    let (_, s) ← Sql.recordStepResult t.store step owner attempt epoch limits scope now
    return { t with store := s }
  | .claimExecution id worker epoch =>
    .ok { t with store := (Sql.claimExecution t.store id worker now epoch).2 }
  | .completeExecution id scope => .ok { t with store := Sql.completeExecution t.store id scope }
  | .reclaimExecution id expected owner epoch =>
    .ok { t with store := (Sql.reclaimExecution t.store id expected owner now epoch).2 }
  | .purgeExecutionClaims olderThanMs =>
    .ok { t with store := Sql.purgeExecutionClaims t.store olderThanMs now }
  | .awaitSettle id owner attempt epoch deadlineMs scope => do
    let (_, s) ← Sql.awaitSettle t.store id owner attempt epoch deadlineMs scope now
    return { t with store := s }
  | .claimSettle id claimant scope =>
    .ok { t with store := (Sql.claimSettle t.store id claimant scope).2 }
  | .deleteDead deadId scope => .ok { t with store := (Sql.deleteDead t.store deadId scope).2 }
  | .purgeDead olderThanMs scope => .ok { t with store := Sql.purgeDead t.store olderThanMs scope }

def Act.mints : Act → List String
  | .enqueue _ id | .enqueueUnique _ id | .enqueueDebounced _ _ id => [id]
  | .enqueueBatch new | .enqueueUniqueBatch new => new.map Prod.snd
  | .shedNewJobs jobs _ => jobs.map fun e => e.1.id
  | .retryDead _ newId _ => [newId]
  | _ => []

/-- What the callers owe: a minted id is nobody else's, and a job handed to
the dead-letter queue is one of the store's, under its own namespace. -/
def Act.Proper (t : Timeline) (a : Act) : Prop :=
  (t.births.map Birth.id ++ a.mints).Nodup ∧
    match a with
    | .deadLetter job _ _ _ => ∃ b ∈ t.births, b.id = job.id ∧ b.namespace = job.namespace
    | _ => True

instance (t : Timeline) (a : Act) : Decidable (a.Proper t) := by
  delta Act.Proper
  cases a <;> infer_instance

/-- One act, at some time.  A call that fails leaves everything as it was. -/
def Timeline.next (serde : Serde) (t : Timeline) (label : Int × Act) : Option Timeline :=
  if label.2.Proper t then some ((t.call serde label.1 label.2).toOption.getD t) else none

end FlexiQ.Sql
