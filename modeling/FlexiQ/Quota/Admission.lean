/-
# `Quota.Admission` — the one gate of the enqueue forwarders

`quota/admission.rs` and `storage/quota_gate.rs`.  An enqueue call is admitted
namespace by namespace: each namespace's share of it against the namespace's
depth first and its rate second.  A `reject` quota fails the whole call before
anything is written; what a `drop` quota sheds is dead-lettered without ever
going live.

The gate is generic in the backend (`Engine`), as it is in the source.
-/
import FlexiQ.Dispatch.Calls
import Mathlib.Data.List.Dedup

namespace FlexiQ.Quota

open FlexiQ.Lib FlexiQ.Resilience

structure QuotaDocument extends NamespaceQuota where
  enqueueRateText : String

/-- `QuotaCache`: the quota of a namespace, if one is set. -/
abbrev QuotaCache := Option String → Result (Option QuotaDocument)

structure DeadSummary where
  id : String
  error : Option String
  deriving DecidableEq, Repr

/-- What the gate and the producers call of a storage backend.  A job comes
with the id it is going to have. -/
structure Engine (S : Type) where
  backend : Backend
  countByNamespace : S → Option String → JobStatus → Int
  enqueue : Draft → Int → S → Result Job × S
  enqueueBatch : List Draft → Int → S → Result (List Job) × S
  enqueueUniqueReporting : Draft → Int → S → Result (Job × Bool) × S
  enqueueUniqueBatchReporting :
    List Draft → Int → S → Result (List (Job × Bool)) × S
  enqueueDebounced : Draft → DebounceOptions → Int → S → Result Job × S
  shedNewJobs :
    List (Job × String × String) → Option String → Int → S → Result Unit × S
  retryDead : String → Option String → String → Int → S → Result String × S
  listDeadForRetry : Int → Int → Option String → List String → Nat → S → List DeadSummary
  deadNamespace : S → String → Option (Option String)

/-- A backend and the token buckets beside it. -/
structure Depot (S : Type) where
  store : S
  buckets : Buckets

variable {S : Type} (engine : Engine S) (quotas : QuotaCache)

/-! ## Excess -/

def defaultNamespace : String := "default"

def quotaReasonPrefix : String := "quota:"

def quotaShedMetadata : String := "\x7b\"shed\":\"quota\"\x7d"

inductive Excess
  | depth (queue : String) (pending cap : Int)
  | rate (rate : String)
  deriving DecidableEq, Repr

namespace Excess

def intoError (ns : Scope) : Excess → QueueError
  | .depth queue pending cap => .queueFull queue pending cap
  | .rate text => .rateLimitExceeded
      ("namespace '" ++ ns.getD defaultNamespace ++ "' enqueue_rate " ++ text)

def shedReason (ns : Scope) : Excess → String
  | .depth _ pending cap =>
    quotaReasonPrefix ++ " namespace '" ++ ns.getD defaultNamespace ++ "' is at max_pending " ++
      toString cap ++ " (" ++ toString pending ++ " pending), and its on_excess is drop"
  | .rate text =>
    quotaReasonPrefix ++ " namespace '" ++ ns.getD defaultNamespace ++
      "' is over enqueue_rate " ++ text ++ ", and its on_excess is drop"

end Excess

def saturatingAdd (a b : Int) : Int := max (-2 ^ 63) (min (a + b) (2 ^ 63 - 1))

def enqueueRateKey : Option String → String
  | none => "quota::-::enqueue"
  | some ns => "quota::" ++ toString ns.utf8ByteSize ++ ":" ++ ns ++ "::enqueue"

section

variable (quota : QuotaDocument) (ns : Scope) (share : List NewJob) (now : Int)
  (d : Depot S)

def rateExcess : Option Excess × Depot S :=
  match quota.enqueueRate with
  | none => (none, d)
  | some config =>
    let (admitted, buckets) := engine.backend.tryAcquireTokens d.buckets (enqueueRateKey ns)
      (min share.length (2 ^ 32 - 1)) config.maxTokens config.refillRate now
    (if admitted then none else some (.rate quota.enqueueRateText), { d with buckets := buckets })

def excess : Option Excess × Depot S :=
  let pending := engine.countByNamespace d.store ns .pending
  match quota.maxPending.filter (· < saturatingAdd pending share.length) with
  | some cap => (some (.depth ((share.head?.map NewJob.queue).getD "") pending cap), d)
  | none => rateExcess engine quota ns share now d

end

/-! ## Admission -/

/-- The order of a `BTreeMap` keyed by namespace. -/
def namespaceLe (a b : Option String) : Bool :=
  match a, b with
  | none, _ => true
  | some _, none => false
  | some a, some b => a ≤ b

def namespacesOf (jobs : List NewJob) : List (Option String) :=
  (jobs.map NewJob.namespace).dedup.insertionSort fun a b => namespaceLe a b = true

/-- The loop of `admit`: the reason for each namespace that is shed. -/
def admitEach (jobs : List NewJob) (now : Int) : List (Option String) → Depot S →
    Result (List (Option String × String)) × Depot S
  | [], d => (.ok [], d)
  | ns :: rest, d =>
    match quotas ns with
    | .error e => (.error e, d)
    | .ok none => admitEach jobs now rest d
    | .ok (some quota) =>
      match excess engine quota ns (jobs.filter fun job => job.namespace = ns) now d with
      | (none, d) => admitEach jobs now rest d
      | (some breach, d) =>
        match quota.onExcess with
        | .reject => (.error (breach.intoError ns), d)
        | .drop =>
          let (reasons, d) := admitEach jobs now rest d
          (reasons.map ((ns, breach.shedReason ns) :: ·), d)

/-- `admit`: a verdict for each job of the call. -/
def admitJobs (jobs : List NewJob) (now : Int) (d : Depot S) :
    Result (List (Option String)) × Depot S :=
  let (reasons, d) := admitEach engine quotas jobs now (namespacesOf jobs) d
  (reasons.map fun reasons => jobs.map fun job => reasons.lookup job.namespace, d)

/-! ## The gate -/

def shedCopy (new : NewJob) (id reason : String) (now : Int) : Job :=
  { new.intoJob id now with
    status := .dead, error := some reason, completedAt := some now,
    uniqueKey := none, debounceKey := none }

/-- The results in call order: admitted positions take from one list, shed
positions from the other. -/
def inCallOrder {T : Type} : List (Option String) → List T → List T → List T
  | [], _, _ => []
  | none :: verdicts, done, shed => done.take 1 ++ inCallOrder verdicts (done.drop 1) shed
  | some _ :: verdicts, done, shed => shed.take 1 ++ inCallOrder verdicts done (shed.drop 1)

/-- The end of `with_quota`: record what is shed, in one write.  A record
that fails after the rest of the call committed is only logged. -/
def recordShed {T : Type} (verdicts : List (Option String)) (dead : List (Job × String))
    (deadIds : Nat → String) (now : Int) (shed : Job → T) (done : List T) (committed : Bool)
    (store : S) : Result (List T) × S :=
  let recorded := dead.zipIdx.map fun e => (e.1.1, e.1.2, deadIds e.2)
  let (written, store) := engine.shedNewJobs recorded (some quotaShedMetadata) now store
  let results := inCallOrder verdicts done (dead.map fun e => shed e.1)
  match written with
  | .ok () => (.ok results, store)
  | .error e => (if committed then .ok results else .error e, store)

/-- `with_quota`, past the admission: `deadIds` are the ids the shed entries
are going to have. -/
def enqueueJudged {T : Type} (news : List Draft) (verdicts : List (Option String))
    (deadIds : Nat → String) (now : Int)
    (enqueue : List Draft → S → Result (List T) × S) (shed : Job → T)
    (store : S) : Result (List T) × S :=
  if verdicts.all Option.isNone then enqueue news store
  else
    let judged := news.zip verdicts
    let admitted := judged.filterMap fun e => if e.2.isNone then some e.1 else none
    let dead := judged.filterMap fun e =>
      e.2.map fun reason => (shedCopy e.1.1 e.1.2 reason now, reason)
    if admitted.isEmpty then recordShed engine verdicts dead deadIds now shed [] false store
    else
      match enqueue admitted store with
      | (.error e, store) => (.error e, store)
      | (.ok done, store) => recordShed engine verdicts dead deadIds now shed done true store

def withQuota {T : Type} (news : List Draft) (deadIds : Nat → String) (now : Int)
    (enqueue : List Draft → S → Result (List T) × S) (shed : Job → T)
    (d : Depot S) : Result (List T) × Depot S :=
  match admitJobs engine quotas (news.map Prod.fst) now d with
  | (.error e, d) => (.error e, d)
  | (.ok verdicts, d) =>
    let (results, store) := enqueueJudged engine news verdicts deadIds now enqueue shed d.store
    (results, { d with store := store })

def single {T : Type} : Result (List T) → Result T
  | .error e => .error e
  | .ok results =>
    match results.getLast? with
    | some result => .ok result
    | none => .error (.other "enqueue returned no job")

end FlexiQ.Quota
