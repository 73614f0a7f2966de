/-
# `Quota.Grpc` — `EnqueueBatch`, and where a batch can half land

`grpc/producer/enqueue.rs`.  A batch request is validated as a whole, and then
submitted one of two ways: as one unique batch where the backend has
transactions, item by item where it has not.  "The failure shape follows the
backend", and either way there is one result for each item, in order.

What is answered for an item that was there already is checked against the
caller's grants, and concealed where they do not reach.
-/
import FlexiQ.Quota.Batch

namespace FlexiQ.Quota

open List FlexiQ.Lib FlexiQ.Resilience

/-! ## The door -/

/-- What a `WireError` says, as far as this door raises it. -/
inductive WireCause
  | queue (error : QueueError)
  | invalidRequest (message : String)
  | beyondGrant (queue taskName : Option String)
  | deduplicatedBeyondGrant
  deriving DecidableEq, Repr

structure WireError where
  cause : WireCause
  index : Option Nat
  deriving DecidableEq, Repr

def WireError.atIndex (e : WireError) (index : Nat) : WireError := { e with index := some index }

def WireError.fromQueueError (e : QueueError) : WireError := ⟨.queue e, none⟩

/-- `Scoped`: the namespace of the caller's credential, and what its grants
reach. -/
structure Scoped where
  «namespace» : String
  reaches : Option String → Option String → Bool

structure EnqueueItem where
  job : NewJob
  debounce : Option DebounceOptions

inductive Dispatch
  | plain
  | unique
  | debounced (options : DebounceOptions)

structure Prepared where
  job : NewJob
  dispatch : Dispatch

inductive ItemResult
  | enqueued (job : Job) (deduplicated : Bool)
  | error (e : WireError)
  deriving DecidableEq, Repr

/-- `prepare`, of an item that decodes or does not. -/
def prepare (caller : Scoped) (item : Except WireError EnqueueItem) : Except WireError Prepared :=
  item.map fun item =>
    let dispatch := match item.debounce with
      | some options => .debounced options
      | none => if item.job.uniqueKey.isSome then .unique else .plain
    ⟨{ item.job with «namespace» := some caller.namespace }, dispatch⟩

def Scoped.require (caller : Scoped) (queue taskName : Option String) : Except WireError Unit :=
  if caller.reaches queue taskName then .ok () else .error ⟨.beyondGrant queue taskName, none⟩

def Scoped.admitItem (caller : Scoped) (prepared : Prepared) : Except WireError Unit := do
  caller.require (some prepared.job.queue) (some prepared.job.taskName)
  match prepared.dispatch with
  | .debounced _ => caller.require none none
  | _ => return ()

/-- The validation loop of `batch`, from an index on. -/
def prepareAll (caller : Scoped) : Nat → List (Except WireError EnqueueItem) →
    Except WireError (List Prepared)
  | _, [] => .ok []
  | index, item :: rest =>
    match prepare caller item with
    | .error e => .error (e.atIndex index)
    | .ok item =>
      match caller.admitItem item with
      | .error e => .error (e.atIndex index)
      | .ok () =>
        match item.dispatch with
        | .debounced _ =>
          .error ⟨.invalidRequest
            "options.debounce is not available in a batch; enqueue a debounced job on its own",
            some index⟩
        | _ => (prepareAll caller (index + 1) rest).map (item :: ·)

variable {S : Type} (engine : Engine S)
  (quotas : QuotaCache)

def Prepared.submit (supply : Supply) (prepared : Prepared) (d : Depot S) :
    Result (Job × Bool) × Depot S :=
  match prepared.dispatch with
  | .debounced options =>
    let (job, d) := Quota.enqueueDebounced engine quotas supply prepared.job options d
    (job.map fun job => (job, false), d)
  | .unique => Quota.enqueueUniqueReporting engine quotas supply prepared.job d
  | .plain =>
    let (job, d) := Quota.enqueue engine quotas supply prepared.job d
    (job.map fun job => (job, false), d)

def enqueued (row : Job × Bool) : ItemResult := .enqueued row.1 row.2

/-- The arm of one item that was submitted alone. -/
def itemResult (index : Nat) : Result (Job × Bool) → ItemResult
  | .ok row => enqueued row
  | .error e => .error ((WireError.fromQueueError e).atIndex index)

def submitAtomically (supply : Supply) (prepared : List Prepared) (d : Depot S) :
    Except WireError (List ItemResult) × Depot S :=
  let (rows, d) := enqueueUniqueBatchReporting engine quotas supply (prepared.map Prepared.job) d
  ((rows.mapError WireError.fromQueueError).map (List.map enqueued), d)

/-- `submit_one_at_a_time`, from an index on. -/
def submitOneAtATime (supply : Nat → Supply) : Nat → List Prepared → Depot S →
    List ItemResult × Depot S
  | _, [], d => ([], d)
  | index, item :: rest, d =>
    let (answer, d) := item.submit engine quotas (supply index) d
    let (others, d) := submitOneAtATime supply (index + 1) rest d
    (itemResult index answer :: others, d)

def batchIsAtomic : Backend → Bool
  | .sqlite | .postgres => true
  | .redis => false

def concealItem (caller : Scoped) (index : Nat) : ItemResult → ItemResult
  | .enqueued job true =>
    if caller.reaches (some job.queue) (some job.taskName) then .enqueued job true
    else .error ⟨.deduplicatedBeyondGrant, some index⟩
  | result => result

/-- `EnqueueBatch`, of a caller.  Each submission brings its own ids and
clock. -/
def batch (caller : Scoped) (supply : Nat → Supply) (items : List (Except WireError EnqueueItem))
    (d : Depot S) : Except WireError (List ItemResult) × Depot S :=
  if items.isEmpty then (.ok [], d)
  else
    match prepareAll caller 0 items with
    | .error e => (.error e, d)
    | .ok prepared =>
      let (results, d) :=
        if batchIsAtomic engine.backend then
          submitAtomically engine quotas (supply 0) prepared d
        else
          let (results, d) := submitOneAtATime engine quotas supply 0 prepared d
          (.ok results, d)
      (results.map fun results => results.zipIdx.map fun e => concealItem caller e.2 e.1, d)

/-! ## What becomes of a request -/

variable {engine quotas}

/-- How the call for one item can end, of those a batch may hold. -/
inductive Alone (engine : Engine S) (supply : Supply) (prepared : Prepared) (s : S) :
    Result (Job × Bool) → S → Prop
  | plain {landing : Option String → Landing} {rows : Result (List Job)} {s' : S}
      (hplain : prepared.dispatch = .plain)
      (hcall : Lands engine (one engine.enqueue supply.now) id supply.now (Inserted supply.now)
        (supply.named [prepared.job]) s landing rows s') :
      Alone engine supply prepared s ((single rows).map fun job => (job, false)) s'
  | unique {landing : Option String → Landing} {rows : Result (List (Job × Bool))} {s' : S}
      (hunique : prepared.dispatch = .unique)
      (hcall : Lands engine (one engine.enqueueUniqueReporting supply.now)
        (fun shed => (shed, false)) supply.now (Answered engine supply.now)
        (supply.named [prepared.job]) s landing rows s') :
      Alone engine supply prepared s (single rows) s'

/-- The calls for the items, one after the other. -/
inductive OneByOne (engine : Engine S) (supply : Nat → Supply) :
    Nat → List Prepared → S → List (Result (Job × Bool)) → S → Prop
  | nil {index : Nat} {s : S} : OneByOne engine supply index [] s [] s
  | cons {index : Nat} {prepared : Prepared} {rest : List Prepared} {s s₁ s' : S}
      {answer : Result (Job × Bool)} {answers : List (Result (Job × Bool))}
      (head : Alone engine (supply index) prepared s answer s₁)
      (tail : OneByOne engine supply (index + 1) rest s₁ answers s') :
      OneByOne engine supply index (prepared :: rest) s (answer :: answers) s'

/-- A result for each item, concealed where it has to be. -/
def concealed (caller : Scoped) (results : List ItemResult) : List ItemResult :=
  results.zipIdx.map fun e => concealItem caller e.2 e.1

/-- How a request can end: refused as a request, submitted as one batch that
lands by namespaces, or submitted item by item. -/
inductive BatchOutcome (engine : Engine S) (caller : Scoped) (supply : Nat → Supply)
    (items : List (Except WireError EnqueueItem)) (d : Depot S) :
    Except WireError (List ItemResult) → Depot S → Prop
  | empty (hitems : items = []) : BatchOutcome engine caller supply items d (.ok []) d
  | invalid {e : WireError} (hitems : prepareAll caller 0 items = .error e) :
      BatchOutcome engine caller supply items d (.error e) d
  | atOnce {prepared : List Prepared} {landing : Option String → Landing}
      {answer : Result (List (Job × Bool))} {d' : Depot S}
      (hatomic : batchIsAtomic engine.backend = true)
      (hitems : prepareAll caller 0 items = .ok prepared)
      (hcall : Lands engine
        (fun jobs => engine.enqueueUniqueBatchReporting jobs (supply 0).now)
        (fun shed => (shed, false)) (supply 0).now (Answered engine (supply 0).now)
        ((supply 0).named (prepared.map Prepared.job)) d.store landing answer d'.store) :
      BatchOutcome engine caller supply items d
        ((answer.mapError WireError.fromQueueError).map fun rows =>
          concealed caller (rows.map enqueued)) d'
  | oneByOne {prepared : List Prepared} {answers : List (Result (Job × Bool))} {d' : Depot S}
      (hatomic : batchIsAtomic engine.backend = false)
      (hitems : prepareAll caller 0 items = .ok prepared)
      (hcalls : OneByOne engine supply 0 prepared d.store answers d'.store) :
      BatchOutcome engine caller supply items d
        (.ok (concealed caller (answers.zipIdx.map fun e => itemResult e.2 e.1))) d'

/-- No item of a batch is debounced. -/
theorem prepareAll_dispatch {caller : Scoped} : ∀ {index : Nat}
    {items : List (Except WireError EnqueueItem)} {prepared : List Prepared},
    prepareAll caller index items = .ok prepared →
      ∀ p ∈ prepared, p.dispatch = .plain ∨ p.dispatch = .unique
  | index, [], prepared, h => by
    cases h
    exact fun p hp => nomatch hp
  | index, item :: rest, prepared, h => by
    unfold prepareAll at h
    split at h
    · cases h
    · next item' hitem =>
      split at h
      · cases h
      · split at h
        · cases h
        · next hdispatch =>
          obtain ⟨others, hrest, rfl⟩ := map_eq_ok.mp h
          intro p hp
          rcases mem_cons.mp hp with rfl | hp
          · cases hp' : p.dispatch with
            | plain => exact .inl rfl
            | unique => exact .inr rfl
            | debounced options => exact absurd hp' (hdispatch options)
          · exact prepareAll_dispatch hrest p hp

theorem one_replies {T : Type} {R : Draft → T → Prop} {f : Draft → Int → S → Result T × S}
    {now : Int} (hf : ∀ job s row s', f job now s = (.ok row, s') → R job row)
    {jobs : List Draft} (hone : jobs.length ≤ 1) {s s' : S} {rows : List T}
    (h : one f now jobs s = (.ok rows, s')) : List.Forall₂ R jobs rows := by
  cases jobs with
  | nil =>
    cases h
    exact .nil
  | cons job rest =>
    obtain rfl : rest = [] := length_eq_zero_iff.mp (by simpa using hone)
    unfold one at h
    dsimp only at h
    generalize hcall : f job now s = answer at h
    obtain ⟨answer, s₁⟩ := answer
    cases answer with
    | error => cases h
    | ok row =>
      cases h
      exact .cons (hf job s row _ hcall) .nil

theorem handed_le (landing : Option String → Landing) (supply : Supply) (job : NewJob) :
    (handed landing (supply.named [job])).length ≤ 1 :=
  (length_filter_le _ _).trans (by simp [Supply.named])

theorem one_outcome {T : Type} {R : Draft → T → Prop} {f : Draft → Int → S → Result T × S}
    (quotas : QuotaCache) (supply : Supply)
    (hf : ∀ job s row s', f job supply.now s = (.ok row, s') → R job row) (shed : Job → T)
    (new : NewJob) (d : Depot S) :
    let ended := withQuota engine quotas (supply.named [new]) supply.deadIds supply.now
      (one f supply.now) shed d
    ∃ landing, Lands engine (one f supply.now) shed supply.now R (supply.named [new]) d.store
      landing ended.1 ended.2.store := by
  obtain ⟨landing, h⟩ := withQuota_outcome (supply.named [new]) supply.deadIds d
  exact ⟨landing, h.lands fun _ _ hcall => one_replies hf (handed_le landing supply new) hcall⟩

theorem submit_outcome (hreplies : Replies engine) (quotas : QuotaCache) (supply : Supply)
    {prepared : Prepared} (hdispatch : prepared.dispatch = .plain ∨ prepared.dispatch = .unique)
    (d : Depot S) :
    Alone engine supply prepared d.store (prepared.submit engine quotas supply d).1
      (prepared.submit engine quotas supply d).2.store := by
  unfold Prepared.submit
  rcases hdispatch with hplain | hunique
  · obtain ⟨landing, hcall⟩ := one_outcome quotas supply
      (fun job s row s' => hreplies.single job supply.now s row s') id prepared.job d
    rw [hplain]
    exact .plain hplain hcall
  · obtain ⟨landing, hcall⟩ := one_outcome quotas supply
      (fun job s row s' hrow => (⟨s, s', hrow⟩ : Answered engine supply.now job row))
      (fun shed => (shed, false)) prepared.job d
    rw [hunique]
    exact .unique hunique hcall

theorem submitOneAtATime_outcome (hreplies : Replies engine) (quotas : QuotaCache)
    (supply : Nat → Supply) : ∀ (index : Nat) (prepared : List Prepared) (d : Depot S),
    (∀ p ∈ prepared, p.dispatch = .plain ∨ p.dispatch = .unique) →
    ∃ answers, OneByOne engine supply index prepared d.store answers
        (submitOneAtATime engine quotas supply index prepared d).2.store ∧
      (submitOneAtATime engine quotas supply index prepared d).1 =
        (answers.zipIdx index).map fun e => itemResult e.2 e.1
  | index, [], d, _ => ⟨[], .nil, rfl⟩
  | index, item :: rest, d, h => by
    obtain ⟨answers, hcalls, hresults⟩ := submitOneAtATime_outcome hreplies quotas supply
      (index + 1) rest (item.submit engine quotas (supply index) d).2 fun p hp =>
        h p (mem_cons_of_mem _ hp)
    refine ⟨(item.submit engine quotas (supply index) d).1 :: answers, ?_, ?_⟩
    · exact .cons (submit_outcome hreplies quotas (supply index) (h item mem_cons_self) d) hcalls
    · exact congrArg (itemResult index (item.submit engine quotas (supply index) d).1 :: ·) hresults

theorem uniqueBatch_outcome (hreplies : Replies engine) (quotas : QuotaCache) (supply : Supply)
    (news : List NewJob) (d : Depot S) :
    ∃ landing, Lands engine (fun jobs => engine.enqueueUniqueBatchReporting jobs supply.now)
      (fun shed => (shed, false)) supply.now (Answered engine supply.now) (supply.named news)
      d.store landing (enqueueUniqueBatchReporting engine quotas supply news d).1
      (enqueueUniqueBatchReporting engine quotas supply news d).2.store := by
  obtain ⟨landing, h⟩ := withQuota_outcome (supply.named news) supply.deadIds d
  exact ⟨landing, h.lands fun rows s' hcall =>
    hreplies.uniqueBatch _ supply.now d.store rows s' hcall⟩

theorem batch_outcome (hreplies : Replies engine) (quotas : QuotaCache) (caller : Scoped)
    (supply : Nat → Supply) (items : List (Except WireError EnqueueItem)) (d : Depot S) :
    BatchOutcome engine caller supply items d (batch engine quotas caller supply items d).1
      (batch engine quotas caller supply items d).2 := by
  unfold batch
  split
  · next hempty => exact .empty (isEmpty_iff.mp hempty)
  · cases hitems : prepareAll caller 0 items with
    | error e => exact .invalid hitems
    | ok prepared =>
      dsimp only
      split
      · next hatomic =>
        obtain ⟨landing, hcall⟩ := uniqueBatch_outcome hreplies quotas (supply 0)
          (prepared.map Prepared.job) d
        have hsame : ∀ answer : Result (List (Job × Bool)),
            ((answer.mapError WireError.fromQueueError).map (List.map enqueued)).map
                (concealed caller) =
              (answer.mapError WireError.fromQueueError).map fun rows =>
                concealed caller (rows.map enqueued) := by
          intro answer
          cases answer <;> rfl
        exact (hsame _).symm ▸ .atOnce hatomic hitems hcall
      · next hatomic =>
        obtain ⟨answers, hcalls, hresults⟩ := submitOneAtATime_outcome hreplies quotas supply 0
          prepared d (prepareAll_dispatch hitems)
        rw [hresults]
        exact .oneByOne (eq_false_of_ne_true hatomic) hitems hcalls

/-- **How a batch lands**: one call lands by namespaces, and `EnqueueBatch` is
one call where the backend has transactions and a call for each item where it
has not. -/
theorem batch_lands_whole (serde : Serde) (b : Backend)
    (quotas : Option String → Except QueueError (Option QuotaDocument))
    (d : Depot (StoreOf b)) :
    (∀ supply news, ∃ landing,
      Lands (engineOf serde b) (fun jobs => (engineOf serde b).enqueueBatch jobs supply.now) id
        supply.now (Inserted supply.now) (supply.named news) d.store landing
        (enqueueBatch (engineOf serde b) quotas supply news d).1
        (enqueueBatch (engineOf serde b) quotas supply news d).2.store) ∧
    (∀ supply news, ∃ landing answer,
      Lands (engineOf serde b)
        (fun jobs => (engineOf serde b).enqueueUniqueBatchReporting jobs supply.now)
        (fun shed => (shed, false)) supply.now (Answered (engineOf serde b) supply.now)
        (supply.named news) d.store landing answer
        (enqueueUniqueBatch (engineOf serde b) quotas supply news d).2.store ∧
      (enqueueUniqueBatch (engineOf serde b) quotas supply news d).1 =
        answer.map (List.map Prod.fst)) ∧
    ∀ (caller : Scoped) supply items,
      BatchOutcome (engineOf serde b) caller supply items d
        (batch (engineOf serde b) quotas caller supply items d).1
        (batch (engineOf serde b) quotas caller supply items d).2 := by
  have hreplies := replies_engineOf serde b
  refine ⟨fun supply news => ?_, fun supply news => ?_, fun caller supply items => ?_⟩
  · obtain ⟨landing, h⟩ := withQuota_outcome (supply.named news) supply.deadIds d
    exact ⟨landing, h.lands fun rows s' hcall =>
      hreplies.batch _ supply.now d.store rows s' hcall⟩
  · obtain ⟨landing, h⟩ := uniqueBatch_outcome hreplies quotas supply news d
    exact ⟨landing, _, h, rfl⟩
  · exact batch_outcome hreplies quotas caller supply items d

open FlexiQ.Sql (noJson plainJob)

def wholeCaller : Scoped := ⟨"t", fun _ _ => true⟩

def onePendingForT : QuotaCache
  | some "t" => .ok (some ⟨⟨some 1, .reject, none, none⟩, ""⟩)
  | _ => .ok none

def twoIds (n : Nat) : Supply := ⟨fun k => if n + k = 0 then "a" else "b", fun _ => "d", 5⟩

def twoPlain : List (Except WireError EnqueueItem) :=
  [.ok ⟨plainJob [], none⟩, .ok ⟨plainJob [], none⟩]

def narrowCaller : Scoped := ⟨"t", fun queue _ => queue = some "q"⟩

def keyed (queue : String) : NewJob :=
  { plainJob [] with «namespace» := some "t", uniqueKey := some "k", queue := queue }

/-- On Redis the request half lands: the first job is enqueued, and the second
refused by the quota they share. -/
theorem grpc_batch_half_lands :
    (batch (RedisEngine.engine noJson) onePendingForT wholeCaller twoIds twoPlain
        ⟨.empty, .empty⟩).1 =
      .ok [.enqueued ({ plainJob [] with «namespace» := some "t" }.intoJob "a" 5) false,
        .error ⟨.queue (.queueFull "q" 1 1), some 1⟩] ∧
    (batch (RedisEngine.engine noJson) onePendingForT wholeCaller twoIds twoPlain
        ⟨.empty, .empty⟩).2.store.jobs.rows =
      [{ plainJob [] with «namespace» := some "t" }.intoJob "a" 5] ∧
    ∃ row s, Sql.enqueueUnique .empty (keyed "hidden") "x" 0 = .ok (row, s) ∧
      (enqueueUniqueBatchReporting (SqlEngine.engine .sqlite noJson) (fun _ => .ok none) (twoIds 0)
        [keyed "q"] ⟨s, .empty⟩).1 = .ok [(row.1, true)] ∧
      (batch (SqlEngine.engine .sqlite noJson) (fun _ => .ok none) narrowCaller twoIds
        [.ok ⟨keyed "q", none⟩] ⟨s, .empty⟩).1 =
          .ok [.error ⟨.deduplicatedBeyondGrant, some 0⟩] := by
  refine ⟨by decide +kernel, by decide +kernel, _, _, rfl, ?_⟩
  decide +kernel

end FlexiQ.Quota
