/-
# `Quota.Producers` — every door a job can come in by

The enqueue forwarders of `StorageBackend` (`storage/mod.rs`), and what is
built on them: the batch that picks its forwarder by its keys, a publish
(`pubsub.rs`), a periodic fire (`periodic.rs`, `scheduler/maintenance.rs`).
All of them pass the gate.  `retry_dead` does not: it is handed to the backend
as it is, and so is the dead-letter auto-retry, which calls it.
-/
import FlexiQ.Quota.Admission

namespace FlexiQ.Quota

open FlexiQ.Lib FlexiQ.Resilience

/-- What a door brings from outside: ids for the jobs and for the entries of
what is shed, and the clock. -/
structure Supply where
  jobIds : Nat → String
  deadIds : Nat → String
  now : Int

def Supply.named (supply : Supply) (news : List NewJob) : List Draft :=
  news.zipIdx.map fun e => (e.1, supply.jobIds e.2)

variable {S : Type} (engine : Engine S)
  (quotas : QuotaCache)

/-! ## The forwarders -/

/-- The closure of a forwarder that takes one job. -/
def one {T : Type} (enqueue : Draft → Int → S → Result T × S) (now : Int)
    (admitted : List Draft) (store : S) : Result (List T) × S :=
  match admitted with
  | [] => (.ok [], store)
  | job :: _ =>
    let (done, store) := enqueue job now store
    (done.map fun result => [result], store)

section

variable (supply : Supply)

def enqueue (new : NewJob) (d : Depot S) : Result Job × Depot S :=
  let (jobs, d) := withQuota engine quotas (supply.named [new]) supply.deadIds supply.now
    (one engine.enqueue supply.now) id d
  (single jobs, d)

def enqueueBatch (news : List NewJob) (d : Depot S) : Result (List Job) × Depot S :=
  withQuota engine quotas (supply.named news) supply.deadIds supply.now
    (fun admitted => engine.enqueueBatch admitted supply.now) id d

def enqueueUniqueReporting (new : NewJob) (d : Depot S) : Result (Job × Bool) × Depot S :=
  let (jobs, d) := withQuota engine quotas (supply.named [new]) supply.deadIds supply.now
    (one engine.enqueueUniqueReporting supply.now) (fun shed => (shed, false)) d
  (single jobs, d)

def enqueueUnique (new : NewJob) (d : Depot S) : Result Job × Depot S :=
  let (job, d) := enqueueUniqueReporting engine quotas supply new d
  (job.map Prod.fst, d)

def enqueueUniqueBatchReporting (news : List NewJob) (d : Depot S) :
    Result (List (Job × Bool)) × Depot S :=
  withQuota engine quotas (supply.named news) supply.deadIds supply.now
    (fun admitted => engine.enqueueUniqueBatchReporting admitted supply.now)
    (fun shed => (shed, false)) d

def enqueueUniqueBatch (news : List NewJob) (d : Depot S) : Result (List Job) × Depot S :=
  let (jobs, d) := enqueueUniqueBatchReporting engine quotas supply news d
  (jobs.map (List.map Prod.fst), d)

def enqueueDebounced (new : NewJob) (options : DebounceOptions) (d : Depot S) :
    Result Job × Depot S :=
  let (jobs, d) := withQuota engine quotas (supply.named [new]) supply.deadIds supply.now
    (one (fun job => engine.enqueueDebounced job options) supply.now) id d
  (single jobs, d)

/-- `enqueue_batch_dedup`: one keyed job sends the whole batch through the
unique path. -/
def enqueueBatchDedup (news : List NewJob) (d : Depot S) : Result (List Job) × Depot S :=
  if news.any fun new => new.uniqueKey.isSome then enqueueUniqueBatch engine quotas supply news d
  else enqueueBatch engine quotas supply news d

end

/-! ## Publishing -/

structure DeliveryDefaults where
  priority : Int
  maxRetries : Int
  timeoutMs : Int

structure PublishRequest where
  topic : String
  payload : Bytes
  idempotencyKey : Option String
  metadata : Option String
  notes : Option String
  priority : Option Int
  scheduledAt : Int
  maxRetries : Option Int
  timeoutMs : Option Int
  expiresAt : Option Int
  resultTtlMs : Option Int
  «namespace» : Scope
  queueDefaults : DeliveryDefaults

structure Subscription where
  subscriptionName : String
  taskName : String
  queue : String
  priority : Option Int
  maxRetries : Option Int
  timeoutMs : Option Int
  isLog : Bool

def saltedUniqueKey (key topic subscriptionName : String) : String :=
  key ++ "::" ++ toString topic.utf8ByteSize ++ ":" ++ toString subscriptionName.utf8ByteSize ++
    ":" ++ topic ++ subscriptionName

theorem toList_saltedUniqueKey (key topic name : String) :
    (saltedUniqueKey key topic name).toList = key.toList ++ ':' :: ':' ::
      (Nat.toDigits 10 topic.utf8ByteSize ++ ':' :: (Nat.toDigits 10 name.utf8ByteSize ++
        ':' :: (topic ++ name).toList)) := by
  simp [saltedUniqueKey, String.toList_append, toString, Nat.repr]

/-- A text `::a:b` with two numbers, cut before a later `::`: the numbers are in
the first part. -/
theorem salt_in_salt {a b r w y : List Char} (ha : ':' ∉ a) (hb : ':' ∉ b) (ha0 : a ≠ [])
    (hb0 : b ≠ []) (hw : w ≠ [])
    (h : ':' :: ':' :: (a ++ ':' :: (b ++ r)) = w ++ ':' :: ':' :: y) :
    ∃ u, w = ':' :: ':' :: (a ++ ':' :: (b ++ u)) ∧ r = u ++ ':' :: ':' :: y := by
  have hstart : ∀ {l t s : List Char}, ':' ∉ l → l ≠ [] → l ++ t ≠ ':' :: s := by
    intro l t s hl hne heq
    cases l with
    | nil => exact hne rfl
    | cons d l => exact hl ((List.cons.inj heq).1 ▸ List.mem_cons_self)
  match w, hw with
  | [_], _ => exact absurd (List.cons.inj (List.cons.inj h).2).2 (hstart ha ha0)
  | _ :: _ :: w, _ =>
    simp only [List.cons_append, List.cons.injEq] at h
    obtain ⟨rfl, rfl, hrest⟩ := h
    obtain ⟨v, rfl, hv⟩ := field_first ha hrest
    cases v with
    | nil => exact absurd (List.cons.inj hv).2 (hstart hb hb0)
    | cons d v =>
      simp only [List.cons_append, List.cons.injEq] at hv
      obtain ⟨rfl, hv⟩ := hv
      obtain ⟨u, rfl, hr⟩ := field_first hb hv
      exact ⟨u, rfl, hr⟩

def Overlays (key topic name key' topic' name' : String) : Prop :=
  ∃ rest : String,
    key' = key ++ "::" ++ toString topic.utf8ByteSize ++ ":" ++ toString name.utf8ByteSize ++
      rest ∧
    ":" ++ topic ++ name = rest ++ "::" ++ toString topic'.utf8ByteSize ++ ":" ++
      toString name'.utf8ByteSize ++ ":" ++ topic' ++ name'

theorem saltedUniqueKey_right_injective {key topic topic' name name' : String}
    (h : saltedUniqueKey key topic name = saltedUniqueKey key topic' name') :
    topic = topic' ∧ name = name' := by
  have hdigits := not_mem_toDigits (show ':'.isDigit = false by decide)
  have htext := congrArg String.toList h
  rw [toList_saltedUniqueKey, toList_saltedUniqueKey] at htext
  have hsalt := (List.cons.inj (List.append_cancel_left htext)).2
  obtain ⟨htopic, hsalt⟩ := cut (List.cons.inj hsalt).2 (hdigits _) (hdigits _)
  obtain ⟨-, hparts⟩ := cut hsalt (hdigits _) (hdigits _)
  -- both topics take the same number of bytes of the rest
  have hsize := toDigits_injective htopic
  have hbytes := congrArg String.toByteArray (String.toList_injective hparts)
  rw [String.toByteArray_append, String.toByteArray_append,
    ByteArray.append_eq_append_iff_of_size_eq_left hsize] at hbytes
  exact ⟨String.toByteArray_inj.mp hbytes.1, String.toByteArray_inj.mp hbytes.2⟩

section Salted

variable {key key' topic topic' name name' : String}

theorem salted_of_overlays (h : Overlays key topic name key' topic' name') :
    saltedUniqueKey key topic name = saltedUniqueKey key' topic' name' ∧ key ≠ key' := by
  obtain ⟨rest, hkey, hrest⟩ := h
  constructor
  · have hcolon : saltedUniqueKey key topic name = key ++ "::" ++ toString topic.utf8ByteSize ++
        ":" ++ toString name.utf8ByteSize ++ (":" ++ topic ++ name) := by
      simp only [saltedUniqueKey, String.append_assoc]
    rw [hcolon, hrest, hkey]
    simp only [saltedUniqueKey, String.append_assoc]
  · intro heq
    have hlength := congrArg String.length (heq.trans hkey)
    simp only [String.length_append, show "::".length = 2 from rfl] at hlength
    omega

theorem overlays_of_append {w : List Char} (hw : w ≠ []) (hkey : key'.toList = key.toList ++ w)
    (h : saltedUniqueKey key topic name = saltedUniqueKey key' topic' name') :
    Overlays key topic name key' topic' name' := by
  have hdigits := not_mem_toDigits (show ':'.isDigit = false by decide)
  have hne : ∀ n, Nat.toDigits 10 n ≠ [] := fun _ =>
    List.ne_nil_of_length_pos Nat.length_toDigits_pos
  have htext := congrArg String.toList h
  rw [toList_saltedUniqueKey, toList_saltedUniqueKey, hkey, List.append_assoc] at htext
  obtain ⟨u, rfl, hrest⟩ := salt_in_salt (hdigits _) (hdigits _) (hne _) (hne _) hw
    (List.append_cancel_left htext)
  refine ⟨String.ofList u, String.toList_injective ?_, String.toList_injective ?_⟩
  · simp [hkey, toString, Nat.repr]
  · simpa [toString, Nat.repr] using hrest

/-- **When a salted key gives its delivery away**: unless one of the two keys is
the other with a salt behind it. -/
theorem saltedUniqueKey_injective :
    (saltedUniqueKey key topic name = saltedUniqueKey key' topic' name' →
        key = key' ∧ topic = topic' ∧ name = name') ↔
      ¬ Overlays key topic name key' topic' name' ∧
        ¬ Overlays key' topic' name' key topic name := by
  constructor
  · refine fun hsame => ⟨fun h => ?_, fun h => ?_⟩
    · exact (salted_of_overlays h).2 (hsame (salted_of_overlays h).1).1
    · exact (salted_of_overlays h).2 (hsame (salted_of_overlays h).1.symm).1.symm
  · rintro ⟨hleft, hright⟩ heq
    have htext := congrArg String.toList heq
    rw [toList_saltedUniqueKey, toList_saltedUniqueKey] at htext
    -- the longer key is the shorter one and some `w`; if `w` is empty the keys are one
    have hkeys : key = key' := by
      rcases List.append_eq_append_iff.mp htext with ⟨w, hkey, -⟩ | ⟨w, hkey, -⟩
      · by_cases hw : w = []
        · exact String.toList_injective (by simp [hkey, hw])
        · exact absurd (overlays_of_append hw hkey heq) hleft
      · by_cases hw : w = []
        · exact String.toList_injective (by simp [hkey, hw])
        · exact absurd (overlays_of_append hw hkey heq.symm) hright
    subst hkeys
    exact ⟨rfl, saltedUniqueKey_right_injective heq⟩

end Salted

/-- A key that ends like a salt: two publishes under different keys, on
different topics, to different subscribers, and one salted key for both. -/
theorem salt_taken_for_topic :
    saltedUniqueKey "k" "::1:1:ab" "" = saltedUniqueKey "k::8:0:" "a" "b" := by
  decide

def deliveryNotes (serde : Serde) (request : PublishRequest) (sub : Subscription) : String :=
  let notes := match request.notes.bind serde.parse with
    | some (.object notes) => notes
    | _ => .empty
  serde.print ((notes.put "topic" (.str request.topic)).put "subscription"
    (.str sub.subscriptionName))

/-- `delivery_job`: the publish's own setting, then the subscription's, then
the default. -/
def deliveryJob (serde : Serde) (request : PublishRequest) (sub : Subscription) : NewJob where
  queue := sub.queue
  taskName := sub.taskName
  payload := request.payload
  priority := (request.priority <|> sub.priority).getD request.queueDefaults.priority
  scheduledAt := request.scheduledAt
  maxRetries := (request.maxRetries <|> sub.maxRetries).getD request.queueDefaults.maxRetries
  timeoutMs := (request.timeoutMs <|> sub.timeoutMs).getD request.queueDefaults.timeoutMs
  uniqueKey := request.idempotencyKey.map fun key =>
    saltedUniqueKey key request.topic sub.subscriptionName
  metadata := request.metadata
  notes := some (deliveryNotes serde request sub)
  dependsOn := []
  expiresAt := request.expiresAt
  resultTtlMs := request.resultTtlMs
  «namespace» := request.namespace
  debounceKey := none
  enqueuedBy := none

/-- `publish_to_topic`, past the log row it may write: one job for each
subscription that is delivered to. -/
def publishToTopic (serde : Serde) (supply : Supply) (request : PublishRequest)
    (subscriptions : List Subscription) (d : Depot S) : Result (List Job) × Depot S :=
  let jobs := (subscriptions.filter fun sub => !sub.isLog).map (deliveryJob serde request)
  if jobs.isEmpty then (.ok [], d)
  else
    match request.idempotencyKey with
    | none => enqueueBatch engine quotas supply jobs d
    | some _ => enqueueUniqueBatch engine quotas supply jobs d

/-! ## Periodic tasks -/

structure PeriodicTask where
  name : String
  taskName : String
  args : Option Bytes
  queue : String
  «namespace» : Scope

def periodicJob (task : PeriodicTask) (now : Int) (uniqueKey : Option String) : NewJob where
  queue := task.queue
  taskName := task.taskName
  payload := task.args.getD []
  priority := 0
  scheduledAt := now
  maxRetries := 3
  timeoutMs := 300000
  uniqueKey := uniqueKey
  metadata := none
  notes := none
  dependsOn := []
  expiresAt := none
  resultTtlMs := none
  «namespace» := task.namespace
  debounceKey := none
  enqueuedBy := none

def firePeriodic (supply : Supply) (task : PeriodicTask) (d : Depot S) :
    Result (Job × Bool) × Depot S :=
  enqueueUniqueReporting engine quotas supply
    (periodicJob task supply.now
      (some ("periodic:" ++ task.name ++ ":" ++ toString supply.now))) d

/-- `check_periodic`, for the tasks that are due: a fire that fails is only
logged. -/
def checkPeriodic : List (PeriodicTask × Supply) → Depot S → Depot S
  | [], d => d
  | (task, supply) :: rest, d =>
    checkPeriodic rest (firePeriodic engine quotas supply task d).2

/-! ## The dead letters -/

/-- `retry_dead`: delegated, with no gate. -/
def retryDead (deadId : String) (scope : Scope) (newId : String) (now : Int)
    (d : Depot S) : Result String × Depot S :=
  let (done, store) := engine.retryDead deadId scope newId now d.store
  (done, { d with store := store })

/-- The entries of an auto-retry, one after the other; a retry that fails is
only logged. -/
def retryEach (scope : Scope) (now : Int) : List (DeadSummary × String) → Depot S → Depot S
  | [], d => d
  | (entry, newId) :: rest, d =>
    retryEach scope now rest (retryDead engine entry.id scope newId now d).2

def isShedReason (error : Option String) : Bool :=
  error.any fun e => ["codel:", "rate_limit:", "quota:"].any fun mark =>
    mark.toList.isPrefixOf e.toList

def dlqRetryCandidates : Nat := 50

def retryCandidates (cutoff maxRetries : Int) (scope : Scope) (queues : List String)
    (store : S) : List DeadSummary :=
  (engine.listDeadForRetry cutoff maxRetries scope queues dlqRetryCandidates store).filter
    fun entry => !isShedReason entry.error

def autoRetryDlq (cutoff maxRetries : Int) (scope : Scope) (queues : List String)
    (supply : Supply) (d : Depot S) : Depot S :=
  retryEach engine scope supply.now
    ((retryCandidates engine cutoff maxRetries scope queues d.store).zipIdx.map fun e =>
      (e.1, supply.jobIds e.2)) d

end FlexiQ.Quota
