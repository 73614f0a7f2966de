/-
# `Backends.Lineage` — a run across the dead-letter queue

Every backend writes the same entry when a job dies (`deadLetterRow`) and
enqueues the same job when the entry is retried (`Resurrected.reborn`).  The
new job has a new id; that it is the same run stands in its metadata, as the
origin and as the number of resurrections.

The origin and the user's own keys survive any number of deaths, whatever the
dead-letter move was handed in place of the metadata (`run_survives`).  The
counter is an `i32`, read from a field that the user can write: it counts as
long as it is in range, and below zero it buys automatic retries beyond the
limit.  And it is counted along one line of descent: a job that is
dead-lettered twice leaves two entries, and each is retried up to the limit
(`counter_out_of_range`).
-/
import FlexiQ.Core.FlatJson
import FlexiQ.Quota.Engines

namespace FlexiQ.Backends

open Option FlexiQ.Lib FlexiQ.Resilience FlexiQ.Step FlexiQ.Sql FlexiQ.Quota

/-- One death of a job, and one retry of its entry. -/
structure Cycle where
  error : String
  metadata : Option String
  shed : Bool
  deadId : String
  diedAt : Int
  newId : String
  retriedAt : Int

def Cycle.entry (serde : Serde) (c : Cycle) (job : Job) : DeadRow :=
  deadLetterRow serde job c.error c.metadata c.shed c.deadId c.diedAt

def Cycle.reborn (serde : Serde) (c : Cycle) (job : Job) : Job :=
  (retryNewJob serde (c.entry serde job) c.retriedAt).intoJob c.newId c.retriedAt

/-! ## Retries in a store -/

def deadEntry : (b : Resilience.Backend) → StoreOf b → String → Option DeadRow
  | .sqlite, s, id | .postgres, s, id => Table.find (Sql.Store.dead s) id
  | .redis, s, id => Table.find (Redis.Store.dead s) id

def liveJob : (b : Resilience.Backend) → StoreOf b → String → Option Job
  | .sqlite, s, id | .postgres, s, id => Table.find (Sql.Store.jobs s) id
  | .redis, s, id => Table.find (Redis.Store.jobs s) id

/-- The entry of `job`'s death is in the store, and `retry_dead` of it leaves
`job'`. -/
def Resurrected (serde : Serde) (b : Resilience.Backend) (c : Cycle) (s : StoreOf b)
    (job job' : Job) : Prop :=
  deadEntry b s c.deadId = some (c.entry serde job) ∧
    ∃ scope s', (engineOf serde b).retryDead c.deadId scope c.newId c.retriedAt s =
      (.ok c.newId, s') ∧ liveJob b s' c.newId = some job'

/-- `auto_retry_dlq` with the limit `max` picks the entry. -/
def Picked (serde : Serde) (b : Resilience.Backend) (max : Int) (s : StoreOf b)
    (deadId : String) : Prop :=
  ∃ cutoff scope queues, ∃ entry ∈ retryCandidates (engineOf serde b) cutoff max scope queues s,
    entry.id = deadId

theorem sql_reborn {serde : Serde} {c : Cycle} {backend : Resilience.Backend} {s s' : Sql.Store}
    {scope : Scope} {job job' : Job} (hentry : s.dead.find c.deadId = some (c.entry serde job))
    (hretry : (SqlEngine.engine backend serde).retryDead c.deadId scope c.newId c.retriedAt s =
      (.ok c.newId, s')) (hjob : s'.jobs.find c.newId = some job') :
    job' = c.reborn serde job := by
  obtain ⟨⟨row, s₁⟩, hok, heq⟩ := map_eq_ok.mp (committed_ok hretry)
  obtain ⟨-, rfl⟩ := Prod.mk.inj heq
  obtain ⟨dead, s₂, hdead, -, -, hins, rfl⟩ := retryDead_ok hok
  cases hentry.symm.trans hdead
  have hrow : s₂.jobs.find c.newId = some (c.reborn serde job) :=
    ((insertJob_ok hins).2.1 c.newId).trans (if_pos rfl)
  exact Option.some.inj (hjob.symm.trans hrow)

theorem redis_reborn {serde : Serde} {c : Cycle} {s s' : Redis.Store} {scope : Scope}
    {job job' : Job} (hentry : s.dead.find c.deadId = some (c.entry serde job))
    (hretry : (RedisEngine.engine serde).retryDead c.deadId scope c.newId c.retriedAt s =
      (.ok c.newId, s')) (hjob : s'.jobs.find c.newId = some job') :
    job' = c.reborn serde job := by
  have hretry' : RedisEngine.retryDead serde c.deadId scope c.newId c.retriedAt s =
    (.ok c.newId, s') := hretry
  unfold RedisEngine.retryDead at hretry'
  split at hretry'
  · cases hretry'
  · next entry hfound =>
    cases hentry.symm.trans (Option.filter_eq_some_iff.mp hfound).1
    cases hretry'
    have hrow : Table.find (s.jobs.upsert (c.reborn serde job)) (c.reborn serde job).id =
      some job' := hjob
    rw [Table.find_upsert, if_pos rfl] at hrow
    exact (Option.some.inj hrow).symm

variable {serde : Serde} {b : Resilience.Backend} {max : Int}

theorem Resurrected.reborn {c : Cycle} {s : StoreOf b} {job job' : Job}
    (h : Resurrected serde b c s job job') : job' = c.reborn serde job := by
  obtain ⟨hentry, scope, s', hretry, hjob⟩ := h
  cases b with
  | sqlite | postgres => exact sql_reborn hentry hretry hjob
  | redis => exact redis_reborn hentry hretry hjob

/-- What is picked has a counter below the limit. -/
theorem Picked.below {s : StoreOf b} {deadId : String} {row : DeadRow}
    (h : Picked serde b max s deadId) (hrow : deadEntry b s deadId = some row) :
    row.dlqRetryCount < max := by
  obtain ⟨cutoff, scope, queues, entry, hentry, rfl⟩ := h
  have hlisted := (List.mem_filter.mp hentry).1
  have hsql : ∀ {backend : Resilience.Backend} {s : Sql.Store}, s.dead.find entry.id = some row →
      entry ∈ (SqlEngine.engine backend serde).listDeadForRetry cutoff max scope queues
        dlqRetryCandidates s → row.dlqRetryCount < max := by
    intro backend s hrow hlisted
    obtain ⟨row', hmem, rfl⟩ := List.mem_map.mp hlisted
    obtain ⟨hin, hwanted⟩ := List.mem_filter.mp
      ((List.perm_insertionSort _ _).mem_iff.mp (List.mem_of_mem_take hmem))
    have hfind : s.dead.find row'.id = some row' := Table.find_of_mem hin
    cases hfind.symm.trans hrow
    simp only [Bool.and_eq_true, decide_eq_true_eq] at hwanted
    exact hwanted.1.1.1.2
  cases b with
  | sqlite | postgres => exact hsql hrow hlisted
  | redis =>
    obtain ⟨row', hmem, rfl⟩ := List.mem_map.mp hlisted
    obtain ⟨id, -, hsome⟩ := List.mem_filterMap.mp (List.mem_of_mem_take hmem)
    obtain ⟨hfind, hwanted⟩ := Option.filter_eq_some_iff.mp hsome
    have hid : row'.id = id := Table.key_of_find hfind
    have hrow' : Table.find (Redis.Store.dead s) id = some row := hid ▸ hrow
    cases hfind.symm.trans hrow'
    simp only [Bool.and_eq_true, decide_eq_true_eq] at hwanted
    exact hwanted.1.1.2

/-- What becomes of `job` in `n` cycles, `auto` of them by `auto_retry_dlq` with
the limit `max`. -/
inductive Descends (serde : Serde) (b : Resilience.Backend) (max : Int) (job : Job) :
    Nat → Nat → Job → Prop
  | self : Descends serde b max job 0 0 job
  | ran {n auto : Nat} {j j' : Job} (h : Descends serde b max job n auto j) (hid : j'.id = j.id)
      (hmetadata : j'.metadata = j.metadata) : Descends serde b max job n auto j'
  | retried {n auto : Nat} {j j' : Job} {s : StoreOf b} (c : Cycle)
      (h : Descends serde b max job n auto j) (hretry : Resurrected serde b c s j j') :
      Descends serde b max job (n + 1) auto j'
  | autoRetried {n auto : Nat} {j j' : Job} {s : StoreOf b} (c : Cycle)
      (h : Descends serde b max job n auto j) (hretry : Resurrected serde b c s j j')
      (hpicked : Picked serde b max s c.deadId) : Descends serde b max job (n + 1) (auto + 1) j'

def field (serde : Serde) (metadata : Option String) (key : String) : Option Value :=
  (metadata.bind serde.parse).bind (Json.get key)

section Blobs

theorem dlqRetryCount_eq (metadata : Option String) : dlqRetryCount serde metadata =
    asI32 (((field serde metadata dlqRetryCountKey).bind Value.asI64).getD 0) := by
  unfold dlqRetryCount field
  cases metadata.bind serde.parse <;> rfl

theorem originJobId_eq (metadata : Option String) : originJobId serde metadata =
    ((field serde metadata originJobIdKey).bind Value.asStr).bind nonBlank := by
  unfold field
  cases metadata with
  | none => rfl
  | some text =>
    show (serde.parse text).bind _ = _
    cases hparse : serde.parse text with
    | none => simp [hparse]
    | some json =>
      simp only [bind_some, hparse]
      cases json.get originJobIdKey <;> rfl

theorem field_print (hserde : serde.Lawful) (m : JsonMap) (key : String) :
    (field serde (some (serde.print m)) key).isSome = (m.get key).isSome ∧
      ∀ v, m.get key = some v → v.Exact → field serde (some (serde.print m)) key = some v := by
  obtain ⟨m', hparse, hget⟩ := hserde m
  unfold field
  rw [bind_some, hparse]
  exact hget key

theorem asI32_of_mem {n : Int} (hlow : -2 ^ 31 ≤ n) (hhigh : n < 2 ^ 31) : asI32 n = n := by
  unfold asI32
  omega

theorem asI32_range (n : Int) : -2 ^ 31 ≤ asI32 n ∧ asI32 n < 2 ^ 31 := by
  unfold asI32
  omega

end Blobs

/-! ## One cycle -/

section Cycles

variable {job j : Job} (c : Cycle)

/-- The user's keys are in the new metadata as they were in the old. -/
theorem retryMetadata_get {key : String} {v : Value} (horigin : key ≠ originJobIdKey)
    (hcount : key ≠ dlqRetryCountKey) (hv : field serde j.metadata key = some v) :
    (retryMetadata serde (c.entry serde j)).get key = some v := by
  obtain ⟨json, hjson, hjv⟩ := bind_eq_some_iff.mp hv
  obtain ⟨text, htext, hparse⟩ := bind_eq_some_iff.mp hjson
  have hown : ((c.entry serde j).jobMetadata <|> (c.entry serde j).metadata) = some text := by
    show ((c.metadata.bind fun _ => j.metadata) <|> (c.metadata <|> j.metadata)) = _
    cases c.metadata <;> rw [htext] <;> rfl
  unfold retryMetadata stampOriginJobId
  rw [JsonMap.get_put, if_neg horigin.symm, JsonMap.get_put, if_neg hcount.symm, hown,
    bind_some, hparse]
  cases json with
  | object m => exact hjv
  | other => cases hjv

section

variable (hserde : serde.Lawful)
include hserde

theorem reborn_field {key : String} {v : Value}
    (hv : (retryMetadata serde (c.entry serde j)).get key = some v) (hexact : v.Exact) :
    field serde (c.reborn serde j).metadata key = some v :=
  (field_print hserde _ key).2 v hv hexact

theorem reborn_count : dlqRetryCount serde (c.reborn serde j).metadata =
    asI32 (dlqRetryCount serde j.metadata + 1) := by
  have hget : (retryMetadata serde (c.entry serde j)).get dlqRetryCountKey =
      some (.int (asI32 (dlqRetryCount serde j.metadata + 1))) := by
    unfold retryMetadata stampOriginJobId
    rw [JsonMap.get_put, if_neg (by decide), JsonMap.get_put, if_pos rfl]
    rfl
  obtain ⟨hlow, hhigh⟩ := asI32_range (dlqRetryCount serde j.metadata + 1)
  have hexact : (Value.int (asI32 (dlqRetryCount serde j.metadata + 1))).Exact :=
    ⟨by omega, by omega⟩
  rw [dlqRetryCount_eq, reborn_field c hserde hget hexact, bind_some, Value.asI64,
    if_pos (by omega), getD_some]
  exact asI32_of_mem hlow hhigh

theorem reborn_runKey (hkey : runKey serde j ≠ "") :
    runKey serde (c.reborn serde j) = runKey serde j := by
  have hget : (retryMetadata serde (c.entry serde j)).get originJobIdKey =
      some (.str (runKey serde j)) := by
    unfold retryMetadata stampOriginJobId
    rw [JsonMap.get_put, if_pos rfl]
    show some (Value.str ((((nonBlank (runKey serde j)).or _)).getD _)) = _
    rw [nonBlank, if_neg hkey]
    rfl
  have horigin : originJobId serde (c.reborn serde j).metadata = some (runKey serde j) := by
    rw [originJobId_eq, reborn_field c hserde hget trivial]
    exact if_neg hkey
  rw [runKey, horigin]
  rfl

end

end Cycles

/-! ## Any number of cycles -/

structure SameRun (serde : Serde) (job : Job) (n : Nat) (j : Job) : Prop where
  key : runKey serde j = runKey serde job
  kept : ∀ key, key ≠ originJobIdKey → key ≠ dlqRetryCountKey →
    (field serde job.metadata key).isSome = true → (field serde j.metadata key).isSome = true
  values : ∀ key v, key ≠ originJobIdKey → key ≠ dlqRetryCountKey → v.Exact →
    field serde job.metadata key = some v → field serde j.metadata key = some v
  count : dlqRetryCount serde j.metadata = dlqRetryCount serde job.metadata + n

theorem runKey_ne_blank {job : Job} (hid : job.id ≠ "") :
    runKey serde job ≠ "" := by
  unfold runKey
  cases horigin : originJobId serde job.metadata with
  | none => exact hid
  | some origin =>
    rw [originJobId_eq] at horigin
    obtain ⟨_, -, hblank⟩ := bind_eq_some_iff.mp horigin
    unfold nonBlank at hblank
    split at hblank
    · cases hblank
    · next hne =>
      cases hblank
      exact hne

theorem SameRun.reborn (hserde : serde.Lawful) {job j : Job} {n : Nat}
    (hid : job.id ≠ "") (hlow : 0 ≤ dlqRetryCount serde job.metadata)
    (hhigh : dlqRetryCount serde job.metadata + (n + 1 : Nat) < 2 ^ 31) (h : SameRun serde job n j)
    (c : Cycle) : SameRun serde job (n + 1) (c.reborn serde j) where
  key := by rw [reborn_runKey c hserde (h.key ▸ runKey_ne_blank hid), h.key]
  kept key horigin hdlq hsome := by
    obtain ⟨v, hv⟩ := Option.isSome_iff_exists.mp (h.kept key horigin hdlq hsome)
    have hget := retryMetadata_get c horigin hdlq hv
    exact (field_print hserde _ key).1.trans (by rw [hget, isSome_some])
  values key v horigin hdlq hexact hv :=
    reborn_field c hserde
      (retryMetadata_get c horigin hdlq (h.values key v horigin hdlq hexact hv)) hexact
  count := by
    push_cast at hhigh ⊢
    rw [reborn_count c hserde, h.count, asI32_of_mem] <;> omega

/-- **A run survives its deaths**, on any backend, and no more of the
resurrections on its line are automatic than the limit allows. -/
theorem run_survives {serde : Serde} {b : Resilience.Backend} (hserde : serde.Lawful) {max : Int}
    {job j : Job} {n auto : Nat} (hid : job.id ≠ "")
    (hlow : 0 ≤ dlqRetryCount serde job.metadata)
    (hhigh : dlqRetryCount serde job.metadata + n < 2 ^ 31)
    (h : Descends serde b max job n auto j) : SameRun serde job n j ∧ auto ≤ max.toNat := by
  -- An automatic retry is of a death that the counter puts below the limit.
  suffices hall : SameRun serde job n j ∧ auto ≤ n ∧ auto ≤ max.toNat from ⟨hall.1, hall.2.2⟩
  induction h with
  | self =>
    exact ⟨⟨rfl, fun _ _ _ hsome => hsome, fun _ _ _ _ _ hv => hv, (add_zero _).symm⟩, le_rfl,
      Nat.zero_le _⟩
  | ran _ hsame hmetadata ih =>
    obtain ⟨hrun, hauto⟩ := ih hhigh
    refine ⟨⟨?_, ?_, ?_, ?_⟩, hauto⟩
    · rw [← hrun.key, runKey, runKey, hmetadata, hsame]
    · rw [hmetadata]
      exact hrun.kept
    · rw [hmetadata]
      exact hrun.values
    · rw [hmetadata]
      exact hrun.count
  | retried c _ hretry ih =>
    obtain ⟨hrun, hle, hauto⟩ := ih (by push_cast at hhigh; omega)
    rw [hretry.reborn]
    exact ⟨hrun.reborn hserde hid hlow hhigh c, Nat.le_succ_of_le hle, hauto⟩
  | @autoRetried n _ j _ _ c _ hretry hpicked ih =>
    obtain ⟨hrun, hle, -⟩ := ih (by push_cast at hhigh; omega)
    have hcount : dlqRetryCount serde j.metadata < max := hpicked.below hretry.1
    rw [hrun.count] at hcount
    rw [hretry.reborn]
    refine ⟨hrun.reborn hserde hid hlow hhigh c, Nat.succ_le_succ hle, ?_⟩
    omega

/-! ## Sweeps -/

open FlexiQ.FlatJson (flatJson lawful_flatJson)

def mortal (metadata : Option String) : Job :=
  { (⟨"q", "task", [], 0, 0, 3, 1000, none, metadata, none, [], none, none, none, none, none⟩ :
      NewJob).intoJob "j" 0 with status := .running }

def death : Cycle := ⟨"boom", some "timed out", false, "d", 1, "k", 2⟩

/-- Metadata with a counter of the user's own. -/
def counted (n : Int) : String := flatJson.print (JsonMap.put .empty dlqRetryCountKey (.int n))

def graveyard (job : Job) (deadIds : List String) : Result Sql.Store :=
  deadIds.foldlM
    (fun s id => deadLetterIn flatJson s job death.error death.metadata death.shed id death.diedAt)
    { Sql.Store.empty with jobs := Table.empty.upsert job }

/-- A job without metadata dies and is picked by the sweep. -/
theorem first_death_survived : ∃ s s' j, graveyard (mortal none) ["d"] = .ok s ∧
    (engineOf flatJson .sqlite).retryDead "d" none "k" 2 s = (.ok "k", s') ∧
    liveJob .sqlite s' "k" = some j ∧ SameRun flatJson (mortal none) 1 j := by
  have hpicked : ∀ s, graveyard (mortal none) ["d"] = .ok s →
      Picked flatJson .sqlite 1 s death.deadId := by
    intro s hs
    cases hs
    exact ⟨5, none, ["q"], ⟨"d", some "boom"⟩, by decide +kernel, rfl⟩
  refine ⟨_, _, _, rfl, rfl, rfl, (run_survives lawful_flatJson (by decide) (by decide +kernel)
    (by decide +kernel) (.autoRetried death .self ⟨rfl, none, _, rfl, rfl⟩ (hpicked _ rfl))).1⟩

def swept (max : Int) (s : Sql.Store) : Sql.Store :=
  (autoRetryDlq (SqlEngine.engine .sqlite flatJson) 5 max none ["q"]
    ⟨fun n => if n = 0 then "k" else "l", fun _ => "e", 2⟩ ⟨s, .empty⟩).store

/-- A user's own counter: the largest is followed by the smallest, and a
negative one is retried at a limit of zero. -/
theorem counter_out_of_range :
    (dlqRetryCount flatJson (some (counted (2 ^ 31 - 1))) = 2 ^ 31 - 1 ∧
      dlqRetryCount flatJson
        (death.reborn flatJson (mortal (some (counted (2 ^ 31 - 1))))).metadata = -2 ^ 31) ∧
    ((graveyard (mortal (some (counted (-1)))) ["d"]).toOption.any fun s =>
      ((swept 0 s).jobs.find "k").isSome) = true ∧
    ((graveyard (mortal none) ["d", "e"]).toOption.any fun s =>
      ["k", "l"].all fun id => ((swept 1 s).jobs.find id).any fun job =>
        runKey flatJson job = runKey flatJson (mortal none)) = true := by
  refine ⟨⟨?_, ?_⟩, ?_, ?_⟩
  all_goals decide +kernel

end FlexiQ.Backends
