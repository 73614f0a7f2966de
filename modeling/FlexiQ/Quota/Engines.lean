/-
# `Quota.Engines` — the storage backends behind the gate

The calls of the SQL and of the Redis backend as the gate sees them.  Both are
confined to the namespaces of the jobs they are given.  On SQL that needs
nothing: a live id is refused.  On Redis a write takes an id over, so the ids
have to be new.

A resurrection is where the depth of a namespace escapes: `retry_dead` inserts
into whatever namespace the entry came from, and that is a job more.
-/
import FlexiQ.Quota.Depth
import FlexiQ.Redis.Calls
import FlexiQ.Sql.Gate

namespace FlexiQ.Quota

open List FlexiQ.Lib FlexiQ.Resilience

/-! ## SQL -/

namespace SqlEngine

open FlexiQ.Sql

def listDeadForRetry (cutoff maxRetries : Int) (scope : Scope) (queues : List String)
    (limit : Nat) (s : Store) : List DeadSummary :=
  let rows := s.dead.rows.filter fun row =>
    row.failedAt ≤ cutoff && row.dlqRetryCount < maxRetries && queues.contains row.queue &&
      !row.shed && row.namespace = scope
  ((rows.insertionSort fun a b => a.failedAt ≤ b.failedAt).take limit).map fun row =>
    ⟨row.id, row.error⟩

def engine (backend : Backend) (serde : Serde) : Engine Store where
  backend := backend
  countByNamespace := Sql.countByNamespace
  enqueue job now s := committed s (Sql.enqueue s job.1 job.2 now)
  enqueueBatch jobs now s := committed s (Sql.enqueueBatch s jobs now)
  enqueueUniqueReporting job now s := committed s (Sql.enqueueUnique s job.1 job.2 now)
  enqueueUniqueBatchReporting jobs now s := committed s (Sql.enqueueUniqueBatch s now jobs)
  enqueueDebounced job options now s :=
    committed s (Sql.enqueueDebounced s job.1 options job.2 now)
  shedNewJobs jobs metadata now s :=
    committed s ((Sql.shedNewJobs serde s metadata now jobs).map fun s' => ((), s'))
  retryDead id scope newId now s :=
    committed s ((Sql.retryDead serde s id scope newId now).map fun e => (e.1.id, e.2))
  listDeadForRetry := listDeadForRetry
  deadNamespace s id := (s.dead.find id).map DeadRow.namespace

/-! ### Confined -/

variable {ns : Scope} {backend : Backend} {serde : Serde} {s s' : Store} {now : Int}
  {job : Job} {id : String}

def counted (ns : Scope) (row : Job) : Bool := row.status = .pending && row.namespace = ns

/-- The namespace's `Pending` rows are the same. -/
def Same (ns : Scope) (s s' : Store) : Prop :=
  ∀ k, (s'.jobs.find k).filter (counted ns) = (s.jobs.find k).filter (counted ns)

theorem Same.trans {s₁ : Store} (h : Same ns s s₁) (h' : Same ns s₁ s') : Same ns s s' :=
  fun k => (h' k).trans (h k)

theorem Same.leaves (h : Same ns s s') : Leaves (engine backend serde) (fun _ _ => True) ns s s' :=
  ⟨congrArg Int.ofNat (Table.length_filter_congr (counted ns) h), fun _ _ => trivial⟩

theorem committed_leaves {α : Type} {r : Result (α × Store)}
    (h : ∀ a s', r = .ok (a, s') → Same ns s s') :
    Leaves (engine backend serde) (fun _ _ => True) ns s (committed s r).2 := by
  cases r with
  | error => exact .refl s
  | ok r => exact (h r.1 r.2 rfl).leaves

theorem not_counted {row : Job} (h : counted ns row = false) :
    (some row).filter (counted ns) = none := by
  rw [Option.filter_some, if_neg (by simp [h])]

theorem counted_of_ne {row : Job} (h : row.namespace ≠ ns) : counted ns row = false := by
  simp [counted, h]

theorem insertJob_same (h : insertJob s job = .ok s') (hjob : counted ns job = false) :
    Same ns s s' := by
  obtain ⟨hnone, hjobs, -⟩ := insertJob_ok h
  intro k
  rw [hjobs]
  by_cases hk : k = job.id
  · rw [if_pos hk, hk, hnone, not_counted hjob]
    rfl
  · rw [if_neg hk]

/-- What an enqueue does to the rows: each job comes in as a row, slides one
of its namespace, or stays out. -/
inductive Takes : List Draft → Store → Store → Prop
  | idle (jobs : List Draft) (s : Store) : Takes jobs s s
  | insert {job : Draft} {row : Job} {dependsOn : List String} {s s' : Store}
      (hns : row.namespace = job.1.namespace)
      (h : insertJobWithDeps s row dependsOn = .ok s') : Takes [job] s s'
  | slide {job : Draft} {target row : Job} {options : DebounceOptions} {s s' : Store}
      (hlive : s.jobs.find target.id = some target) (hns : target.namespace = job.1.namespace)
      (h : Rewrites s s' target.id (target.slid row options)) : Takes [job] s s'
  | cons {job : Draft} {rest : List Draft} {s s₁ s' : Store}
      (hfirst : Takes [job] s s₁) (hrest : Takes rest s₁ s') : Takes (job :: rest) s s'

theorem enqueue_takes {new : NewJob} (h : Sql.enqueue s new id now = .ok (job, s')) :
    Takes [(new, id)] s s' :=
  .insert rfl (enqueue_ok h).2.2

theorem insertBatch_takes : ∀ {jobs : List Draft} {s s' : Store},
    insertBatch s (jobs.map fun e => (e.1.intoJob e.2 now, e.1.dependsOn)) = .ok s' →
      Takes jobs s s'
  | [], s, s', h => by
    cases h
    exact .idle [] s
  | job :: rest, s, s', h => by
    obtain ⟨s₁, h₁, h₂⟩ := bind_eq_ok.mp h
    exact .cons (.insert rfl h₁) (insertBatch_takes h₂)

theorem enqueueUnique_takes {new : NewJob} {e : Job × Bool}
    (h : Sql.enqueueUnique s new id now = .ok (e, s')) : Takes [(new, id)] s s' := by
  rcases enqueueUnique_ok h with rfl | ⟨job, henq⟩
  · exact .idle _ s'
  · exact enqueue_takes henq

theorem enqueueUniqueBatch_takes : ∀ {jobs : List Draft} {s s' : Store}
    {es : List (Job × Bool)}, Sql.enqueueUniqueBatch s now jobs = .ok (es, s') → Takes jobs s s'
  | [], s, s', es, h => by
    cases h
    exact .idle [] s
  | (new, id) :: rest, s, s', es, h => by
    obtain ⟨⟨first, s₁⟩, h₁, h⟩ := bind_eq_ok.mp h
    obtain ⟨⟨others, s₂⟩, h₂, h⟩ := bind_eq_ok.mp h
    cases h
    exact .cons (enqueueUnique_takes h₁) (enqueueUniqueBatch_takes h₂)

theorem enqueueDebounced_takes {new : NewJob} {options : DebounceOptions}
    (h : Sql.enqueueDebounced s new options id now = .ok (job, s')) : Takes [(new, id)] s s' := by
  rcases enqueueDebounced_ok h with ⟨target, hlive, hns, -, hw⟩ | ⟨-, hins⟩
  · exact .slide hlive hns hw
  · exact .insert rfl hins

theorem Takes.same {jobs : List Draft} (h : Takes jobs s s')
    (hother : ∀ job ∈ jobs, job.1.namespace ≠ ns) : Same ns s s' := by
  induction h with
  | idle => exact fun _ => rfl
  | @insert job row _ s _ hns h =>
    obtain ⟨s₁, hins, h⟩ := bind_eq_ok.mp h
    cases h
    have hout : row.namespace ≠ ns := hns ▸ hother job mem_cons_self
    exact (insertJob_same hins (counted_of_ne hout) : Same ns s s₁)
  | @slide job target _ _ _ _ hlive hns h =>
    have hout : target.namespace ≠ ns := hns ▸ hother job mem_cons_self
    intro k
    rw [h.jobs]
    by_cases hk : k = target.id
    · rw [if_pos hk, hk, hlive, not_counted (counted_of_ne hout), not_counted]
      exact counted_of_ne hout
    · rw [if_neg hk]
  | cons _ _ hfirst hrest =>
    have hone := hfirst (forall_mem_singleton.mpr (hother _ mem_cons_self))
    exact hone.trans (hrest fun job hjob => hother job (mem_cons_of_mem _ hjob))

theorem shedNewJobs_same {metadata : Option String} :
    ∀ {jobs : List (Job × String × String)} {s s' : Store},
      Sql.shedNewJobs serde s metadata now jobs = .ok s' →
      (∀ e ∈ jobs, e.1.status = .dead) → Same ns s s'
  | [], s, s', h, _ => by
    cases h
    exact fun _ => rfl
  | (job, error, id) :: rest, s, s', h, hdead => by
    obtain ⟨s₁, h₁, h⟩ := bind_eq_ok.mp h
    obtain ⟨s₂, h₂, h⟩ := bind_eq_ok.mp h
    have hrest := shedNewJobs_same h fun e he => hdead e (mem_cons_of_mem _ he)
    refine Same.trans ?_ hrest
    obtain ⟨hnone, hjobs, -⟩ := insertJob_ok h₁
    obtain ⟨dead, -, ⟨row, hrow, harch⟩ | ⟨hgone, -⟩⟩ := deadLetterIn_ok h₂
    · have hid : row.id = job.id := Table.key_of_find hrow
      intro k
      rw [harch.jobs]
      by_cases hk : k = job.id
      · subst hk
        rw [if_pos (by simp [Job.finish, hid]), hnone]
      · rw [if_neg (by simpa [Job.finish, hid] using hk)]
        refine congrArg (Option.filter (counted ns)) ((hjobs k).trans (if_neg hk))
    · rw [hjobs, if_pos rfl] at hgone
      cases hgone

theorem confined (backend : Backend) (serde : Serde) (ns : Scope) :
    Confined (engine backend serde) (fun _ _ => True) ns where
  enqueue job now s hns _ :=
    committed_leaves fun _ _ h => (enqueue_takes h).same (forall_mem_singleton.mpr hns)
  enqueueBatch jobs now s hother :=
    committed_leaves fun _ _ h =>
      (insertBatch_takes (enqueueBatch_ok h).1).same fun job hjob => (hother job hjob).1
  enqueueUnique job now s hns _ :=
    committed_leaves fun _ _ h => (enqueueUnique_takes h).same (forall_mem_singleton.mpr hns)
  enqueueUniqueBatch jobs now s hother := committed_leaves fun _ _ h =>
    (enqueueUniqueBatch_takes h).same fun job hjob => (hother job hjob).1
  enqueueDebounced job options now s hns _ := committed_leaves fun _ _ h =>
    (enqueueDebounced_takes h).same (forall_mem_singleton.mpr hns)
  shed jobs metadata now s hdead := by
    refine committed_leaves fun a s' h => ?_
    obtain ⟨s₁, hshed, h⟩ := map_eq_ok.mp h
    cases h
    exact shedNewJobs_same hshed fun e he => (hdead e he).1
  retryDead id scope newId now s hns _ := by
    refine committed_leaves fun a s' h => ?_
    obtain ⟨⟨job, s₁⟩, hretry, h⟩ := map_eq_ok.mp h
    cases h
    obtain ⟨dead, s₂, hdead, hvisible, -, hins, rfl⟩ := retryDead_ok hretry
    have hout : dead.namespace ≠ ns := by
      rintro rfl
      exact hns ⟨by simp [engine, hdead], hvisible⟩
    exact (insertJob_same hins (counted_of_ne hout) : Same ns s s₂)
  entries id scope newId now s id' hns := by
    show ((committed s ((Sql.retryDead serde s id scope newId now).map
      fun e => (e.1.id, e.2))).2.dead.find id').map DeadRow.namespace ≠ some ns
    cases hretry : Sql.retryDead serde s id scope newId now with
    | error => exact hns
    | ok r =>
      obtain ⟨job, s₁⟩ := r
      obtain ⟨dead, s₂, hdead, -, -, hins, rfl⟩ := retryDead_ok hretry
      have hsame : s₂.dead = s.dead := (insertJob_ok hins).2.2.2.2.1
      show ((s₂.dead.delete fun row => row.id = dead.id).find id').map DeadRow.namespace ≠ some ns
      rw [hsame, Table.find_delete_key]
      split
      · simp
      · exact hns

/-! ### Resurrections -/

theorem insertJob_rows (h : insertJob s job = .ok s') :
    s'.jobs.rows = s.jobs.rows ++ [job] := by
  unfold insertJob at h
  split at h
  · cases h
  · cases hins : s.jobs.insert job with
    | none => simp [hins] at h
    | some jobs =>
      simp only [hins, Except.ok.injEq] at h
      subst h
      exact (Table.insert_eq_some hins).2

/-- An inserted row counts where it is one of the namespace's `Pending`
ones. -/
theorem insertJob_count (ns : Scope) (h : insertJob s job = .ok s') :
    countByNamespace s' ns .pending =
      countByNamespace s ns .pending + ([job].filter (counted ns)).length := by
  show ((s'.jobs.rows.filter (counted ns)).length : Int) =
    ((s.jobs.rows.filter (counted ns)).length : Int) + ([job].filter (counted ns)).length
  rw [insertJob_rows h, filter_append, length_append]
  exact Int.natCast_add _ _

def unused (s : Store) (id : String) : Prop := s.jobs.find id = none

theorem retryDead_goes {dead : DeadRow} {scope : Scope} {newId : String}
    (hdead : s.dead.find id = some dead) (hvisible : visibleIn scope dead.namespace = true)
    (hid : unused s newId) :
    ∃ r, Sql.retryDead serde s id scope newId now = .ok r := by
  have hkey : s.jobs.find ((retryNewJob serde dead now).intoJob newId now).id = none := hid
  obtain ⟨jobs, hjobs⟩ := Table.insert_isSome hkey
  have hins : insertJob s ((retryNewJob serde dead now).intoJob newId now) =
      .ok { s with jobs := jobs } := by
    unfold insertJob
    rw [if_neg (by simp [uniqueKeyTaken, NewJob.intoJob, retryNewJob]), hjobs]
  have hentry : s.dead.find dead.id = some dead := Table.key_of_find hdead ▸ hdead
  have hres : resurrect s dead ((retryNewJob serde dead now).intoJob newId now) =
      .ok { s with jobs := jobs, dead := s.dead.delete (fun row => row.id = dead.id) } := by
    unfold resurrect
    rw [hins]
    dsimp only [bind, Except.bind]
    rw [hentry]
    rfl
  unfold Sql.retryDead
  rw [hdead]
  dsimp only
  rw [if_pos hvisible, hres]
  exact ⟨_, rfl⟩

theorem resurrecting (backend : Backend) (serde : Serde) (ns : Scope) :
    Resurrecting (engine backend serde) unused ns where
  grows id scope newId now s := by
    show Sql.countByNamespace s ns .pending ≤ Sql.countByNamespace (committed s
      ((Sql.retryDead serde s id scope newId now).map fun e => (e.1.id, e.2))).2 ns .pending
    cases hretry : Sql.retryDead serde s id scope newId now with
    | error => exact Int.le_refl _
    | ok r =>
      obtain ⟨job, s₁⟩ := r
      obtain ⟨dead, s₂, -, -, -, hins, rfl⟩ := retryDead_ok hretry
      have hcount := insertJob_count ns hins
      show Sql.countByNamespace s ns .pending ≤ Sql.countByNamespace s₂ ns .pending
      omega
  raises id scope newId now s hentry hid := by
    obtain ⟨hns, hvisible⟩ := hentry
    obtain ⟨dead, hdead, rfl⟩ := Option.map_eq_some_iff.mp hns
    obtain ⟨⟨job, s₁⟩, hretry⟩ : ∃ r, Sql.retryDead serde s id scope newId now = .ok r :=
      retryDead_goes hdead hvisible hid
    show Sql.countByNamespace s dead.namespace .pending < Sql.countByNamespace (committed s
      ((Sql.retryDead serde s id scope newId now).map fun e => (e.1.id, e.2))).2
        dead.namespace .pending
    rw [hretry]
    obtain ⟨dead', s₂, hdead', -, -, hins, rfl⟩ := retryDead_ok hretry
    cases hdead.symm.trans hdead'
    have hcount := insertJob_count dead.namespace hins
    have hone : ([(retryNewJob serde dead now).intoJob newId now].filter
        (counted dead.namespace)).length = 1 := by
      simp [counted, retryNewJob, NewJob.intoJob]
    show Sql.countByNamespace s dead.namespace .pending <
      Sql.countByNamespace s₂ dead.namespace .pending
    omega
  candidates cutoff maxRetries scope queues limit s entry hentry := by
    obtain ⟨row, hrow, rfl⟩ := mem_map.mp hentry
    obtain ⟨hmem, hwanted⟩ := mem_filter.mp
      ((perm_insertionSort _ _).mem_iff.mp (mem_of_mem_take hrow))
    have hns : row.namespace = scope := by
      rw [Bool.and_eq_true, decide_eq_true_eq] at hwanted
      exact hwanted.2
    show (s.dead.find row.id).map DeadRow.namespace = some scope
    rw [show s.dead.find row.id = some row from Table.find_of_mem hmem, Option.map_some, hns]

end SqlEngine

/-! ## Redis -/

namespace RedisEngine

open FlexiQ.Redis

def countByNamespace (s : Store) (ns : Scope) (status : JobStatus) : Int :=
  s.sets.sintercard (.byNs ns) (.status status)

/-- `enqueue_unique_batch_reporting`: one after the other, up to the first
that fails. -/
def enqueueUniqueBatch (now : Int) : List Draft → Store → Result (List (Job × Bool)) × Store
  | [], s => (.ok [], s)
  | (new, id) :: rest, s =>
    match Redis.enqueueUnique s new id now with
    | (.error e, s) => (.error e, s)
    | (.ok first, s) =>
      let (others, s) := enqueueUniqueBatch now rest s
      (others.map (first :: ·), s)

/-- `shed_new_jobs`, alone on the server. -/
def shedNewJobs (serde : Serde) (jobs : List (Job × String × String)) (metadata : Option String)
    (now : Int) (s : Store) : Store :=
  s.exec (jobs.flatMap fun e =>
    let job := { e.1 with uniqueKey := none, debounceKey := none }
    deadLetterOps job (Sql.deadLetterRow serde job e.2.1 metadata true e.2.2 now) e.2.1
      .pending now)

/-- `retry_dead`, alone on the server. -/
def retryDead (serde : Serde) (deadId : String) (scope : Scope) (newId : String)
    (now : Int) (s : Store) : Result String × Store :=
  match (s.dead.find deadId).filter fun entry => visibleIn scope entry.namespace with
  | none => (.error (.jobNotFound deadId), s)
  | some entry =>
    let job := (Sql.retryNewJob serde entry now).intoJob newId now
    (.ok job.id, s.exec (insertOps job [] ++ Code.dlqRemoveOps deadId job.namespace))

def listDeadForRetry (cutoff maxRetries : Int) (scope : Scope) (queues : List String)
    (limit : Nat) (s : Store) : List DeadSummary :=
  let ids := ((s.zsets.zrange .dlqAll).filter fun e => e.score ≤ asF64 cutoff).map Scored.member
  let entries := ids.filterMap fun id => (s.dead.find id).filter fun entry =>
    !entry.shed && entry.dlqRetryCount < maxRetries && entry.namespace = scope &&
      queues.contains entry.queue
  (entries.take limit).map fun entry => ⟨entry.id, entry.error⟩

def engine (serde : Serde) : Engine Store where
  backend := .redis
  countByNamespace := countByNamespace
  enqueue job now s := committed s (Redis.enqueue s job.1 job.2 now)
  enqueueBatch jobs now s := committed s (Redis.enqueueBatch s jobs now)
  enqueueUniqueReporting job now s := Redis.enqueueUnique s job.1 job.2 now
  enqueueUniqueBatchReporting jobs now s := enqueueUniqueBatch now jobs s
  enqueueDebounced job options now s :=
    Redis.enqueueDebounced s job.1 options job.2 now
  shedNewJobs jobs metadata now s := (.ok (), shedNewJobs serde jobs metadata now s)
  retryDead := retryDead serde
  listDeadForRetry := listDeadForRetry
  deadNamespace s id := (s.dead.find id).map Sql.DeadRow.namespace

/-! ### Confined -/

variable {ns : Scope} {serde : Serde} {s s' : Store} {now : Int} {job : Job} {id : String}

def newTo (ns : Scope) (s : Store) (id : String) : Prop :=
  s.sets.sismember (.byNs ns) id = false

/-- A command that does not touch what the namespace's index holds. -/
def Aloof (ns : Scope) (s : Store) : Cmd → Prop
  | .sadd (.byNs ns') _ => ns' ≠ ns
  | .sadd (.status _) id | .srem (.status _) id | .srem (.byNs _) id => newTo ns s id
  | .delSet (.byNs _) | .delSet (.status _) => False
  | _ => True

/-- The namespace's index is the same, and so is the status its members are
filed under. -/
structure Same (ns : Scope) (s s' : Store) : Prop where
  members : ∀ m, s'.sets.sismember (.byNs ns) m = s.sets.sismember (.byNs ns) m
  filed : ∀ m status, s.sets.sismember (.byNs ns) m = true →
    s'.sets.sismember (.status status) m = s.sets.sismember (.status status) m

theorem Same.of_sets (h : s'.sets = s.sets) : Same ns s s' :=
  ⟨fun _ => by rw [h], fun _ _ _ => by rw [h]⟩

theorem Same.trans {s₁ : Store} (h : Same ns s s₁) (h' : Same ns s₁ s') : Same ns s s' :=
  ⟨fun m => (h'.members m).trans (h.members m),
    fun m status hm => (h'.filed m status ((h.members m).trans hm)).trans (h.filed m status hm)⟩

theorem Same.stillNew (h : Same ns s s') (hid : newTo ns s id) : newTo ns s' id :=
  (h.members id).trans hid

theorem Same.leaves (h : Same ns s s') : Leaves (engine serde) (newTo ns) ns s s' := by
  refine ⟨congrArg Int.ofNat (Sets.sintercard_congr fun m => ?_), fun id hid => h.stillNew hid⟩
  rw [h.members]
  cases hm : s.sets.sismember (.byNs ns) m with
  | false => rfl
  | true => rw [h.filed m _ hm]

theorem ne_of_newTo {m : String} (hid : newTo ns s id) (hm : s.sets.sismember (.byNs ns) m = true) :
    m ≠ id := by
  rintro rfl
  rw [newTo, hm] at hid
  cases hid

theorem apply_same (c : Cmd) (h : Aloof ns s c) : Same ns s (s.apply c) := by
  cases c with
  | sadd key id =>
    have hsadd := fun key' m => Sets.sismember_sadd s.sets key key' id m
    refine ⟨fun m => (hsadd _ m).trans ?_, fun m status hm => (hsadd _ m).trans ?_⟩
    · cases key with
      | byNs ns' => simp [show ns ≠ ns' from Ne.symm h]
      | _ => simp
    · cases key with
      | status => simp [ne_of_newTo h hm]
      | _ => simp
  | srem key id =>
    have hsrem := fun key' m => Sets.sismember_srem s.sets key key' id m
    refine ⟨fun m => (hsrem _ m).trans ?_, fun m status hm => (hsrem _ m).trans ?_⟩
    · cases key with
      | byNs =>
        cases hm : s.sets.sismember (.byNs ns) m with
        | false => simp
        | true => simp [ne_of_newTo h hm]
      | _ => simp
    · cases key with
      | status => simp [ne_of_newTo h hm]
      | _ => simp
  | delSet key =>
    have hdrop := fun key' m => Sets.sismember_drop s.sets key key' m
    refine ⟨fun m => (hdrop _ m).trans ?_, fun m status hm => (hdrop _ m).trans ?_⟩
    · cases key with
      | byNs => exact h.elim
      | _ => simp
    · cases key with
      | status => exact h.elim
      | _ => simp
  | _ => exact .of_sets rfl

theorem Aloof.of_same (hsame : Same ns s s') {c : Cmd} (h : Aloof ns s c) : Aloof ns s' c := by
  unfold Aloof at h ⊢
  split at h
  · exact h
  all_goals first | exact hsame.stillNew h | exact h

theorem exec_same : ∀ {cmds : List Cmd} {s : Store}, (∀ c ∈ cmds, Aloof ns s c) →
    Same ns s (s.exec cmds)
  | [], s, _ => .of_sets rfl
  | c :: cmds, s, h => by
    have hfirst := apply_same c (h c mem_cons_self)
    exact hfirst.trans (exec_same fun c' hc' =>
      Aloof.of_same hfirst (h c' (mem_cons_of_mem _ hc')))

theorem insertOps_aloof {dependsOn : List String} (hns : job.namespace ≠ ns)
    (hid : newTo ns s job.id) : ∀ c ∈ insertOps job dependsOn, Aloof ns s c :=
  forall_insertOps.mpr ⟨trivial, hid, trivial, trivial, trivial, hns, fun _ _ => trivial,
    fun _ _ => ⟨trivial, trivial⟩⟩

theorem deadLetterOps_aloof {entry : DeadJobEntry} {error : String} {old : JobStatus}
    (hid : newTo ns s job.id) : ∀ c ∈ deadLetterOps job entry error old now, Aloof ns s c := by
  intro c hc
  unfold deadLetterOps pushArchiveOps at hc
  simp only [mem_append, mem_cons, not_mem_nil, or_false, mem_map] at hc
  rcases hc with (rfl | rfl | rfl) | ((((rfl | rfl | rfl | rfl | rfl) | hc) | hc) | hc) | hc
  any_goals first | trivial | exact hid
  · split at hc
    · cases mem_singleton.mp hc
      trivial
    · cases hc
  · obtain ⟨key, -, rfl⟩ := hc
    trivial
  · rcases hc with rfl | rfl | rfl | rfl | rfl | rfl | rfl <;> trivial
  · obtain ⟨expiry, -, rfl⟩ := hc
    trivial

/-- What an enqueue does to the sets: each job is put into them, or stays
out. -/
inductive Takes : List Draft → Store → Store → Prop
  | idle {jobs : List Draft} {s s' : Store} (h : s'.sets = s.sets) : Takes jobs s s'
  | insert {job : Draft} {row : Job} {dependsOn : List String} {s s₁ s' : Store}
      (hns : row.namespace = job.1.namespace) (hid : row.id = job.2) (hbefore : s₁.sets = s.sets)
      (hafter : s'.sets = (s₁.exec (insertOps row dependsOn)).sets) : Takes [job] s s'
  | cons {job : Draft} {rest : List Draft} {s s₁ s' : Store}
      (hfirst : Takes [job] s s₁) (hrest : Takes rest s₁ s') : Takes (job :: rest) s s'

theorem enqueue_takes (s : Store) (job : Draft) (now : Int) :
    Takes [job] s (committed s (Redis.enqueue s job.1 job.2 now)).2 := by
  cases h : Redis.enqueue s job.1 job.2 now with
  | error => exact .idle rfl
  | ok =>
    obtain ⟨-, -, h⟩ := bind_eq_ok.mp h
    cases h
    exact .insert rfl rfl rfl rfl

theorem insertAll_takes (now : Int) : ∀ (jobs : List Draft) (s : Store),
    Takes jobs s (s.exec (jobs.flatMap fun job =>
      insertOps (job.1.intoJob job.2 now) job.1.dependsOn))
  | [], s => .idle rfl
  | job :: rest, s => by
    rw [flatMap_cons, Store.exec, foldl_append]
    exact .cons (.insert rfl rfl rfl rfl) (insertAll_takes now rest _)

theorem enqueueBatch_takes (s : Store) (jobs : List Draft) (now : Int) :
    Takes jobs s (committed s (Redis.enqueueBatch s jobs now)).2 := by
  unfold Redis.enqueueBatch
  dsimp only
  split
  · exact insertAll_takes now jobs s
  · exact .idle rfl

theorem enqueueUnique_takes (s : Store) (job : Draft) (now : Int) :
    Takes [job] s (Redis.enqueueUnique s job.1 job.2 now).2 := by
  unfold Redis.enqueueUnique
  split
  · split
    · next heq =>
      obtain ⟨-, -, h⟩ := bind_eq_ok.mp heq
      cases h
      exact .insert rfl rfl rfl rfl
    · exact .idle rfl
  · next key hkey =>
    split
    · exact .idle rfl
    · dsimp only
      split
      · exact .idle rfl
      · -- The pointer is set behind the job.
        refine @Takes.insert job (job.1.intoJob job.2 now) job.1.dependsOn s
          (s.exec [.delUnique job.1.namespace key]) _ rfl rfl rfl ?_
        rw [Store.exec, foldl_append]
        rfl

theorem enqueueUniqueBatch_takes (now : Int) : ∀ (jobs : List Draft) (s : Store),
    Takes jobs s (enqueueUniqueBatch now jobs s).2
  | [], s => .idle rfl
  | (new, id) :: rest, s => by
    have hfirst := enqueueUnique_takes s (new, id) now
    unfold enqueueUniqueBatch
    generalize Redis.enqueueUnique s new id now = answer at hfirst ⊢
    obtain ⟨first, s₁⟩ := answer
    cases first with
    | error => exact .cons hfirst (.idle rfl)
    | ok => exact .cons hfirst (enqueueUniqueBatch_takes now rest s₁)

theorem debounceScan_sets (index : ZKey) : ∀ (ids : List String) (s : Store),
    (debounceScan index s ids).2.sets = s.sets
  | [], s => rfl
  | id :: ids, s => by
    unfold debounceScan
    repeat' split
    all_goals first | exact debounceScan_sets index ids _ | rfl

theorem enqueueDebounced_takes (s : Store) (job : Draft) (options : DebounceOptions)
    (now : Int) : Takes [job] s (Redis.enqueueDebounced s job.1 options job.2 now).2 := by
  unfold Redis.enqueueDebounced
  split
  · exact .idle rfl
  · next key _ =>
    have hscan : (resolveDebounceTarget s
        (.debounce (job.1.intoWindow options job.2 now).namespace key)).2.sets = s.sets :=
      debounceScan_sets _ _ s
    dsimp only
    split
    · next target s₁ heq =>
      rw [heq] at hscan
      exact .idle hscan
    · next s₁ heq =>
      rw [heq] at hscan
      split
      · exact .idle hscan
      · unfold insertDebounced
        dsimp only
        split
        · exact .idle hscan
        · exact .insert rfl rfl hscan rfl

theorem Takes.same {jobs : List Draft} (h : Takes jobs s s')
    (hother : Foreign (newTo ns) ns s jobs) : Same ns s s' := by
  induction h with
  | idle h => exact .of_sets h
  | @insert job row dependsOn s s₁ _ hns hid hbefore hafter =>
    obtain ⟨hout, hnew⟩ := hother job mem_cons_self
    have hnew' : newTo ns s₁ row.id := by
      rw [newTo, hid, hbefore]
      exact hnew
    have hins : Same ns s₁ (s₁.exec (insertOps row dependsOn)) :=
      exec_same (insertOps_aloof (hns ▸ hout) hnew')
    exact ((Same.of_sets hbefore).trans hins).trans (.of_sets hafter)
  | cons _ _ hfirst hrest =>
    have hone := hfirst (forall_mem_singleton.mpr (hother _ mem_cons_self))
    refine hone.trans (hrest fun job hjob => ?_)
    have hbefore := hother job (mem_cons_of_mem _ hjob)
    exact ⟨hbefore.1, hone.stillNew hbefore.2⟩

theorem shedNewJobs_same (jobs : List (Job × String × String)) (metadata : Option String)
    (now : Int) (hid : ∀ e ∈ jobs, newTo ns s e.1.id) :
    Same ns s (shedNewJobs serde jobs metadata now s) := by
  refine exec_same fun c hc => ?_
  obtain ⟨e, he, hc⟩ := mem_flatMap.mp hc
  have hid' : newTo ns s ({ e.1 with uniqueKey := none, debounceKey := none } : Job).id := hid e he
  exact deadLetterOps_aloof hid' c hc

theorem retryDead_same (id : String) (scope : Scope) {newId : String} (now : Int)
    (hns : ¬ Resurrects (engine serde) ns scope s id) (hid : newTo ns s newId) :
    Same ns s (retryDead serde id scope newId now s).2 := by
  unfold retryDead
  split
  · exact .of_sets rfl
  · next entry hentry =>
    obtain ⟨hfind, hvisible⟩ := Option.filter_eq_some_iff.mp hentry
    have hout : entry.namespace ≠ ns := by
      rintro rfl
      exact hns ⟨by simp [engine, hfind], hvisible⟩
    refine exec_same fun c hc => ?_
    rcases mem_append.mp hc with hc | hc
    · exact insertOps_aloof hout hid c hc
    · simp only [Code.dlqRemoveOps, mem_cons, not_mem_nil, or_false] at hc
      rcases hc with rfl | rfl | rfl <;> trivial

theorem confined (serde : Serde) (ns : Scope) : Confined (engine serde) (newTo ns) ns where
  enqueue job now s hns hid :=
    ((enqueue_takes s job now).same (forall_mem_singleton.mpr ⟨hns, hid⟩)).leaves
  enqueueBatch jobs now s hother := ((enqueueBatch_takes s jobs now).same hother).leaves
  enqueueUnique job now s hns hid :=
    ((enqueueUnique_takes s job now).same (forall_mem_singleton.mpr ⟨hns, hid⟩)).leaves
  enqueueUniqueBatch jobs now s hother := ((enqueueUniqueBatch_takes now jobs s).same hother).leaves
  enqueueDebounced job options now s hns hid := ((enqueueDebounced_takes s job options now).same
    (forall_mem_singleton.mpr ⟨hns, hid⟩)).leaves
  shed jobs metadata now _ hdead :=
    (shedNewJobs_same jobs metadata now fun e he => (hdead e he).2).leaves
  retryDead id scope _ now _ hns hid := (retryDead_same id scope now hns hid).leaves
  entries id scope newId now s id' hns := by
    show ((retryDead serde id scope newId now s).2.dead.find id').map
      Sql.DeadRow.namespace ≠ some ns
    unfold retryDead
    split
    · exact hns
    · -- A resurrection takes its own entry out, and writes none.
      show ((s.dead.delete fun row => row.id = id).find id').map Sql.DeadRow.namespace ≠ some ns
      rw [Table.find_delete_key]
      split
      · simp
      · exact hns

/-! ### Resurrections -/

theorem retryDead_sets {entry : DeadJobEntry} {scope : Scope} {newId : String} (now : Int)
    (h : (s.dead.find id).filter (fun entry => visibleIn scope entry.namespace) = some entry) :
    (retryDead serde id scope newId now s).2.sets =
      (((s.sets.sadd (.status .pending) newId).sadd (.byQueue entry.queue) newId).sadd
        (.byTask entry.taskName) newId).sadd (.byNs entry.namespace) newId := by
  unfold retryDead
  rw [h]
  rfl

theorem resurrecting (serde : Serde) (ns : Scope) : Resurrecting (engine serde) (newTo ns) ns where
  grows id scope newId now s := by
    show ((s.sets.sintercard (.byNs ns) (.status .pending) : Nat) : Int) ≤
      ((retryDead serde id scope newId now s).2.sets.sintercard (.byNs ns) (.status .pending) : Nat)
    cases h : (s.dead.find id).filter fun entry => visibleIn scope entry.namespace with
    | none =>
      unfold retryDead
      rw [h]
    | some entry =>
      refine Int.ofNat_le.mpr (Sets.sintercard_mono fun m hm => ?_)
      rw [retryDead_sets now h]
      simp_all [Sets.sismember_sadd]
  raises id scope newId now s hentry hid := by
    obtain ⟨hns, hvisible⟩ := hentry
    obtain ⟨entry, hfind, rfl⟩ := Option.map_eq_some_iff.mp hns
    have h : (s.dead.find id).filter (fun entry => visibleIn scope entry.namespace) =
        some entry := Option.filter_eq_some_iff.mpr ⟨hfind, hvisible⟩
    refine Int.ofNat_lt.mpr (Sets.sintercard_lt newId (fun m hm => ?_) ?_ ?_)
    · show (_ && _) = true
      simp only [engine, retryDead_sets now h]
      simp_all [Sets.sismember_sadd]
    · simp only [engine, retryDead_sets now h]
      simp [Sets.sismember_sadd]
    · rw [hid, Bool.false_and]
  candidates cutoff maxRetries scope queues limit s entry hentry := by
    obtain ⟨row, hrow, rfl⟩ := mem_map.mp hentry
    obtain ⟨id, -, hsome⟩ := mem_filterMap.mp (mem_of_mem_take hrow)
    obtain ⟨hfind, hwanted⟩ := Option.filter_eq_some_iff.mp hsome
    have hns : row.namespace = scope := by
      simp only [Bool.and_eq_true, decide_eq_true_eq] at hwanted
      exact hwanted.1.2
    have hid : row.id = id := Table.key_of_find hfind
    show (s.dead.find row.id).map Sql.DeadRow.namespace = some scope
    rw [hid, hfind, Option.map_some, hns]

end RedisEngine

/-! ## The backends -/

def StoreOf : Backend → Type
  | .sqlite | .postgres => Sql.Store
  | .redis => Redis.Store

def engineOf (serde : Serde) : (b : Backend) → Engine (StoreOf b)
  | .sqlite => SqlEngine.engine .sqlite serde
  | .postgres => SqlEngine.engine .postgres serde
  | .redis => RedisEngine.engine serde

/-! ## The depth of a namespace -/

open FlexiQ.Sql (noJson plainJob)

/-- **A full namespace takes no job**, on any backend, by exactly the doors
that resurrect nothing in it. -/
theorem full_namespace_takes_no_job (serde : Serde)
    (quotas : Option String → Except QueueError (Option QuotaDocument)) (ns : Option String)
    (door : Door) :
    (∀ (backend : Backend) (d : Depot FlexiQ.Sql.Store),
      Full (SqlEngine.engine backend serde) quotas ns d.store →
      door.Revives SqlEngine.unused d.store →
      ((SqlEngine.engine backend serde).pending ns
          (door.run (SqlEngine.engine backend serde) quotas serde d).store =
        (SqlEngine.engine backend serde).pending ns d.store ↔
      door.Spares (SqlEngine.engine backend serde) ns d.store)) ∧
    ∀ d : Depot FlexiQ.Redis.Store,
      Full (RedisEngine.engine serde) quotas ns d.store →
      door.Fresh (RedisEngine.newTo ns) d.store →
      ((RedisEngine.engine serde).pending ns
          (door.run (RedisEngine.engine serde) quotas serde d).store =
        (RedisEngine.engine serde).pending ns d.store ↔
      door.Spares (RedisEngine.engine serde) ns d.store) := by
  refine ⟨fun backend d hfull hunused => ?_, fun d hfull hfresh => ?_⟩
  · have hfresh : door.Fresh (fun (_ : FlexiQ.Sql.Store) _ => True) d.store := by
      cases door <;> simp [Door.Fresh]
    exact door.pending_iff (SqlEngine.confined backend serde ns)
      (SqlEngine.resurrecting backend serde ns) hfull serde hfresh hunused
  · exact door.pending_iff (RedisEngine.confined serde ns) (RedisEngine.resurrecting serde ns)
      hfull serde hfresh hfresh.revives

def onePending : QuotaCache
  | none => .ok (some ⟨⟨some 1, .reject, none, none⟩, ""⟩)
  | some _ => .ok none

def crowding : Result Sql.Store := do
  let (_, s) ← Sql.enqueue .empty (plainJob []) "a" 0
  let (job, s) ← Sql.enqueue s (plainJob []) "b" 0
  let (_, s) ← Sql.deadLetter noJson s job "boom" none false "d" 1
  return s

def crowdedRedis : Redis.Store :=
  let job := (plainJob []).intoJob "b" 0
  let entry := Sql.deadLetterRow noJson job "boom" none false "d" 1
  Redis.Store.empty.exec
    (Redis.insertOps ((plainJob []).intoJob "a" 0) [] ++
      Redis.insertOps job [] ++ Redis.deadLetterOps job entry "boom" .pending 1)

def resurrections : List Door :=
  [.retryDead "d" none "c" 5, .autoRetryDlq 5 3 none ["q"] ⟨fun _ => "c", fun _ => "e", 5⟩]

/-- Either puts a second job into a namespace that is full with one, on SQL
and on Redis. -/
theorem resurrection_overfills : ∃ s, crowding = .ok s ∧
    Full (SqlEngine.engine .sqlite noJson) onePending none s ∧
    Full (RedisEngine.engine noJson) onePending none crowdedRedis ∧
    ∀ door ∈ resurrections,
      (SqlEngine.engine .sqlite noJson).pending none
          (door.run (SqlEngine.engine .sqlite noJson) onePending noJson
            ⟨s, .empty⟩).store =
        (SqlEngine.engine .sqlite noJson).pending none s + 1 ∧
      (RedisEngine.engine noJson).pending none
          (door.run (RedisEngine.engine noJson) onePending noJson
            ⟨crowdedRedis, .empty⟩).store =
        (RedisEngine.engine noJson).pending none crowdedRedis + 1 := by
  refine ⟨_, rfl, ⟨_, 1, rfl, rfl, rfl, ?_, ?_⟩, ⟨_, 1, rfl, rfl, rfl, ?_, ?_⟩, ?_⟩
  all_goals decide +kernel

def mixedBatch : Door :=
  .enqueueBatch ⟨fun n => if n = 0 then "c" else "e", fun _ => "d", 5⟩
    [plainJob [], { plainJob [] with «namespace» := some "other" }]

theorem mixed_batch_takes_no_job : ∃ s, crowding = .ok s ∧
    (SqlEngine.engine .sqlite noJson).pending none
        (mixedBatch.run (SqlEngine.engine .sqlite noJson) onePending noJson
          ⟨s, .empty⟩).store =
      (SqlEngine.engine .sqlite noJson).pending none s ∧
    (RedisEngine.engine noJson).pending none
        (mixedBatch.run (RedisEngine.engine noJson) onePending noJson
          ⟨crowdedRedis, .empty⟩).store =
      (RedisEngine.engine noJson).pending none crowdedRedis := by
  have hrule := full_namespace_takes_no_job noJson onePending none mixedBatch
  refine ⟨_, rfl,
    (hrule.1 .sqlite ⟨_, .empty⟩ ⟨_, 1, rfl, rfl, rfl, ?_, ?_⟩ trivial).mpr trivial,
    (hrule.2 ⟨crowdedRedis, .empty⟩ ⟨_, 1, rfl, rfl, rfl, ?_, ?_⟩ fun n => ?_).mpr trivial⟩
  case refine_5 =>
    have hnew : ∀ id ∈ ["c", "e"], RedisEngine.newTo none crowdedRedis id := by
      intro id hid
      rcases List.mem_pair.mp hid with rfl | rfl <;> rfl
    dsimp only
    split
    · exact hnew "c" (by simp)
    · exact hnew "e" (by simp)
  all_goals decide +kernel

end FlexiQ.Quota
