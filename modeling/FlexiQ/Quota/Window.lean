/-
# `Quota.Window` — how far racing producers can run past `max_pending`

The depth of a namespace is counted before the insert, not inside it, so
between the two a call is in flight and others may land.  Here any number of
calls of one namespace race, each with its own batch, against whatever else
takes `Pending` jobs away.  The overshoot is what `Lib.Overshoot` says of
count-then-add: never more than was in flight at one single moment.
-/
import FlexiQ.Dispatch.Caps
import FlexiQ.Lib.Overshoot
import FlexiQ.Quota.Engines

namespace FlexiQ.Quota

open List FlexiQ.Lib FlexiQ.Resilience

variable {S : Type} (engine : Engine S)
  (quotas : QuotaCache) (ns : Scope)

/-! ## The calls -/

/-- What the gate hands to the backend. -/
inductive Order
  | enqueue (job : Draft)
  | enqueueBatch (jobs : List Draft)
  | enqueueUnique (job : Draft)
  | enqueueUniqueBatch (jobs : List Draft)
  | enqueueDebounced (job : Draft) (options : DebounceOptions)

def Order.jobs : Order → List Draft
  | .enqueue job | .enqueueUnique job | .enqueueDebounced job _ => [job]
  | .enqueueBatch jobs | .enqueueUniqueBatch jobs => jobs

def Order.run (now : Int) (s : S) : Order → S
  | .enqueue job => (engine.enqueue job now s).2
  | .enqueueBatch jobs => (engine.enqueueBatch jobs now s).2
  | .enqueueUnique job => (engine.enqueueUniqueReporting job now s).2
  | .enqueueUniqueBatch jobs => (engine.enqueueUniqueBatchReporting jobs now s).2
  | .enqueueDebounced job options => (engine.enqueueDebounced job options now s).2

/-- No call adds more `Pending` jobs than it brings. -/
def Bounded : Prop :=
  ∀ (order : Order) (now : Int) (s : S),
    engine.pending ns (order.run engine now s) ≤ engine.pending ns s + order.jobs.length

/-! ## The race -/

/-- A backend, the calls between their count and their insert, and what there
was before. -/
structure Race (S : Type) where
  depot : Depot S
  flights : List (Flight × Order)
  past : List Moment

/-- A call counts, a call in flight inserts, or somebody else writes. -/
inductive Race.Move (S : Type)
  | count (order : Order) (now : Int)
  | insert (flight : Flight) (now : Int)
  | drift (store : S)

namespace Race

/-- The race as a gauge: the namespace's `Pending` jobs, and who is in
flight. -/
def gauge (r : Race S) : Gauge :=
  ⟨r.past, ⟨engine.pending ns r.depot.store, r.flights.map Prod.fst⟩⟩

/-- One move.  A call that is refused or shed, and one that brings nothing,
has nothing to insert; recording what is shed is a write like any other. -/
def next (r : Race S) : Move S → Option (Race S)
  | .count order now =>
    let (verdicts, depot) := admitJobs engine quotas (order.jobs.map Prod.fst) now r.depot
    let moments := (r.gauge engine ns).moments
    match verdicts with
    | .ok verdicts =>
      if verdicts.all Option.isNone ∧ order.jobs ≠ [] then
        some ⟨depot, r.flights ++ [(⟨moments.length, order.jobs.length⟩, order)], moments⟩
      else some ⟨depot, r.flights, moments⟩
    | .error _ => some ⟨depot, r.flights, moments⟩
  | .insert flight now =>
    (r.flights.find? fun e => e.1 = flight).map fun e =>
      ⟨{ r.depot with store := e.2.run engine now r.depot.store },
        r.flights.eraseP fun e => e.1 = flight, (r.gauge engine ns).moments⟩
  | .drift store =>
    some ⟨{ r.depot with store := store }, r.flights, (r.gauge engine ns).moments⟩

/-- The calls are of the one namespace, their counts fit an `i64`, and nobody
else is a source of `Pending` jobs. -/
def Fair (r : Race S) : Move S → Prop
  | .count order _ => (∀ job ∈ order.jobs, job.1.namespace = ns) ∧
      0 ≤ engine.pending ns r.depot.store ∧
      engine.pending ns r.depot.store + order.jobs.length < 2 ^ 63
  | .insert .. => True
  | .drift store => engine.pending ns store ≤ engine.pending ns r.depot.store

end Race

/-! ## What a count says -/

variable {engine quotas ns}

theorem namespacesOf_single {jobs : List NewJob} (hne : jobs ≠ [])
    (hns : ∀ job ∈ jobs, job.namespace = ns) : namespacesOf jobs = [ns] := by
  have hmap : jobs.map NewJob.namespace = List.replicate jobs.length ns :=
    eq_replicate_iff.mpr ⟨length_map _, fun x hx => by
      obtain ⟨job, hjob, rfl⟩ := mem_map.mp hx
      exact hns job hjob⟩
  have hlen : jobs.length ≠ 0 := fun h => hne (length_eq_zero_iff.mp h)
  unfold namespacesOf
  rw [hmap, replicate_dedup hlen]
  rfl

/-- **A call that is admitted fits**, as things stand when it counts. -/
theorem fits_of_admitted {quota : QuotaDocument} {cap : Int} {jobs : List NewJob} {now : Int}
    {d d₁ : Depot S} {verdicts : List (Option String)} (hquota : quotas ns = .ok (some quota))
    (hcap : quota.maxPending = some cap) (hns : ∀ job ∈ jobs, job.namespace = ns)
    (hne : jobs ≠ []) (hpos : 0 ≤ engine.pending ns d.store)
    (hlt : engine.pending ns d.store + jobs.length < 2 ^ 63)
    (h : admitJobs engine quotas jobs now d = (.ok verdicts, d₁))
    (hall : verdicts.all Option.isNone = true) :
    engine.pending ns d.store + jobs.length ≤ cap := by
  by_contra hover
  have hshare : (jobs.filter fun job => job.namespace = ns) = jobs :=
    filter_eq_self.mpr fun job hjob => decide_eq_true (hns job hjob)
  obtain ⟨breach, hbreach⟩ : ∃ breach, (excess engine quota ns jobs now d).1 = some breach :=
    excess_of_over now hcap (by unfold saturatingAdd; omega)
  obtain ⟨job, rest, rfl⟩ := exists_cons_of_ne_nil hne
  unfold admitJobs at h
  rw [namespacesOf_single hne hns, admitEach, hquota] at h
  dsimp only at h
  rw [hshare] at h
  cases hexcess : excess engine quota ns (job :: rest) now d with
  | mk =>
    rw [hexcess] at hbreach h
    cases hbreach
    dsimp only at h
    split at h
    · cases h
    · -- The share is shed, the first job with it.
      cases h
      have hreason : List.lookup job.namespace [(ns, breach.shedReason ns)] =
          some (breach.shedReason ns) := by
        rw [hns job mem_cons_self, lookup_cons, beq_self_eq_true]
      dsimp only at hall
      rw [map_cons, all_cons, hreason] at hall
      cases hall

/-! ## The race is a gauge -/

variable {cap : Int} {r r' : Race S} {n : Nat}

def Capped (quotas : QuotaCache) (ns : Scope) (cap : Int) : Prop :=
  ∃ quota, quotas ns = .ok (some quota) ∧ quota.maxPending = some cap

def Race.Sized (r : Race S) : Prop := ∀ e ∈ r.flights, e.1.size = e.2.jobs.length

/-- A call counts: it comes into flight, or it does not and the depot's store is
as it was. -/
theorem Race.next_count {order : Order} {now : Int}
    (h : r.next engine quotas ns (.count order now) = some r') :
    ∃ depot, depot.store = r.depot.store ∧ (r' = ⟨depot, r.flights, (r.gauge engine ns).moments⟩ ∨
      ∃ verdicts, admitJobs engine quotas (order.jobs.map Prod.fst) now r.depot =
          (.ok verdicts, depot) ∧ verdicts.all Option.isNone = true ∧ order.jobs ≠ [] ∧
        r' = ⟨depot, r.flights ++ [(⟨(r.gauge engine ns).moments.length, order.jobs.length⟩,
          order)], (r.gauge engine ns).moments⟩) := by
  have hstore := admit_store engine quotas (order.jobs.map Prod.fst) now r.depot
  dsimp only [Race.next] at h
  generalize admitJobs engine quotas (order.jobs.map Prod.fst) now r.depot = admitted at h hstore ⊢
  obtain ⟨answer, depot⟩ := admitted
  refine ⟨depot, hstore, ?_⟩
  cases answer with
  | error =>
    cases h
    exact .inl rfl
  | ok verdicts =>
    dsimp only at h
    split at h
    · next hgo =>
      cases h
      exact .inr ⟨verdicts, rfl, hgo.1, hgo.2, rfl⟩
    · cases h
      exact .inl rfl

theorem Race.step_sized {move : Race.Move S} (hsized : r.Sized)
    (h : r.next engine quotas ns move = some r') : r'.Sized := by
  cases move with
  | count =>
    obtain ⟨depot, -, rfl | ⟨verdicts, -, -, -, rfl⟩⟩ := Race.next_count h
    · exact hsized
    · intro e he
      rcases mem_append.mp he with he | he
      · exact hsized e he
      · rw [mem_singleton.mp he]
  | insert =>
    obtain ⟨e, -, rfl⟩ := Option.map_eq_some_iff.mp h
    exact fun e' he' => hsized e' (mem_of_mem_eraseP he')
  | drift =>
    cases h
    exact hsized

theorem Race.fits_of_count {order : Order} {now : Int} (hcapped : Capped quotas ns cap)
    (hfair : r.Fair engine ns (.count order now))
    (h : r.next engine quotas ns (.count order now) = some r') (hnew : r'.flights ≠ r.flights) :
    engine.pending ns r.depot.store + order.jobs.length ≤ cap := by
  obtain ⟨quota, hquota, hcap⟩ := hcapped
  obtain ⟨depot, -, rfl | ⟨verdicts, hadmits, hall, hne, -⟩⟩ := Race.next_count h
  · exact absurd rfl hnew
  · have hfits := fits_of_admitted hquota hcap
      (fun job hjob => by
        obtain ⟨e, he, rfl⟩ := mem_map.mp hjob
        exact hfair.1 e he)
      (fun hnil => hne (map_eq_nil_iff.mp hnil)) hfair.2.1
      (by rw [length_map]; exact hfair.2.2) hadmits hall
    rwa [length_map] at hfits

/-- **Every move of the race is one of the gauge.** -/
theorem Race.step_gauge {move : Race.Move S} (hbounded : Bounded engine ns) (hsized : r.Sized)
    (hcapped : Capped quotas ns cap) (hfair : r.Fair engine ns move)
    (h : r.next engine quotas ns move = some r') :
    Gauge.Step cap (r.gauge engine ns) (r'.gauge engine ns) := by
  cases move with
  | count =>
    obtain ⟨depot, hstore, rfl | ⟨verdicts, -, -, -, rfl⟩⟩ := Race.next_count h
    · unfold Race.gauge
      rw [hstore]
      exact .ease (Int.le_refl _)
    · have hfits := Race.fits_of_count hcapped hfair h (by simp)
      unfold Race.gauge
      rw [hstore, map_append]
      exact .count hfits
  | insert flight now =>
    obtain ⟨e, hfind, rfl⟩ := Option.map_eq_some_iff.mp h
    have hflight : e.1 = flight := by simpa using List.find?_some hfind
    subst hflight
    have hin : e.1 ∈ (r.gauge engine ns).now.window :=
      mem_map_of_mem (mem_of_find?_eq_some hfind)
    have herase : (r.flights.eraseP fun e' => e'.1 = e.1).map Prod.fst =
        (r.flights.map Prod.fst).erase e.1 := by
      rw [erase_eq_eraseP, eraseP_map]
      refine congrArg (fun p => (r.flights.eraseP p).map Prod.fst) (funext fun e' => ?_)
      exact decide_eq_decide.mpr ⟨Eq.symm, Eq.symm⟩
    have hadds : engine.pending ns (e.2.run engine now r.depot.store) ≤
        engine.pending ns r.depot.store + e.1.size := by
      rw [hsized e (mem_of_find?_eq_some hfind)]
      exact hbounded e.2 now r.depot.store
    unfold Race.gauge
    rw [herase]
    exact .land hin hadds
  | drift =>
    cases h
    exact .ease hfair

/-! ## The backends add no more than they are given -/

def Adds (count : S → Int) (s s' : S) (n : Nat) : Prop := count s' ≤ count s + n

theorem Adds.refl {count : S → Int} (s : S) (n : Nat) : Adds count s s n := by
  unfold Adds
  omega

theorem Adds.trans {count : S → Int} {s s₁ s' : S} {n m : Nat} (h : Adds count s s₁ n)
    (h' : Adds count s₁ s' m) : Adds count s s' (m + n) := by
  unfold Adds at *
  push_cast
  omega

namespace SqlEngine

open FlexiQ.Sql

theorem insertJob_adds {s s' : Store} {job : Job} (h : insertJob s job = .ok s') :
    Adds (countByNamespace · ns .pending) s s' 1 := by
  have hcount := insertJob_count ns h
  have hone : ([job].filter (counted ns)).length ≤ 1 := length_filter_le (counted ns) [job]
  show countByNamespace s' ns .pending ≤ countByNamespace s ns .pending + (1 : Nat)
  omega

theorem count_rewrites (ns : Scope) {s s' : Store} {row row' : Job}
    (h : Rewrites s s' row.id row') (hrow : s.jobs.find row.id = some row) :
    countByNamespace s' ns .pending + [row].countP (counted ns) =
      countByNamespace s ns .pending + [row'].countP (counted ns) :=
  Dispatch.countJobs_rewrites (counted ns) h hrow

theorem Takes.adds {jobs : List Draft} {s s' : Store} (h : Takes jobs s s') :
    Adds (countByNamespace · ns .pending) s s' jobs.length := by
  induction h with
  | idle jobs s => exact .refl s _
  | @insert _ _ _ s _ _ h =>
    obtain ⟨s₁, hins, h⟩ := bind_eq_ok.mp h
    cases h
    exact (insertJob_adds hins : Adds (countByNamespace · ns .pending) s s₁ 1)
  | @slide _ target row options _ _ hlive _ h =>
    have hcount := count_rewrites ns h hlive
    have hsame : [target.slid row options].countP (counted ns) = [target].countP (counted ns) := rfl
    show countByNamespace _ ns .pending ≤ countByNamespace _ ns .pending + (1 : Nat)
    omega
  | cons _ _ hfirst hrest => exact hfirst.trans hrest

theorem committed_adds {α : Type} {s : Store} {r : Result (α × Store)} {n : Nat}
    (h : ∀ a s', r = .ok (a, s') → Adds (countByNamespace · ns .pending) s s' n) :
    Adds (countByNamespace · ns .pending) s (committed s r).2 n := by
  cases r with
  | error => exact .refl s n
  | ok r => exact h r.1 r.2 rfl

theorem bounded (backend : Backend) (serde : Serde) (ns : Scope) :
    Bounded (SqlEngine.engine backend serde) ns := by
  intro order now s
  cases order with
  | enqueue => exact committed_adds fun _ _ h => (enqueue_takes h).adds
  | enqueueBatch =>
    exact committed_adds fun _ _ h => (insertBatch_takes (enqueueBatch_ok h).1).adds
  | enqueueUnique => exact committed_adds fun _ _ h => (enqueueUnique_takes h).adds
  | enqueueUniqueBatch => exact committed_adds fun _ _ h => (enqueueUniqueBatch_takes h).adds
  | enqueueDebounced =>
    exact committed_adds fun _ _ h => (enqueueDebounced_takes h).adds

end SqlEngine

namespace RedisEngine

open FlexiQ.Redis

/-- A command that puts no other id than this into the counted indexes. -/
def Tagged (id : String) : Cmd → Prop
  | .sadd (.byNs _) m | .sadd (.status _) m => m = id
  | _ => True

/-- No other id than this came into the counted indexes. -/
def Grows (ns : Scope) (id : String) (s s' : Store) : Prop :=
  ∀ m, m ≠ id → (s'.sets.sismember (.byNs ns) m = true → s.sets.sismember (.byNs ns) m = true) ∧
    (s'.sets.sismember (.status .pending) m = true →
      s.sets.sismember (.status .pending) m = true)

theorem apply_grows {s : Store} {id : String} {c : Cmd} (h : Tagged id c) :
    Grows ns id s (s.apply c) := by
  intro m hm
  cases c with
  | sadd key m' =>
    have hsadd := fun key' => Sets.sismember_sadd s.sets key key' m' m
    cases key with
    | byNs | status =>
      cases h
      exact ⟨fun hin => by simpa [hm] using (hsadd (.byNs ns)).symm.trans hin,
        fun hin => by simpa [hm] using (hsadd (.status .pending)).symm.trans hin⟩
    | _ =>
      exact ⟨fun hin => by simpa using (hsadd (.byNs ns)).symm.trans hin,
        fun hin => by simpa using (hsadd (.status .pending)).symm.trans hin⟩
  | srem key m' =>
    have hsrem := fun key' => Sets.sismember_srem s.sets key key' m' m
    exact ⟨fun hin => (Bool.and_eq_true _ _ ▸ (hsrem (.byNs ns)).symm.trans hin).2,
      fun hin => (Bool.and_eq_true _ _ ▸ (hsrem (.status .pending)).symm.trans hin).2⟩
  | delSet key =>
    have hdrop := fun key' => Sets.sismember_drop s.sets key key' m
    exact ⟨fun hin => (Bool.and_eq_true _ _ ▸ (hdrop (.byNs ns)).symm.trans hin).2,
      fun hin => (Bool.and_eq_true _ _ ▸ (hdrop (.status .pending)).symm.trans hin).2⟩
  | _ => exact ⟨fun hin => hin, fun hin => hin⟩

theorem Grows.trans {s s₁ s' : Store} {id : String} (h : Grows ns id s s₁)
    (h' : Grows ns id s₁ s') : Grows ns id s s' := fun m hm =>
  ⟨fun hin => (h m hm).1 ((h' m hm).1 hin), fun hin => (h m hm).2 ((h' m hm).2 hin)⟩

theorem exec_grows {id : String} : ∀ {cmds : List Cmd} {s : Store}, (∀ c ∈ cmds, Tagged id c) →
    Grows ns id s (s.exec cmds)
  | [], s, _ => fun _ _ => ⟨fun hin => hin, fun hin => hin⟩
  | c :: cmds, s, h => by
    have hfirst : Grows ns id s (s.apply c) := apply_grows (h c mem_cons_self)
    exact hfirst.trans (exec_grows fun c' hc' => h c' (mem_cons_of_mem _ hc'))

theorem adds_of_sets {s s' : Store} (h : s'.sets = s.sets) (n : Nat) :
    Adds (countByNamespace · ns .pending) s s' n := by
  show countByNamespace s' ns .pending ≤ countByNamespace s ns .pending + n
  unfold countByNamespace
  rw [h]
  omega

theorem Grows.adds {s s' : Store} {id : String} (h : Grows ns id s s') :
    Adds (countByNamespace · ns .pending) s s' 1 := by
  have hle : s'.sets.sintercard (.byNs ns) (.status .pending) ≤
      s.sets.sintercard (.byNs ns) (.status .pending) + 1 := by
    refine Sets.sintercard_le_succ id fun m hm hin => ?_
    rw [Bool.and_eq_true] at hin ⊢
    exact ⟨(h m hm).1 hin.1, (h m hm).2 hin.2⟩
  show countByNamespace s' ns .pending ≤ countByNamespace s ns .pending + (1 : Nat)
  unfold countByNamespace
  exact_mod_cast hle

theorem insertOps_tagged {job : Job} {dependsOn : List String} :
    ∀ c ∈ insertOps job dependsOn, Tagged job.id c :=
  forall_insertOps.mpr ⟨trivial, rfl, trivial, trivial, trivial, rfl, fun _ _ => trivial,
    fun _ _ => ⟨trivial, trivial⟩⟩

theorem Takes.adds {jobs : List Draft} {s s' : Store} (h : Takes jobs s s') :
    Adds (countByNamespace · ns .pending) s s' jobs.length := by
  induction h with
  | idle h => exact adds_of_sets h _
  | @insert _ row dependsOn _ s₁ _ _ _ hbefore hafter =>
    have hins : Adds (countByNamespace · ns .pending) s₁ (s₁.exec (insertOps row dependsOn)) 1 :=
      (exec_grows insertOps_tagged).adds
    exact ((adds_of_sets hbefore 0).trans hins).trans (adds_of_sets hafter 0)
  | cons _ _ hfirst hrest => exact hfirst.trans hrest

theorem bounded (serde : Serde) (ns : Scope) : Bounded (RedisEngine.engine serde) ns := by
  intro order now s
  cases order with
  | enqueue job => exact (enqueue_takes s job now).adds
  | enqueueBatch jobs => exact (enqueueBatch_takes s jobs now).adds
  | enqueueUnique job => exact (enqueueUnique_takes s job now).adds
  | enqueueUniqueBatch jobs => exact (enqueueUniqueBatch_takes now jobs s).adds
  | enqueueDebounced job options => exact (enqueueDebounced_takes s job options now).adds

end RedisEngine

theorem bounded_engineOf (serde : Serde) (b : Backend) (ns : Scope) :
    Bounded (engineOf serde b) ns := by
  cases b with
  | sqlite => exact SqlEngine.bounded .sqlite serde ns
  | postgres => exact SqlEngine.bounded .postgres serde ns
  | redis => exact RedisEngine.bounded serde ns

/-! ## Runs -/

def Race.start (d : Depot S) : Race S := ⟨d, [], []⟩

theorem Race.gauge_sound {d : Depot S} {r : Race S} (hbounded : Bounded engine ns)
    (hcapped : Capped quotas ns cap) (hstart : engine.pending ns d.store ≤ cap)
    (hrun : Reaches (Race.next engine quotas ns) (Race.Fair engine ns) (.start d) r) :
    (r.gauge engine ns).Sound cap ∧ r.Sized := by
  refine hrun.invariant (I := fun r => (r.gauge engine ns).Sound cap ∧ r.Sized)
    ⟨Gauge.sound_start hstart rfl, fun e he => nomatch he⟩ ?_
  intro r move r' ⟨hgauge, hsized⟩ hfair h
  exact ⟨(Race.step_gauge hbounded hsized hcapped hfair h).sound hgauge, Race.step_sized hsized h⟩

/-- **The overshoot is bounded by the batches in flight at one moment**, and
with nobody in flight a call is admitted only if it fits. -/
theorem overshoot_within_flights (serde : Serde) (b : Backend)
    (quotas : Option String → Except QueueError (Option QuotaDocument)) (ns : Option String)
    (cap : Int) (d : Depot (StoreOf b)) (r : Race (StoreOf b)) (hcapped : Capped quotas ns cap)
    (hstart : (engineOf serde b).pending ns d.store ≤ cap)
    (hrun : Reaches (Race.next (engineOf serde b) quotas ns) (Race.Fair (engineOf serde b) ns)
      (.start d) r) :
    (∃ μ ∈ (r.gauge (engineOf serde b) ns).moments,
      (engineOf serde b).pending ns r.depot.store ≤ cap + μ.inFlight) ∧
    (r.flights = [] → ∀ (order : Order) (now : Int) (r' : Race (StoreOf b)),
      r.Fair (engineOf serde b) ns (.count order now) →
      r.next (engineOf serde b) quotas ns (.count order now) = some r' → r'.flights ≠ [] →
      (engineOf serde b).pending ns r.depot.store + order.jobs.length ≤ cap) := by
  refine ⟨(Race.gauge_sound (bounded_engineOf serde b ns) hcapped hstart hrun).1.overshoot, ?_⟩
  intro hnone order now r' hfair h hnew
  exact Race.fits_of_count hcapped hfair h (hnone ▸ hnew)

instance (r : Race S) (move : Race.Move S) : Decidable (r.Fair engine ns move) := by
  cases move <;> unfold Race.Fair <;> infer_instance

open FlexiQ.Sql (noJson plainJob)

def twoProducers : List (Race.Move (StoreOf .sqlite)) :=
  [.count (.enqueue (plainJob [], "a")) 0, .count (.enqueue (plainJob [], "b")) 0,
    .insert ⟨1, 1⟩ 1, .insert ⟨2, 1⟩ 1]

theorem two_producers_overshoot : ∃ r : Race (StoreOf .sqlite),
    (engineOf noJson .sqlite).pending none r.depot.store = 2 ∧
    ∃ μ ∈ (r.gauge (engineOf noJson .sqlite) none).moments,
      (engineOf noJson .sqlite).pending none r.depot.store ≤ 1 + μ.inFlight := by
  obtain ⟨r, hrun, htwo⟩ : ∃ r, Reaches (Race.next (engineOf noJson .sqlite) onePending none)
      (Race.Fair (engineOf noJson .sqlite) none) (.start ⟨FlexiQ.Sql.Store.empty, .empty⟩) r ∧
      (engineOf noJson .sqlite).pending none r.depot.store = 2 :=
    exists_reached twoProducers
  exact ⟨r, htwo, (overshoot_within_flights noJson .sqlite onePending none 1
    ⟨FlexiQ.Sql.Store.empty, .empty⟩ r ⟨_, rfl, rfl⟩ (by decide +kernel) hrun).1⟩

end FlexiQ.Quota
