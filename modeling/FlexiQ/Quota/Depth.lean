/-
# `Quota.Depth` — a full namespace takes no job through the gate

What a backend owes the gate is that its own enqueues, under ids that are new
to it, touch the `Pending` counts of no other namespace than their jobs'
(`Confined`).  Then no door that passes the gate adds a job to a full
namespace with a `reject` quota.

`retry_dead` and the auto-retry pass no gate.  What they bring back is one job
more (`Resurrecting`), so a full namespace stays as it is exactly under the
doors that resurrect nothing in it (`Door.Spares`).
-/
import FlexiQ.Quota.Producers

namespace FlexiQ.Quota

open List FlexiQ.Lib FlexiQ.Resilience

variable {S : Type} {engine : Engine S}
  {quotas : QuotaCache} {ns : Scope}
  {fresh : S → String → Prop} {d : Depot S} {jobs : List NewJob}

abbrev Engine.pending (engine : Engine S) (ns : Scope) (s : S) : Int :=
  engine.countByNamespace s ns .pending

/-- A call left the namespace's `Pending` jobs as they were, and used up no
id but its own. -/
structure Leaves (engine : Engine S) (fresh : S → String → Prop) (ns : Scope)
    (s s' : S) : Prop where
  pending : engine.pending ns s' = engine.pending ns s
  fresh : ∀ id, fresh s id → fresh s' id

theorem Leaves.refl (s : S) : Leaves engine fresh ns s s := ⟨rfl, fun _ h => h⟩

theorem Leaves.trans {s s₁ s' : S} (h : Leaves engine fresh ns s s₁)
    (h' : Leaves engine fresh ns s₁ s') : Leaves engine fresh ns s s' :=
  ⟨h'.pending.trans h.pending, fun id hid => h'.fresh id (h.fresh id hid)⟩

/-- Jobs for other namespaces, under ids that are new to the backend. -/
def Foreign (fresh : S → String → Prop) (ns : Scope) (s : S) (jobs : List Draft) : Prop :=
  ∀ job ∈ jobs, job.1.namespace ≠ ns ∧ fresh s job.2

def Resurrects (engine : Engine S) (ns scope : Scope) (s : S) (id : String) : Prop :=
  engine.deadNamespace s id = some ns ∧ visibleIn scope ns = true

/-- The backend's own calls leave a namespace alone unless they are given a
job for it. -/
structure Confined (engine : Engine S) (fresh : S → String → Prop) (ns : Scope) :
    Prop where
  enqueue : ∀ job now s, job.1.namespace ≠ ns → fresh s job.2 →
    Leaves engine fresh ns s (engine.enqueue job now s).2
  enqueueBatch : ∀ jobs now s, Foreign fresh ns s jobs →
    Leaves engine fresh ns s (engine.enqueueBatch jobs now s).2
  enqueueUnique : ∀ job now s, job.1.namespace ≠ ns → fresh s job.2 →
    Leaves engine fresh ns s (engine.enqueueUniqueReporting job now s).2
  enqueueUniqueBatch : ∀ jobs now s, Foreign fresh ns s jobs →
    Leaves engine fresh ns s (engine.enqueueUniqueBatchReporting jobs now s).2
  enqueueDebounced : ∀ job options now s, job.1.namespace ≠ ns → fresh s job.2 →
    Leaves engine fresh ns s (engine.enqueueDebounced job options now s).2
  shed : ∀ jobs metadata now s, (∀ e ∈ jobs, e.1.status = .dead ∧ fresh s e.1.id) →
    Leaves engine fresh ns s (engine.shedNewJobs jobs metadata now s).2
  retryDead : ∀ id scope newId now s, ¬ Resurrects engine ns scope s id → fresh s newId →
    Leaves engine fresh ns s (engine.retryDead id scope newId now s).2
  entries : ∀ id scope newId now s id', engine.deadNamespace s id' ≠ some ns →
    engine.deadNamespace (engine.retryDead id scope newId now s).2 id' ≠ some ns

structure Resurrecting (engine : Engine S) (unused : S → String → Prop) (ns : Scope) :
    Prop where
  grows : ∀ id scope newId now s,
    engine.pending ns s ≤ engine.pending ns (engine.retryDead id scope newId now s).2
  raises : ∀ id scope newId now s, Resurrects engine ns scope s id → unused s newId →
    engine.pending ns s < engine.pending ns (engine.retryDead id scope newId now s).2
  candidates : ∀ cutoff maxRetries scope queues limit s,
    ∀ entry ∈ engine.listDeadForRetry cutoff maxRetries scope queues limit s,
      engine.deadNamespace s entry.id = some scope

/-- The namespace is at its cap, and its quota rejects. -/
def Full (engine : Engine S) (quotas : QuotaCache) (ns : Scope) (s : S) : Prop :=
  ∃ quota cap, quotas ns = .ok (some quota) ∧ quota.onExcess = .reject ∧
    quota.maxPending = some cap ∧ cap ≤ engine.pending ns s ∧ engine.pending ns s < 2 ^ 63 - 1

theorem Full.of_pending {s s' : S} (h : Full engine quotas ns s)
    (hsame : engine.pending ns s' = engine.pending ns s) : Full engine quotas ns s' := by
  obtain ⟨quota, cap, hquota, hreject, hcap, hle, hlt⟩ := h
  exact ⟨quota, cap, hquota, hreject, hcap, hsame ▸ hle, hsame ▸ hlt⟩

/-! ## The gate -/

theorem excess_store (engine : Engine S) (quota : QuotaDocument) (ns : Scope)
    (share : List NewJob) (now : Int) (d : Depot S) :
    (excess engine quota ns share now d).2.store = d.store := by
  unfold excess
  dsimp only
  split
  · rfl
  · unfold rateExcess
    split <;> rfl

theorem admitEach_store (jobs : List NewJob) (now : Int) : ∀ (l : List (Option String))
    (d : Depot S), (admitEach engine quotas jobs now l d).2.store = d.store
  | [], d => rfl
  | ns :: rest, d => by
    unfold admitEach
    split
    · rfl
    · exact admitEach_store jobs now rest d
    · next quota _ =>
      have hexcess := excess_store engine quota ns
        (jobs.filter fun job => job.namespace = ns) now d
      split
      · next d₁ heq =>
        rw [heq] at hexcess
        exact (admitEach_store jobs now rest d₁).trans hexcess
      · next breach d₁ heq =>
        rw [heq] at hexcess
        split
        · exact hexcess
        · exact (admitEach_store jobs now rest d₁).trans hexcess

theorem excess_of_over {quota : QuotaDocument} {cap : Int} {share : List NewJob} (now : Int)
    (hcap : quota.maxPending = some cap)
    (hover : cap < saturatingAdd (engine.pending ns d.store) share.length) :
    ∃ breach, (excess engine quota ns share now d).1 = some breach := by
  unfold excess
  dsimp only
  rw [hcap, Option.filter_some, if_pos (by simpa using hover)]
  exact ⟨_, rfl⟩

theorem admitEach_refuses (now : Int) (hjob : ∃ job ∈ jobs, job.namespace = ns) :
    ∀ {l : List (Option String)} {d : Depot S}, Full engine quotas ns d.store → ns ∈ l →
      ∃ e, (admitEach engine quotas jobs now l d).1 = .error e
  | [], d, _, hmem => by cases hmem
  | ns' :: rest, d, hfull, hmem => by
    have hrest : ∀ d₁ : Depot S, d₁.store = d.store → ns ∈ rest →
        ∃ e, (admitEach engine quotas jobs now rest d₁).1 = .error e := by
      intro d₁ hstore hin
      exact admitEach_refuses now hjob (hstore ▸ hfull) hin
    unfold admitEach
    by_cases hns : ns = ns'
    · subst hns
      obtain ⟨quota, cap, hquota, hreject, hcap, hle, hlt⟩ := hfull
      -- A full namespace has room for no share at all.
      have hover : cap < saturatingAdd (engine.pending ns d.store)
          (jobs.filter fun job => job.namespace = ns).length := by
        obtain ⟨job, hin, hjns⟩ := hjob
        have hshare : 0 < (jobs.filter fun job => job.namespace = ns).length :=
          length_pos_of_mem (mem_filter.mpr ⟨hin, decide_eq_true hjns⟩)
        unfold saturatingAdd
        omega
      obtain ⟨breach, hbreach⟩ := excess_of_over now hcap hover
      rw [hquota]
      dsimp only
      split
      · next d₁ heq =>
        rw [heq] at hbreach
        cases hbreach
      · rw [hreject]
        exact ⟨_, rfl⟩
    · have hin : ns ∈ rest := (mem_cons.mp hmem).resolve_left hns
      split
      · exact ⟨_, rfl⟩
      · exact hrest d rfl hin
      · next quota _ =>
        have hexcess := excess_store engine quota ns'
          (jobs.filter fun job => job.namespace = ns') now d
        split
        · next d₁ heq =>
          rw [heq] at hexcess
          exact hrest d₁ hexcess hin
        · next breach d₁ heq =>
          rw [heq] at hexcess
          split
          · exact ⟨_, rfl⟩
          · obtain ⟨e, he⟩ := hrest d₁ hexcess hin
            dsimp only
            rw [he]
            exact ⟨e, rfl⟩

theorem mem_namespacesOf : ns ∈ namespacesOf jobs ↔ ∃ job ∈ jobs, job.namespace = ns := by
  unfold namespacesOf
  rw [mem_insertionSort, mem_dedup, mem_map]

theorem admit_store (engine : Engine S) (quotas : QuotaCache) (jobs : List NewJob)
    (now : Int) (d : Depot S) :
    (admitJobs engine quotas jobs now d).2.store = d.store :=
  admitEach_store jobs now _ d

theorem admit_refuses (now : Int) (hfull : Full engine quotas ns d.store)
    (hjob : ∃ job ∈ jobs, job.namespace = ns) :
    ∃ e, (admitJobs engine quotas jobs now d).1 = .error e := by
  obtain ⟨e, he⟩ := admitEach_refuses now hjob hfull (mem_namespacesOf.mpr hjob)
  refine ⟨e, ?_⟩
  unfold admitJobs
  dsimp only
  rw [he]
  rfl

section

variable (hconf : Confined engine fresh ns) (verdicts : List (Option String))
  (deadIds : Nat → String) (now : Int)
include hconf

theorem recordShed_leaves {T : Type} {dead : List (Job × String)} (shed : Job → T)
    (done : List T) (committed : Bool) (store : S)
    (hdead : ∀ e ∈ dead, e.1.status = .dead ∧ fresh store e.1.id) :
    Leaves engine fresh ns store
      (recordShed engine verdicts dead deadIds now shed done committed store).2 := by
  have hshed := hconf.shed (dead.zipIdx.map fun e => (e.1.1, e.1.2, deadIds e.2))
    (some quotaShedMetadata) now store fun e he => by
      obtain ⟨⟨e', i⟩, hmem, rfl⟩ := mem_map.mp he
      exact hdead e' (fst_mem_of_mem_zipIdx hmem)
  unfold recordShed
  dsimp only
  split <;> exact hshed

/-- What is passed on to the backend is about other namespaces, if the call
is. -/
theorem enqueueJudged_leaves {T : Type} {news : List Draft}
    {enqueue : List Draft → S → Result (List T) × S} (shed : Job → T) (store : S)
    (hother : Foreign fresh ns store news)
    (henqueue : ∀ jobs s, Foreign fresh ns s jobs → Leaves engine fresh ns s (enqueue jobs s).2) :
    Leaves engine fresh ns store
      (enqueueJudged engine news verdicts deadIds now enqueue shed store).2 := by
  have hadmitted : Foreign fresh ns store ((news.zip verdicts).filterMap
      fun e => if e.2.isNone then some e.1 else none) := by
    intro job hjob
    obtain ⟨e, he, hsome⟩ := mem_filterMap.mp hjob
    split at hsome
    · cases hsome
      exact hother _ (of_mem_zip he).1
    · cases hsome
  have hdead : ∀ e ∈ (news.zip verdicts).filterMap
      (fun e => e.2.map fun reason => (shedCopy e.1.1 e.1.2 reason now, reason)),
      e.1.status = .dead ∧ fresh store e.1.id := by
    intro e he
    obtain ⟨e', hmem, hsome⟩ := mem_filterMap.mp he
    obtain ⟨reason, -, rfl⟩ := Option.map_eq_some_iff.mp hsome
    exact ⟨rfl, (hother _ (of_mem_zip hmem).1).2⟩
  unfold enqueueJudged
  split
  · exact henqueue news store hother
  · dsimp only
    split
    · exact recordShed_leaves hconf _ _ _ _ _ _ _ hdead
    · have hpass := henqueue _ store hadmitted
      split
      · next heq =>
        rw [heq] at hpass
        exact hpass
      · next heq =>
        rw [heq] at hpass
        exact hpass.trans (recordShed_leaves hconf _ _ _ _ _ _ _ fun e he =>
          ⟨(hdead e he).1, hpass.fresh _ (hdead e he).2⟩)

end

/-- **The gate leaves a full namespace as it is.** -/
theorem withQuota_leaves {T : Type} {news : List Draft} {deadIds : Nat → String}
    {now : Int} {enqueue : List Draft → S → Result (List T) × S}
    {shed : Job → T} (hconf : Confined engine fresh ns) (hfull : Full engine quotas ns d.store)
    (hfresh : ∀ job ∈ news, fresh d.store job.2)
    (henqueue : ∀ jobs s, Foreign fresh ns s jobs → Leaves engine fresh ns s (enqueue jobs s).2) :
    Leaves engine fresh ns d.store
      (withQuota engine quotas news deadIds now enqueue shed d).2.store := by
  have hstore := admit_store engine quotas (news.map Prod.fst) now d
  unfold withQuota
  by_cases hjob : ∃ job ∈ news.map Prod.fst, job.namespace = ns
  · obtain ⟨e, he⟩ := admit_refuses now hfull hjob
    generalize admitJobs engine quotas (news.map Prod.fst) now d = answer at hstore he
    obtain ⟨verdicts, d₁⟩ := answer
    cases he
    rw [← hstore]
    exact .refl _
  · have hother : Foreign fresh ns d.store news := fun job hin =>
      ⟨fun hns => hjob ⟨job.1, mem_map_of_mem hin, hns⟩, hfresh job hin⟩
    generalize admitJobs engine quotas (news.map Prod.fst) now d = answer at hstore
    obtain ⟨verdicts, d₁⟩ := answer
    rw [← hstore] at hother ⊢
    cases verdicts with
    | error e => exact .refl _
    | ok verdicts => exact enqueueJudged_leaves hconf _ _ _ _ _ hother henqueue

/-! ## The doors -/

/-- Every operation that creates a job. -/
inductive Door
  | enqueue (supply : Supply) (new : NewJob)
  | enqueueBatch (supply : Supply) (news : List NewJob)
  | enqueueUnique (supply : Supply) (new : NewJob)
  | enqueueUniqueReporting (supply : Supply) (new : NewJob)
  | enqueueUniqueBatch (supply : Supply) (news : List NewJob)
  | enqueueUniqueBatchReporting (supply : Supply) (news : List NewJob)
  | enqueueDebounced (supply : Supply) (new : NewJob) (options : DebounceOptions)
  | enqueueBatchDedup (supply : Supply) (news : List NewJob)
  | publish (supply : Supply) (request : PublishRequest) (subscriptions : List Subscription)
  | firePeriodic (supply : Supply) (task : PeriodicTask)
  | checkPeriodic (due : List (PeriodicTask × Supply))
  | retryDead (deadId : String) (scope : Scope) (newId : String) (now : Int)
  | autoRetryDlq (cutoff maxRetries : Int) (scope : Scope) (queues : List String)
      (supply : Supply)

def Door.run (engine : Engine S) (quotas : QuotaCache)
    (serde : Serde) (d : Depot S) : Door → Depot S
  | .enqueue supply new => (Quota.enqueue engine quotas supply new d).2
  | .enqueueBatch supply news => (Quota.enqueueBatch engine quotas supply news d).2
  | .enqueueUnique supply new => (Quota.enqueueUnique engine quotas supply new d).2
  | .enqueueUniqueReporting supply new =>
    (Quota.enqueueUniqueReporting engine quotas supply new d).2
  | .enqueueUniqueBatch supply news => (Quota.enqueueUniqueBatch engine quotas supply news d).2
  | .enqueueUniqueBatchReporting supply news =>
    (Quota.enqueueUniqueBatchReporting engine quotas supply news d).2
  | .enqueueDebounced supply new options =>
    (Quota.enqueueDebounced engine quotas supply new options d).2
  | .enqueueBatchDedup supply news => (Quota.enqueueBatchDedup engine quotas supply news d).2
  | .publish supply request subscriptions =>
    (publishToTopic engine quotas serde supply request subscriptions d).2
  | .firePeriodic supply task => (Quota.firePeriodic engine quotas supply task d).2
  | .checkPeriodic due => Quota.checkPeriodic engine quotas due d
  | .retryDead deadId scope newId now => (Quota.retryDead engine deadId scope newId now d).2
  | .autoRetryDlq cutoff maxRetries scope queues supply =>
    Quota.autoRetryDlq engine cutoff maxRetries scope queues supply d

def Door.Spares (engine : Engine S) (ns : Scope) (s : S) : Door → Prop
  | .retryDead deadId scope .. => ¬ Resurrects engine ns scope s deadId
  | .autoRetryDlq cutoff maxRetries scope queues _ =>
    ∀ entry ∈ retryCandidates engine cutoff maxRetries scope queues s,
      ¬ Resurrects engine ns scope s entry.id
  | _ => True

def Door.Fresh (fresh : S → String → Prop) (s : S) : Door → Prop
  | .enqueue supply _ | .enqueueBatch supply _ | .enqueueUnique supply _
  | .enqueueUniqueReporting supply _ | .enqueueUniqueBatch supply _
  | .enqueueUniqueBatchReporting supply _ | .enqueueDebounced supply _ _
  | .enqueueBatchDedup supply _ | .publish supply _ _ | .firePeriodic supply _
  | .autoRetryDlq _ _ _ _ supply => ∀ n, fresh s (supply.jobIds n)
  | .checkPeriodic due => ∀ e ∈ due, ∀ n, fresh s (e.2.jobIds n)
  | .retryDead _ _ newId _ => fresh s newId

def Door.Revives (unused : S → String → Prop) (s : S) : Door → Prop
  | .retryDead _ _ newId _ => unused s newId
  | .autoRetryDlq _ _ _ _ supply => ∀ n, unused s (supply.jobIds n)
  | _ => True

theorem Door.Fresh.revives {s : S} {door : Door} (h : door.Fresh fresh s) :
    door.Revives fresh s := by
  cases door with
  | retryDead | autoRetryDlq => exact h
  | _ => trivial

theorem named_fresh {s : S} {supply : Supply} (h : ∀ n, fresh s (supply.jobIds n))
    (news : List NewJob) : ∀ job ∈ supply.named news, fresh s job.2 := by
  intro job hjob
  obtain ⟨e, -, rfl⟩ := mem_map.mp hjob
  exact h e.2

theorem one_leaves {T : Type} {f : Draft → Int → S → Result T × S}
    (hf : ∀ job now s, job.1.namespace ≠ ns → fresh s job.2 →
      Leaves engine fresh ns s (f job now s).2) (now : Int) :
    ∀ jobs s, Foreign fresh ns s jobs → Leaves engine fresh ns s (one f now jobs s).2
  | [], s, _ => .refl s
  | job :: _, s, hother =>
    hf job now s (hother job mem_cons_self).1 (hother job mem_cons_self).2

section Calls

variable (hconf : Confined engine fresh ns) (hfull : Full engine quotas ns d.store)
  {supply : Supply} (hfresh : ∀ n, fresh d.store (supply.jobIds n))
include hconf hfull hfresh

theorem enqueueBatch_leaves (news : List NewJob) :
    Leaves engine fresh ns d.store (enqueueBatch engine quotas supply news d).2.store :=
  withQuota_leaves hconf hfull (named_fresh hfresh news) fun jobs =>
    hconf.enqueueBatch jobs supply.now

theorem enqueueUniqueReporting_leaves (new : NewJob) : Leaves engine fresh ns d.store
      (enqueueUniqueReporting engine quotas supply new d).2.store :=
  withQuota_leaves hconf hfull (named_fresh hfresh [new])
    (one_leaves hconf.enqueueUnique supply.now)

theorem enqueueUniqueBatch_leaves (news : List NewJob) :
    Leaves engine fresh ns d.store (enqueueUniqueBatch engine quotas supply news d).2.store :=
  withQuota_leaves hconf hfull (named_fresh hfresh news) fun jobs =>
    hconf.enqueueUniqueBatch jobs supply.now

theorem publishToTopic_leaves (serde : Serde) (request : PublishRequest)
    (subscriptions : List Subscription) :
    Leaves engine fresh ns d.store
      (publishToTopic engine quotas serde supply request subscriptions d).2.store := by
  unfold publishToTopic
  dsimp only
  split
  · exact .refl _
  · split
    · exact enqueueBatch_leaves hconf hfull hfresh _
    · exact enqueueUniqueBatch_leaves hconf hfull hfresh _

end Calls

theorem checkPeriodic_leaves (hconf : Confined engine fresh ns) :
    ∀ (due : List (PeriodicTask × Supply)) {d : Depot S}, Full engine quotas ns d.store →
      (∀ e ∈ due, ∀ n, fresh d.store (e.2.jobIds n)) →
      Leaves engine fresh ns d.store (checkPeriodic engine quotas due d).store
  | [], _, _, _ => .refl _
  | (task, supply) :: rest, d, hfull, hfresh => by
    have hfire : Leaves engine fresh ns d.store
        (firePeriodic engine quotas supply task d).2.store :=
      enqueueUniqueReporting_leaves hconf hfull (hfresh _ mem_cons_self) _
    have hrest := checkPeriodic_leaves hconf rest (hfull.of_pending hfire.pending)
      fun e he n => hfire.fresh _ (hfresh e (mem_cons_of_mem _ he) n)
    exact hfire.trans hrest

theorem retryEach_leaves (hconf : Confined engine fresh ns) (scope : Scope) (now : Int) :
    ∀ (entries : List (DeadSummary × String)) {d : Depot S},
      (∀ e ∈ entries, ¬ Resurrects engine ns scope d.store e.1.id ∧ fresh d.store e.2) →
      Leaves engine fresh ns d.store (retryEach engine scope now entries d).store
  | [], _, _ => .refl _
  | (entry, newId) :: rest, d, hspare => by
    obtain ⟨hns, hnew⟩ := hspare _ mem_cons_self
    have hfirst := hconf.retryDead entry.id scope newId now d.store hns hnew
    have hrest : ∀ e ∈ rest,
        ¬ Resurrects engine ns scope (retryDead engine entry.id scope newId now d).2.store e.1.id ∧
          fresh (retryDead engine entry.id scope newId now d).2.store e.2 := by
      intro e he
      obtain ⟨hout, hbefore⟩ := hspare e (mem_cons_of_mem _ he)
      refine ⟨fun hres => ?_, hfirst.fresh _ hbefore⟩
      -- No entry comes in, so one of the namespace was one before.
      have hgone : engine.deadNamespace d.store e.1.id ≠ some ns := fun hin => hout ⟨hin, hres.2⟩
      exact hconf.entries entry.id scope newId now d.store e.1.id hgone hres.1
    exact hfirst.trans (retryEach_leaves hconf scope now rest hrest)

theorem retryEach_grows {unused : S → String → Prop} (hres : Resurrecting engine unused ns)
    (scope : Scope) (now : Int) : ∀ (entries : List (DeadSummary × String)) (d : Depot S),
      engine.pending ns d.store ≤ engine.pending ns (retryEach engine scope now entries d).store
  | [], _ => Int.le_refl _
  | (entry, newId) :: rest, d =>
    (hres.grows entry.id scope newId now d.store).trans (retryEach_grows hres scope now rest _)

/-- A sweep that finds an entry of the namespace resurrects the first it
finds, for it finds no others. -/
theorem autoRetryDlq_raises {unused : S → String → Prop} (hres : Resurrecting engine unused ns)
    {cutoff maxRetries : Int} {scope : Scope} {queues : List String} {supply : Supply}
    {entry : DeadSummary}
    (hmem : entry ∈ retryCandidates engine cutoff maxRetries scope queues d.store)
    (hentry : Resurrects engine ns scope d.store entry.id)
    (hunused : ∀ n, unused d.store (supply.jobIds n)) :
    engine.pending ns d.store <
      engine.pending ns (autoRetryDlq engine cutoff maxRetries scope queues supply d).store := by
  have hscope : ∀ e ∈ retryCandidates engine cutoff maxRetries scope queues d.store,
      engine.deadNamespace d.store e.id = some scope := fun e he =>
    hres.candidates _ _ _ _ _ _ e (mem_filter.mp he).1
  obtain rfl : scope = ns := Option.some.inj ((hscope entry hmem).symm.trans hentry.1)
  unfold autoRetryDlq
  generalize retryCandidates engine cutoff maxRetries scope queues d.store = found at hmem hscope
  cases found with
  | nil => cases hmem
  | cons first rest =>
    have hfirst := hres.raises first.id scope (supply.jobIds 0) supply.now d.store
      ⟨hscope first mem_cons_self, hentry.2⟩ (hunused 0)
    have hrest := retryEach_grows hres scope supply.now
      ((rest.zipIdx 1).map fun e => (e.1, supply.jobIds e.2))
      (retryDead engine first.id scope (supply.jobIds 0) supply.now d).2
    exact Int.lt_of_lt_of_le hfirst hrest

/-- **No door adds a job to a full namespace**, unless it resurrects one
there. -/
theorem Door.leaves (hconf : Confined engine fresh ns) (hfull : Full engine quotas ns d.store)
    (serde : Serde) (door : Door) (hspare : door.Spares engine ns d.store)
    (hfresh : door.Fresh fresh d.store) :
    Leaves engine fresh ns d.store (door.run engine quotas serde d).store := by
  cases door with
  | enqueue supply new =>
    exact withQuota_leaves hconf hfull (named_fresh hfresh [new])
      (one_leaves hconf.enqueue supply.now)
  | enqueueBatch supply news => exact enqueueBatch_leaves hconf hfull hfresh news
  | enqueueUnique _ new | enqueueUniqueReporting _ new =>
    exact enqueueUniqueReporting_leaves hconf hfull hfresh new
  | enqueueUniqueBatch _ news | enqueueUniqueBatchReporting _ news =>
    exact enqueueUniqueBatch_leaves hconf hfull hfresh news
  | enqueueDebounced supply new options =>
    exact withQuota_leaves hconf hfull (named_fresh hfresh [new])
      (one_leaves (fun job => hconf.enqueueDebounced job options) supply.now)
  | enqueueBatchDedup supply news =>
    show Leaves engine fresh ns d.store
      (Quota.enqueueBatchDedup engine quotas supply news d).2.store
    unfold Quota.enqueueBatchDedup
    split
    · exact enqueueUniqueBatch_leaves hconf hfull hfresh news
    · exact enqueueBatch_leaves hconf hfull hfresh news
  | publish supply request subscriptions =>
    exact publishToTopic_leaves hconf hfull hfresh serde request subscriptions
  | firePeriodic supply task => exact enqueueUniqueReporting_leaves hconf hfull hfresh _
  | checkPeriodic due => exact checkPeriodic_leaves hconf due hfull hfresh
  | retryDead deadId scope newId now =>
    exact hconf.retryDead deadId scope newId now d.store hspare hfresh
  | autoRetryDlq cutoff maxRetries scope queues supply =>
    refine retryEach_leaves hconf scope supply.now _ fun e he => ?_
    obtain ⟨e', hmem, rfl⟩ := mem_map.mp he
    exact ⟨hspare e'.1 (fst_mem_of_mem_zipIdx hmem), hfresh e'.2⟩

/-- **A full namespace keeps its depth** under the doors that resurrect
nothing there, and under no other. -/
theorem Door.pending_iff {unused : S → String → Prop} (hconf : Confined engine fresh ns)
    (hres : Resurrecting engine unused ns) (hfull : Full engine quotas ns d.store) (serde : Serde)
    (door : Door) (hfresh : door.Fresh fresh d.store) (hunused : door.Revives unused d.store) :
    engine.pending ns (door.run engine quotas serde d).store = engine.pending ns d.store ↔
      door.Spares engine ns d.store := by
  refine ⟨fun hsame => ?_, fun hspare => (door.leaves hconf hfull serde hspare hfresh).pending⟩
  cases door with
  | retryDead deadId scope newId now =>
    intro hentry
    exact (hres.raises deadId scope newId now d.store hentry hunused).ne' hsame
  | autoRetryDlq cutoff maxRetries scope queues supply =>
    intro entry hmem hentry
    exact (autoRetryDlq_raises hres hmem hentry hunused).ne' hsame
  | _ => trivial

end FlexiQ.Quota
