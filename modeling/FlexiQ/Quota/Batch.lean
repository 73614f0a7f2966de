/-
# `Quota.Batch` — what becomes of a batch at the gate

The gate judges a call by namespaces, so a verdict is a function of the
namespace: `Landing` says what became of a namespace's share of a call, and
`Outcome` which answers and which stores a call judged by a given `landing`
can end in.

`Replies` is what the gate relies on in a backend: one row for each job it is
handed, in order.
-/
import FlexiQ.Quota.Engines

namespace FlexiQ.Quota

open List FlexiQ.Lib FlexiQ.Resilience

variable {S : Type} {engine : Engine S}
  {quotas : QuotaCache}

/-- What becomes of a namespace's share of a call. -/
inductive Landing
  | admitted
  | shed
  | refused
  deriving DecidableEq, Repr

/-- The jobs that are handed to the backend's enqueue. -/
def handed (landing : Option String → Landing) (news : List Draft) : List Draft :=
  news.filter fun job => landing job.1.namespace = .admitted

/-- What is answered for a job.  `R` is what the backend may answer for a job
it is handed. -/
def Reported {T : Type} (landing : Option String → Landing) (shed : Job → T) (now : Int)
    (R : Draft → T → Prop) (job : Draft) (result : T) : Prop :=
  match landing job.1.namespace with
  | .admitted => R job result
  | .shed => ∃ reason, result = shed (shedCopy job.1 job.2 reason now)
  | .refused => False

/-- How a call can end whose namespaces landed as `landing` says. -/
inductive Outcome {T : Type} (engine : Engine S)
    (enqueue : List Draft → S → Result (List T) × S) (shed : Job → T)
    (now : Int) (news : List Draft) (s : S) (landing : Option String → Landing) :
    Result (List T) → S → Prop
  /-- Nothing was written. -/
  | refused {e : QueueError} (hall : ∀ ns, landing ns = .refused) :
      Outcome engine enqueue shed now news s landing (.error e) s
  /-- The backend refused what it was handed. -/
  | failed {e : QueueError} {s' : S} (hcall : enqueue (handed landing news) s = (.error e, s')) :
      Outcome engine enqueue shed now news s landing (.error e) s'
  /-- Everything was shed, and could not be recorded. -/
  | unrecorded {e : QueueError} {s' : S} {dead : List (Job × String × String)}
      (hnone : handed landing news = [])
      (hrecord : engine.shedNewJobs dead (some quotaShedMetadata) now s = (.error e, s')) :
      Outcome engine enqueue shed now news s landing (.error e) s'
  /-- A result for each job, from the rows the backend answered.  Where
  nothing was shed, nothing is recorded. -/
  | answered {rows results : List T} {s₁ s' : S}
      (hcall : (handed landing news = [] ∧ rows = [] ∧ s₁ = s) ∨
        enqueue (handed landing news) s = (.ok rows, s₁))
      (hrecord : s' = s₁ ∨ ∃ dead : List (Job × String × String),
        (∀ e ∈ dead, e.1.status = .dead) ∧
          (engine.shedNewJobs dead (some quotaShedMetadata) now s₁).2 = s')
      (hresults : ∀ R, List.Forall₂ R (handed landing news) rows →
        List.Forall₂ (Reported landing shed now R) news results) :
      Outcome engine enqueue shed now news s landing (.ok results) s'

structure Lands {T : Type} (engine : Engine S)
    (enqueue : List Draft → S → Result (List T) × S) (shed : Job → T)
    (now : Int) (R : Draft → T → Prop) (news : List Draft) (s : S)
    (landing : Option String → Landing) (answer : Result (List T)) (s' : S) : Prop where
  outcome : Outcome engine enqueue shed now news s landing answer s'
  results : ∀ results, answer = .ok results →
    List.Forall₂ (Reported landing shed now R) news results

theorem Outcome.lands {T : Type} {enqueue : List Draft → S → Result (List T) × S} {shed : Job → T}
    {now : Int} {R : Draft → T → Prop} {news : List Draft} {s s' : S}
    {landing : Option String → Landing} {answer : Result (List T)}
    (h : Outcome engine enqueue shed now news s landing answer s')
    (hR : ∀ rows s', enqueue (handed landing news) s = (.ok rows, s') →
      List.Forall₂ R (handed landing news) rows) :
    Lands engine enqueue shed now R news s landing answer s' := by
  refine ⟨h, fun results hok => ?_⟩
  cases h with
  | refused => cases hok
  | failed => cases hok
  | unrecorded => cases hok
  | answered hcall _ hresults =>
    cases hok
    rcases hcall with ⟨hnone, rfl, -⟩ | hcall
    · exact hresults R (hnone ▸ .nil)
    · exact hresults R (hR _ _ hcall)

/-! ## Two streams, one order -/

def admittedOf (news : List Draft) (verdicts : List (Option String)) : List Draft :=
  (news.zip verdicts).filterMap fun e => if e.2.isNone then some e.1 else none

def shedOf (news : List Draft) (verdicts : List (Option String)) (now : Int) :
    List (Job × String) :=
  (news.zip verdicts).filterMap fun e =>
    e.2.map fun reason => (shedCopy e.1.1 e.1.2 reason now, reason)

section Streams

variable {T : Type} {R : Draft → T → Prop}

/-- **The merge puts every result where its job was.** -/
theorem inCallOrder_forall₂ (shed : Job → T) (now : Int) (verdict : Option String → Option String) :
    ∀ (news : List Draft) (rows : List T),
      List.Forall₂ R (admittedOf news (news.map fun job => verdict job.1.namespace)) rows →
      List.Forall₂
        (fun job result => match verdict job.1.namespace with
          | none => R job result
          | some reason => result = shed (shedCopy job.1 job.2 reason now))
        news
        (inCallOrder (news.map fun job => verdict job.1.namespace) rows
          ((shedOf news (news.map fun job => verdict job.1.namespace) now).map fun e => shed e.1))
  | [], rows, _ => .nil
  | job :: rest, rows, h => by
    cases hv : verdict job.1.namespace with
    | none =>
      simp only [map_cons, hv] at h
      obtain ⟨row, rows', hrow, hrest, rfl⟩ := forall₂_cons_left_iff.mp h
      have ih := inCallOrder_forall₂ shed now verdict rest rows' hrest
      simp only [map_cons, hv, inCallOrder]
      exact .cons (by simpa [hv] using hrow) ih
    | some =>
      simp only [map_cons, hv] at h
      have ih := inCallOrder_forall₂ shed now verdict rest rows h
      simp only [map_cons, hv, inCallOrder]
      exact .cons (by simp [hv]) ih

theorem admittedOf_eq_filter (verdict : Option String → Option String) : ∀ news : List Draft,
      admittedOf news (news.map fun job => verdict job.1.namespace) =
        news.filter fun job => (verdict job.1.namespace).isNone
  | [] => rfl
  | job :: rest => by
    have ih := admittedOf_eq_filter verdict rest
    unfold admittedOf at ih ⊢
    cases hv : verdict job.1.namespace with
    | none | some => simpa [hv] using ih

end Streams

/-! ## The gate -/

def Landing.judged (verdict : Option String → Option String) (ns : Scope) : Landing :=
  if (verdict ns).isNone then .admitted else .shed

theorem handed_judged (verdict : Option String → Option String) (news : List Draft) :
    handed (Landing.judged verdict) news =
      admittedOf news (news.map fun job => verdict job.1.namespace) := by
  rw [admittedOf_eq_filter, handed]
  refine filter_congr fun job _ => ?_
  unfold Landing.judged
  split
  · next h => simp [h]
  · next h => simp [h]

section Gate

variable {T : Type} {enqueue : List Draft → S → Result (List T) × S}
  {shed : Job → T} {now : Int} {R : Draft → T → Prop}

theorem reported_of_rows (shed : Job → T) (now : Int)
    (verdict : Option String → Option String) {news : List Draft} {rows : List T}
    (h : List.Forall₂ R (handed (Landing.judged verdict) news) rows) :
    List.Forall₂ (Reported (Landing.judged verdict) shed now R) news
      (inCallOrder (news.map fun job => verdict job.1.namespace) rows
        ((shedOf news (news.map fun job => verdict job.1.namespace) now).map
          fun e => shed e.1)) := by
  rw [handed_judged] at h
  refine (inCallOrder_forall₂ shed now verdict news rows h).imp ?_
  intro job result hresult
  unfold Reported Landing.judged
  cases hv : verdict job.1.namespace with
  | none => simpa [hv] using hresult
  | some reason => exact ⟨reason, by simpa [hv] using hresult⟩

theorem recordShed_outcome (verdict : Option String → Option String)
    {news : List Draft} {deadIds : Nat → String} {s s₁ : S} {rows : List T}
    {committed : Bool}
    (hcall : (handed (Landing.judged verdict) news = [] ∧ rows = [] ∧ s₁ = s) ∨
      enqueue (handed (Landing.judged verdict) news) s = (.ok rows, s₁))
    (hcommitted : committed = false → handed (Landing.judged verdict) news = [] ∧ s₁ = s) :
    let verdicts := news.map fun job => verdict job.1.namespace
    let ended := recordShed engine verdicts (shedOf news verdicts now) deadIds now shed rows
      committed s₁
    Outcome engine enqueue shed now news s (Landing.judged verdict) ended.1 ended.2 := by
  have hresults : ∀ R, List.Forall₂ R (handed (Landing.judged verdict) news) rows → _ := fun R h =>
    reported_of_rows (R := R) shed now verdict h
  have hdead : ∀ e ∈ (shedOf news (news.map fun job => verdict job.1.namespace) now).zipIdx.map
      (fun e => (e.1.1, e.1.2, deadIds e.2)), e.1.status = .dead := by
    intro e he
    obtain ⟨e', hmem, rfl⟩ := mem_map.mp he
    obtain ⟨e'', -, hsome⟩ := mem_filterMap.mp (fst_mem_of_mem_zipIdx hmem)
    obtain ⟨reason, -, hcopy⟩ := Option.map_eq_some_iff.mp hsome
    exact (congrArg (fun p => p.1.status) hcopy).symm.trans rfl
  cases hwritten : engine.shedNewJobs
      ((shedOf news (news.map fun job => verdict job.1.namespace) now).zipIdx.map
        fun e => (e.1.1, e.1.2, deadIds e.2)) (some quotaShedMetadata) now s₁ with
  | mk answer s' =>
    have hrecord : s' = s₁ ∨ ∃ dead : List (Job × String × String),
        (∀ e ∈ dead, e.1.status = .dead) ∧
          (engine.shedNewJobs dead (some quotaShedMetadata) now s₁).2 = s' :=
      .inr ⟨_, hdead, congrArg Prod.snd hwritten⟩
    simp only [recordShed, hwritten]
    cases answer with
    | ok => exact .answered hcall hrecord hresults
    | error =>
      cases committed with
      | true => exact .answered hcall hrecord hresults
      | false =>
        obtain ⟨hnone, rfl⟩ := hcommitted rfl
        exact .unrecorded hnone hwritten

theorem enqueueJudged_outcome (verdict : Option String → Option String)
    (news : List Draft) (deadIds : Nat → String) (s : S) :
    let ended := enqueueJudged engine news (news.map fun job => verdict job.1.namespace) deadIds
      now enqueue shed s
    Outcome engine enqueue shed now news s (Landing.judged verdict) ended.1 ended.2 := by
  unfold enqueueJudged
  split
  · next hall =>
    -- Nothing is shed: the backend's answer is the call's.
    have hnone : ∀ job ∈ news, verdict job.1.namespace = none := by
      intro job hjob
      have hin := all_eq_true.mp hall _ (mem_map_of_mem hjob)
      exact Option.isNone_iff_eq_none.mp hin
    have hhanded : handed (Landing.judged verdict) news = news :=
      filter_eq_self.mpr fun job hjob => by simp [Landing.judged, hnone job hjob]
    generalize hcall : enqueue news s = answer
    obtain ⟨answer, s'⟩ := answer
    cases answer with
    | error => exact .failed (hhanded.symm ▸ hcall)
    | ok =>
      refine .answered (.inr (hhanded.symm ▸ hcall)) (.inl rfl) fun R hrows => ?_
      rw [hhanded] at hrows
      refine forall₂_iff_get.mpr ⟨hrows.length_eq, fun i hi hi' => ?_⟩
      have hrow := (forall₂_iff_get.mp hrows).2 i hi hi'
      unfold Reported Landing.judged
      rw [hnone _ (get_mem news ⟨i, hi⟩)]
      exact hrow
  · have hadmitted := handed_judged verdict news
    unfold admittedOf at hadmitted
    dsimp only
    rw [← hadmitted]
    split
    · next hempty =>
      have hnone : handed (Landing.judged verdict) news = [] := isEmpty_iff.mp hempty
      exact recordShed_outcome verdict (.inl ⟨hnone, rfl, rfl⟩) fun _ => ⟨hnone, rfl⟩
    · generalize hcall : enqueue (handed (Landing.judged verdict) news) s = answer
      obtain ⟨answer, s₁⟩ := answer
      cases answer with
      | error => exact .failed hcall
      | ok => exact recordShed_outcome verdict (.inr hcall) fun h => nomatch h

variable {news : List Draft} {deadIds : Nat → String} {d d₁ : Depot S}

theorem store_of_admitEach {l : List (Option String)} {jobs : List NewJob}
    {answer : Result (List (Option String × String))}
    (h : admitEach engine quotas jobs now l d = (answer, d₁)) : d₁.store = d.store := by
  have hstore : (admitEach engine quotas jobs now l d).2.store = _ := admitEach_store jobs now l d
  rwa [h] at hstore

theorem withQuota_refused {e : QueueError}
    (h : admitEach engine quotas (news.map Prod.fst) now (namespacesOf (news.map Prod.fst)) d =
      (.error e, d₁)) :
    withQuota engine quotas news deadIds now enqueue shed d = (.error e, d₁) := by
  unfold withQuota admitJobs
  rw [h]
  rfl

/-- A call that admission judged: the verdicts are a matter of the
namespace. -/
theorem withQuota_judged {reasons : List (Option String × String)}
    (h : admitEach engine quotas (news.map Prod.fst) now (namespacesOf (news.map Prod.fst)) d =
      (.ok reasons, d₁)) :
    Outcome engine enqueue shed now news d.store
        (Landing.judged fun ns => List.lookup ns reasons)
        (withQuota engine quotas news deadIds now enqueue shed d).1
        (withQuota engine quotas news deadIds now enqueue shed d).2.store ∧
      (withQuota engine quotas news deadIds now enqueue shed d).2.buckets = d₁.buckets := by
  unfold withQuota admitJobs
  rw [h, ← store_of_admitEach h]
  refine ⟨?_, rfl⟩
  dsimp only [Except.map]
  rw [map_map]
  exact enqueueJudged_outcome (fun ns => List.lookup ns reasons) news deadIds d₁.store

/-- **A call lands by namespaces**, and answers by positions. -/
theorem withQuota_outcome (news : List Draft) (deadIds : Nat → String) (d : Depot S) :
    ∃ landing, Outcome engine enqueue shed now news d.store landing
      (withQuota engine quotas news deadIds now enqueue shed d).1
      (withQuota engine quotas news deadIds now enqueue shed d).2.store := by
  cases h : admitEach engine quotas (news.map Prod.fst) now
      (namespacesOf (news.map Prod.fst)) d with
  | mk answer d₁ =>
    cases answer with
    | error =>
      rw [withQuota_refused h, ← store_of_admitEach h]
      exact ⟨fun _ => .refused, .refused fun _ => rfl⟩
    | ok => exact ⟨_, (withQuota_judged h).1⟩

end Gate

/-! ## The backends' answers -/

/-- The row of a job that is inserted as it is. -/
def Inserted (now : Int) (job : Draft) (row : Job) : Prop :=
  row = job.1.intoJob job.2 now

def Answered (engine : Engine S) (now : Int) (job : Draft) (row : Job × Bool) : Prop :=
  ∃ s s', engine.enqueueUniqueReporting job now s = (.ok row, s')

structure Replies (engine : Engine S) : Prop where
  single : ∀ job now s row s', engine.enqueue job now s = (.ok row, s') → Inserted now job row
  batch : ∀ jobs now s rows s', engine.enqueueBatch jobs now s = (.ok rows, s') →
    List.Forall₂ (Inserted now) jobs rows
  uniqueBatch : ∀ jobs now s rows s',
    engine.enqueueUniqueBatchReporting jobs now s = (.ok rows, s') →
    List.Forall₂ (Answered engine now) jobs rows

theorem inserted_map (now : Int) : ∀ jobs : List Draft,
    List.Forall₂ (Inserted now) jobs (jobs.map fun job => job.1.intoJob job.2 now)
  | [] => .nil
  | _ :: rest => .cons rfl (inserted_map now rest)

namespace SqlEngine

open FlexiQ.Sql

theorem enqueueUniqueBatch_answers (backend : Backend) (serde : Serde) (now : Int) :
    ∀ (jobs : List Draft) {s s' : Store} {rows : List (Job × Bool)},
      FlexiQ.Sql.enqueueUniqueBatch s now jobs = .ok (rows, s') →
      List.Forall₂ (Answered (SqlEngine.engine backend serde) now) jobs rows
  | [], s, s', rows, h => by
    cases h
    exact .nil
  | (new, id) :: rest, s, s', rows, h => by
    obtain ⟨⟨first, s₁⟩, h₁, h⟩ := bind_eq_ok.mp h
    obtain ⟨⟨others, s₂⟩, h₂, h⟩ := bind_eq_ok.mp h
    cases h
    have hfirst : (SqlEngine.engine backend serde).enqueueUniqueReporting (new, id) now s =
        (.ok first, s₁) := by
      show committed s (FlexiQ.Sql.enqueueUnique s new id now) = _
      rw [h₁]
      rfl
    exact .cons ⟨s, s₁, hfirst⟩ (enqueueUniqueBatch_answers backend serde now rest h₂)

theorem replies (backend : Backend) (serde : Serde) : Replies (SqlEngine.engine backend serde) where
  single job now s row s' h := (enqueue_ok (committed_ok h)).1
  batch jobs now s rows s' h := by
    have h' := committed_ok h
    unfold FlexiQ.Sql.enqueueBatch at h'
    dsimp only at h'
    split at h'
    · obtain ⟨s₁, -, h'⟩ := bind_eq_ok.mp h'
      cases h'
      rw [map_map]
      exact inserted_map now jobs
    · cases h'
  uniqueBatch jobs now s rows s' h :=
    enqueueUniqueBatch_answers backend serde now jobs (committed_ok h)

end SqlEngine

namespace RedisEngine

open FlexiQ.Redis

theorem enqueueUniqueBatch_answers (serde : Serde) (now : Int) :
    ∀ (jobs : List Draft) {s s' : Store} {rows : List (Job × Bool)},
      enqueueUniqueBatch now jobs s = (.ok rows, s') →
      List.Forall₂ (Answered (RedisEngine.engine serde) now) jobs rows
  | [], s, s', rows, h => by
    cases h
    exact .nil
  | (new, id) :: rest, s, s', rows, h => by
    unfold enqueueUniqueBatch at h
    generalize hfirst : FlexiQ.Redis.enqueueUnique s new id now = answer at h
    obtain ⟨first, s₁⟩ := answer
    cases first with
    | error => cases h
    | ok =>
      cases hrest : enqueueUniqueBatch now rest s₁ with
      | mk others =>
        simp only [hrest] at h
        cases others with
        | error => cases h
        | ok =>
          cases h
          exact .cons ⟨s, s₁, hfirst⟩ (enqueueUniqueBatch_answers serde now rest hrest)

theorem replies (serde : Serde) : Replies (RedisEngine.engine serde) where
  single job now s row s' h := by
    obtain ⟨-, -, hrow⟩ := bind_eq_ok.mp (committed_ok h)
    cases hrow
    rfl
  batch jobs now s rows s' h := by
    have h' := committed_ok h
    unfold FlexiQ.Redis.enqueueBatch at h'
    dsimp only at h'
    split at h'
    · cases h'
      exact inserted_map now jobs
    · cases h'
  uniqueBatch jobs now s rows s' h := enqueueUniqueBatch_answers serde now jobs h

end RedisEngine

theorem replies_engineOf (serde : Serde) (b : Backend) : Replies (engineOf serde b) := by
  cases b with
  | sqlite => exact SqlEngine.replies .sqlite serde
  | postgres => exact SqlEngine.replies .postgres serde
  | redis => exact RedisEngine.replies serde

end FlexiQ.Quota
