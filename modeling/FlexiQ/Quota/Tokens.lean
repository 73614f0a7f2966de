/-
# `Quota.Tokens` — what a call draws from the enqueue buckets

Admission walks the namespaces of a call in order, and the tokens of each are
drawn as it passes.  Nothing is given back: where a namespace further on
refuses the call, those before it have paid for jobs that were never written.

`Unspent` is the claim on one bucket, refill apart.  A call costs nothing it
should not exactly where no namespace pays before the first that refuses the
call (`RefusedFree`).
-/
import FlexiQ.Quota.Batch

namespace FlexiQ.Quota

open List FlexiQ.Lib FlexiQ.Resilience

variable {S : Type} {engine : Engine S}
  {quotas : QuotaCache} {ns : Scope}
  {d d₁ : Depot S}

/-! ## One bucket for each namespace -/

theorem enqueueRateKey_some (name : String) : (enqueueRateKey (some name)).toList =
    "quota::".toList ++ (Nat.toDigits 10 name.utf8ByteSize ++
      ':' :: (name.toList ++ "::enqueue".toList)) := by
  simp [enqueueRateKey, String.toList_append, toString, Nat.repr]

theorem enqueueRateKey_none_ne (name : String) :
    enqueueRateKey none ≠ enqueueRateKey (some name) := by
  intro h
  have htext : "quota::".toList ++ (['-'] ++ ':' :: ":enqueue".toList) = _ :=
    (congrArg String.toList h).trans (enqueueRateKey_some name)
  obtain ⟨hdash, -⟩ := cut (append_cancel_left htext) (by decide) (not_mem_toDigits (by decide) _)
  exact not_mem_toDigits (by decide) _ (hdash ▸ mem_cons_self)

theorem enqueueRateKey_injective {ns' : Scope} (h : enqueueRateKey ns = enqueueRateKey ns') :
    ns = ns' := by
  cases ns with
  | none =>
    cases ns' with
    | none => rfl
    | some name' => exact absurd h (enqueueRateKey_none_ne name')
  | some name =>
    cases ns' with
    | none => exact absurd h.symm (enqueueRateKey_none_ne name)
    | some name' =>
      have htext := congrArg String.toList h
      rw [enqueueRateKey_some, enqueueRateKey_some] at htext
      obtain ⟨-, hname⟩ := cut (append_cancel_left htext) (not_mem_toDigits (by decide) _)
        (not_mem_toDigits (by decide) _)
      exact congrArg some (String.toList_injective (append_cancel_right hname))

/-! ## What a walk draws -/

def rateOf (quotas : QuotaCache) (ns : Scope) : Option RateLimitConfig :=
  match quotas ns with
  | .ok (some quota) => quota.enqueueRate
  | _ => none

/-- The bucket of a namespace holds at `now` what it held before. -/
def Unspent (quotas : QuotaCache) (now : Int) (ns : Scope) (buckets buckets' : Buckets) : Prop :=
  match rateOf quotas ns with
  | none => buckets'.find (enqueueRateKey ns) = buckets.find (enqueueRateKey ns)
  | some config =>
    level (buckets'.find (enqueueRateKey ns)) config.maxTokens config.refillRate now =
      level (buckets.find (enqueueRateKey ns)) config.maxTokens config.refillRate now

theorem Unspent.of_find {now : Int} {buckets buckets' : Buckets}
    (h : buckets'.find (enqueueRateKey ns) = buckets.find (enqueueRateKey ns)) :
    Unspent quotas now ns buckets buckets' := by
  unfold Unspent
  split
  · exact h
  · rw [h]

theorem Unspent.trans {now : Int} {buckets buckets₁ buckets' : Buckets}
    (h : Unspent quotas now ns buckets buckets₁) (h' : Unspent quotas now ns buckets₁ buckets') :
    Unspent quotas now ns buckets buckets' := by
  unfold Unspent at *
  cases hrate : rateOf quotas ns with
  | none | some =>
    rw [hrate] at h h'
    exact h'.trans h

theorem level_refilled {row : RateLimitRow} {maxTokens refillRate : ℚ} {now : Int}
    (hlast : row.lastRefill = now) (hle : row.tokens ≤ maxTokens) :
    level (some row) maxTokens refillRate now = row.tokens := by
  simp [level, hlast, hle]

theorem level_le (old : Option RateLimitRow) (maxTokens refillRate : ℚ) (now : Int) :
    level old maxTokens refillRate now ≤ maxTokens :=
  min_le_right _ _

section Weighing

variable (engine : Engine S) (jobs : List NewJob) (now : Int) (d : Depot S)

abbrev shareOf (jobs : List NewJob) (ns : Scope) : List NewJob :=
  jobs.filter fun job => job.namespace = ns

/-- The namespace has room for its share of the call: below its depth, and with
a token for each job. -/
def HasRoom (quota : QuotaDocument) (ns : Scope) : Prop :=
  (∀ cap, quota.maxPending = some cap →
    saturatingAdd (engine.pending ns d.store) (shareOf jobs ns).length ≤ cap) ∧
  ∀ config, quota.enqueueRate = some config →
    ((min (shareOf jobs ns).length (2 ^ 32 - 1) : Nat) : ℚ) ≤
      level (d.buckets.find (enqueueRateKey ns)) config.maxTokens config.refillRate now

variable (quotas : QuotaCache)

def Pays (ns : Scope) : Prop :=
  ∃ quota, quotas ns = .ok (some quota) ∧ quota.enqueueRate ≠ none ∧
    HasRoom engine jobs now d quota ns

/-- The namespace fails the call: its quota rejects what there is no room for,
or cannot be read. -/
def Refuses (ns : Scope) : Prop :=
  (∃ e, quotas ns = .error e) ∨
    ∃ quota, quotas ns = .ok (some quota) ∧ quota.onExcess = .reject ∧
      ¬HasRoom engine jobs now d quota ns

/-- No namespace pays before the first that refuses the call. -/
def RefusedFree : List (Option String) → Prop
  | [] => True
  | ns :: rest => Refuses engine jobs now d quotas ns ∨
      RefusedFree rest ∧ (Pays engine jobs now d quotas ns →
        ∀ ns' ∈ rest, ¬Refuses engine jobs now d quotas ns')

end Weighing

variable {jobs : List NewJob} {now : Int}

structure Weighed (engine : Engine S) (quotas : QuotaCache) (quota : QuotaDocument) (ns : Scope)
    (jobs : List NewJob) (now : Int) (d : Depot S) (out : Option Excess × Depot S) : Prop where
  store : out.2.store = d.store
  others : ∀ ns', ns' ≠ ns →
    out.2.buckets.find (enqueueRateKey ns') = d.buckets.find (enqueueRateKey ns')
  room : out.1 = none ↔ HasRoom engine jobs now d quota ns
  unspent : out.1 ≠ none ∨ quota.enqueueRate = none →
    Unspent quotas now ns d.buckets out.2.buckets
  spent : out.1 = none → quota.enqueueRate ≠ none → ∀ buckets : Buckets,
    buckets.find (enqueueRateKey ns) = out.2.buckets.find (enqueueRateKey ns) →
      ¬Unspent quotas now ns d.buckets buckets

/-- Past the depth, a share is weighed by its tokens. -/
theorem rateExcess_weighed {quota : QuotaDocument} (hquota : quotas ns = .ok (some quota))
    (hjob : ∃ job ∈ jobs, job.namespace = ns)
    (hdepth : ∀ cap, quota.maxPending = some cap →
      saturatingAdd (engine.pending ns d.store) (shareOf jobs ns).length ≤ cap) :
    Weighed engine quotas quota ns jobs now d
      (rateExcess engine quota ns (shareOf jobs ns) now d) := by
  have hrate : rateOf quotas ns = quota.enqueueRate := by
    unfold rateOf
    rw [hquota]
  unfold rateExcess
  cases hconfig : quota.enqueueRate with
  | none =>
    refine ⟨rfl, fun _ _ => rfl, ⟨fun _ => ⟨hdepth, fun config h => ?_⟩, fun _ => rfl⟩,
      fun _ => .of_find rfl, fun _ hsome => absurd hconfig hsome⟩
    rw [hconfig] at h
    cases h
  | some config =>
    dsimp only
    have hcount : 0 < min (shareOf jobs ns).length (2 ^ 32 - 1) := by
      obtain ⟨job, hin, hns⟩ := hjob
      have hshare : 0 < (shareOf jobs ns).length :=
        length_pos_of_mem (mem_filter.mpr ⟨hin, decide_eq_true hns⟩)
      omega
    have hdraw := tryAcquireTokens_drawn engine.backend d.buckets (enqueueRateKey ns)
      (min (shareOf jobs ns).length (2 ^ 32 - 1)) config.maxTokens config.refillRate now
    generalize hsize : min (shareOf jobs ns).length (2 ^ 32 - 1) = count at hcount hdraw ⊢
    generalize engine.backend.tryAcquireTokens d.buckets (enqueueRateKey ns) count
      config.maxTokens config.refillRate now = out at hdraw ⊢
    obtain ⟨granted, buckets⟩ := out
    have hothers : ∀ ns', ns' ≠ ns → buckets.find (enqueueRateKey ns') =
        d.buckets.find (enqueueRateKey ns') := fun ns' hne =>
      hdraw.others _ fun heq => hne (enqueueRateKey_injective heq)
    have hsame : ∀ buckets', Unspent quotas now ns d.buckets buckets' ↔
        level (buckets'.find (enqueueRateKey ns)) config.maxTokens config.refillRate now =
          level (d.buckets.find (enqueueRateKey ns)) config.maxTokens config.refillRate now := by
      intro buckets'
      unfold Unspent
      rw [hrate, hconfig]
    cases granted with
    | true =>
      obtain ⟨hroom, row, hrow, hlast, htokens⟩ := hdraw.granted rfl
      have hcount : (0 : ℚ) < count := Nat.cast_pos.mpr hcount
      refine ⟨rfl, hothers, ⟨fun _ => ⟨hdepth, fun _ h => ?_⟩, fun _ => rfl⟩, fun h => ?_,
        fun _ _ buckets' hfind hunspent => ?_⟩
      · rw [hconfig] at h
        cases h
        rw [hsize]
        exact hroom
      · rcases h with h | h
        · exact absurd rfl h
        · rw [hconfig] at h
          cases h
      · have hlevel := (hsame buckets').mp hunspent
        have hle := level_le (d.buckets.find (enqueueRateKey ns)) config.maxTokens
          config.refillRate now
        have hfind : buckets'.find (enqueueRateKey ns) = some row := hfind.trans hrow
        rw [hfind, level_refilled hlast (by linarith), htokens] at hlevel
        linarith
    | false =>
      obtain ⟨hdry, row, hrow, hlast, htokens⟩ := hdraw.refused rfl
      refine ⟨rfl, hothers, ⟨fun h => (by cases h), fun hroom => ?_⟩, fun _ => ?_,
        fun h => (by cases h)⟩
      · have hroom := hroom.2 config hconfig
        rw [hsize] at hroom
        exact absurd hroom (not_le.mpr hdry)
      · refine (hsame _).mpr ?_
        show level (buckets.find _) _ _ _ = _
        rw [hrow, level_refilled hlast (htokens ▸ level_le _ _ _ _), htokens]

theorem excess_weighed {quota : QuotaDocument} (hquota : quotas ns = .ok (some quota))
    (hjob : ∃ job ∈ jobs, job.namespace = ns) :
    Weighed engine quotas quota ns jobs now d
      (excess engine quota ns (shareOf jobs ns) now d) := by
  unfold excess
  dsimp only
  split
  · next cap hcap =>
    obtain ⟨hsome, hover⟩ := Option.filter_eq_some_iff.mp hcap
    refine ⟨rfl, fun _ _ => rfl, ⟨fun h => (by cases h), fun hroom => ?_⟩, fun _ => .of_find rfl,
      fun h => (by cases h)⟩
    exact absurd (hroom.1 cap hsome) (not_le.mpr (of_decide_eq_true hover))
  · next hnone =>
    refine rateExcess_weighed hquota hjob fun cap hcap => ?_
    rw [hcap, Option.filter_some] at hnone
    by_contra hover
    rw [if_pos (decide_eq_true (not_le.mp hover))] at hnone
    cases hnone

/-! ### A refused walk -/

section Walk

variable {l : List (Option String)}

theorem hasRoom_congr {quota : QuotaDocument} (hstore : d₁.store = d.store)
    (hfind : d₁.buckets.find (enqueueRateKey ns) = d.buckets.find (enqueueRateKey ns)) :
    HasRoom engine jobs now d₁ quota ns ↔ HasRoom engine jobs now d quota ns := by
  unfold HasRoom
  rw [hstore, hfind]

theorem refuses_congr (hstore : d₁.store = d.store)
    (hfind : d₁.buckets.find (enqueueRateKey ns) = d.buckets.find (enqueueRateKey ns)) :
    Refuses engine jobs now d₁ quotas ns ↔ Refuses engine jobs now d quotas ns := by
  unfold Refuses
  simp only [hasRoom_congr hstore hfind]

theorem refusedFree_congr (hstore : d₁.store = d.store) : ∀ {l : List (Option String)},
    (∀ ns ∈ l, d₁.buckets.find (enqueueRateKey ns) = d.buckets.find (enqueueRateKey ns)) →
    (RefusedFree engine jobs now d₁ quotas l ↔ RefusedFree engine jobs now d quotas l)
  | [], _ => .rfl
  | ns :: rest, hfind => by
    have hrest := fun ns' hns' => hfind ns' (mem_cons_of_mem ns hns')
    have hlater : (∀ ns' ∈ rest, ¬Refuses engine jobs now d₁ quotas ns') ↔
        ∀ ns' ∈ rest, ¬Refuses engine jobs now d quotas ns' :=
      forall₂_congr fun ns' hns' => not_congr (refuses_congr hstore (hrest ns' hns'))
    have hpays : Pays engine jobs now d₁ quotas ns ↔ Pays engine jobs now d quotas ns := by
      unfold Pays
      simp only [hasRoom_congr hstore (hfind ns mem_cons_self)]
    unfold RefusedFree
    rw [refuses_congr hstore (hfind ns mem_cons_self), refusedFree_congr hstore hrest, hlater,
      hpays]

theorem refusedFree_of_none : ∀ {l : List (Option String)},
    (∀ ns ∈ l, ¬Refuses engine jobs now d quotas ns) → RefusedFree engine jobs now d quotas l
  | [], _ => trivial
  | _ :: _, h => .inr ⟨refusedFree_of_none fun ns hns => h ns (mem_cons_of_mem _ hns),
      fun _ ns hns => h ns (mem_cons_of_mem _ hns)⟩

theorem refusedFree_cons (hnot : ¬Refuses engine jobs now d quotas ns)
    (hfree : ¬Pays engine jobs now d quotas ns) :
    RefusedFree engine jobs now d quotas l ↔ RefusedFree engine jobs now d quotas (ns :: l) :=
  ⟨fun h => .inr ⟨h, fun hpays => absurd hpays hfree⟩, fun h => (h.resolve_left hnot).1⟩

theorem Unspent.iff_of_left {buckets buckets₁ buckets' : Buckets}
    (h : Unspent quotas now ns buckets buckets₁) :
    Unspent quotas now ns buckets buckets' ↔ Unspent quotas now ns buckets₁ buckets' := by
  unfold Unspent at *
  cases hrate : rateOf quotas ns with
  | none | some =>
    rw [hrate] at h
    dsimp only at h ⊢
    rw [h]

/-- A walk touches the buckets of its own namespaces only. -/
theorem admitEach_find : ∀ {l : List (Option String)} (d : Depot S), ns ∉ l →
    (∀ ns ∈ l, ∃ job ∈ jobs, job.namespace = ns) →
    (admitEach engine quotas jobs now l d).2.buckets.find (enqueueRateKey ns) =
      d.buckets.find (enqueueRateKey ns)
  | [], _, _, _ => rfl
  | ns₀ :: rest, d, hns, hjobs => by
    obtain ⟨hne, hrest⟩ := not_or.mp (fun h => hns (mem_cons.mpr h))
    have hlater := fun d => admitEach_find d hrest fun ns' hns' =>
      hjobs ns' (mem_cons_of_mem _ hns')
    unfold admitEach
    split
    · rfl
    · exact hlater d
    · next quota hquota =>
      have hweighed : Weighed engine quotas quota ns₀ jobs now d _ :=
        excess_weighed hquota (hjobs ns₀ mem_cons_self)
      have hother := hweighed.others ns hne
      generalize excess engine quota ns₀ (shareOf jobs ns₀) now d = out at hother ⊢
      obtain ⟨verdict, d₁⟩ := out
      cases verdict with
      | none => exact (hlater d₁).trans hother
      | some =>
        dsimp only
        split
        · exact hother
        · exact (hlater d₁).trans hother

/-- A walk is refused where a namespace refuses, and has then drawn nothing
exactly where none paid before. -/
structure Walked (engine : Engine S) (quotas : QuotaCache) (jobs : List NewJob) (now : Int)
    (d : Depot S) (l : List (Option String))
    (out : Result (List (Option String × String)) × Depot S) : Prop where
  refused : (∃ e, out.1 = .error e) ↔ ∃ ns ∈ l, Refuses engine jobs now d quotas ns
  costs : (∃ e, out.1 = .error e) → ((∀ ns, Unspent quotas now ns d.buckets out.2.buckets) ↔
    RefusedFree engine jobs now d quotas l)

theorem Walked.map {out : Result (List (Option String × String)) × Depot S}
    (h : Walked engine quotas jobs now d l out)
    (f : List (Option String × String) → List (Option String × String)) :
    Walked engine quotas jobs now d l (out.1.map f, out.2) := by
  have hsame : (∃ e, out.1.map f = .error e) ↔ ∃ e, out.1 = .error e := by
    cases out.1 <;> simp [Except.map]
  exact ⟨hsame.trans h.refused, fun herror => h.costs (hsame.mp herror)⟩

/-- The first namespace refuses the call, and has drawn nothing. -/
theorem Walked.turned (hrefuses : Refuses engine jobs now d quotas ns) (e : QueueError)
    (hsame : ∀ ns', Unspent quotas now ns' d.buckets d₁.buckets) :
    Walked engine quotas jobs now d (ns :: l) (.error e, d₁) :=
  ⟨⟨fun _ => ⟨ns, mem_cons_self, hrefuses⟩, fun _ => ⟨e, rfl⟩⟩,
    fun _ => ⟨fun _ => .inl hrefuses, fun _ => hsame⟩⟩

section Passed

variable {out : Result (List (Option String × String)) × Depot S}
  (h : Walked engine quotas jobs now d₁ l out) (hnew : ns ∉ l) (hstore : d₁.store = d.store)
  (hothers : ∀ ns', ns' ≠ ns →
    d₁.buckets.find (enqueueRateKey ns') = d.buckets.find (enqueueRateKey ns'))
  (hnot : ¬Refuses engine jobs now d quotas ns)
include h hnew hstore hothers hnot

/-- A namespace that does not refuse leaves the rest to be judged as before. -/
theorem Walked.refused_cons :
    (∃ e, out.1 = .error e) ↔ ∃ ns' ∈ ns :: l, Refuses engine jobs now d quotas ns' := by
  rw [h.refused]
  simp only [mem_cons, exists_eq_or_imp, hnot, false_or]
  exact exists_congr fun ns' => and_congr_right fun hns' =>
    refuses_congr hstore (hothers ns' fun heq => hnew (heq ▸ hns'))

theorem Walked.free (hfree : ¬Pays engine jobs now d quotas ns)
    (hsame : Unspent quotas now ns d.buckets d₁.buckets) :
    Walked engine quotas jobs now d (ns :: l) out := by
  refine ⟨h.refused_cons hnew hstore hothers hnot, fun herror => ?_⟩
  have hkept : ∀ ns', Unspent quotas now ns' d.buckets d₁.buckets := by
    intro ns'
    by_cases hns' : ns' = ns
    · exact hns' ▸ hsame
    · exact .of_find (hothers ns' hns')
  rw [forall_congr' fun ns' => (hkept ns').iff_of_left, h.costs herror,
    refusedFree_congr hstore fun ns' hns' => hothers ns' fun heq => hnew (heq ▸ hns')]
  exact refusedFree_cons hnot hfree

/-- It has paid: if somebody further on refuses, that is lost. -/
theorem Walked.paid (hpays : Pays engine jobs now d quotas ns)
    (hspent : ¬Unspent quotas now ns d.buckets out.2.buckets) :
    Walked engine quotas jobs now d (ns :: l) out := by
  have hrefused := h.refused_cons hnew hstore hothers hnot
  refine ⟨hrefused, fun herror => ⟨fun hall => absurd (hall ns) hspent, fun hfree => ?_⟩⟩
  obtain ⟨ns', hns', hrefuses⟩ := hrefused.mp herror
  rcases mem_cons.mp hns' with rfl | hlater
  · exact absurd hrefuses hnot
  · exact absurd hrefuses ((hfree.resolve_left hnot).2 hpays ns' hlater)

end Passed

theorem admitEach_walked {l : List (Option String)} (d : Depot S) (hnodup : l.Nodup)
    (hjobs : ∀ ns ∈ l, ∃ job ∈ jobs, job.namespace = ns) :
    Walked engine quotas jobs now d l (admitEach engine quotas jobs now l d) := by
  induction l generalizing d with
  | nil =>
    refine ⟨⟨?_, ?_⟩, ?_⟩
    · rintro ⟨e, h⟩
      cases h
    · rintro ⟨ns, h, -⟩
      cases h
    · rintro ⟨e, h⟩
      cases h
  | cons ns rest ih =>
    obtain ⟨hnew, hnodup⟩ := nodup_cons.mp hnodup
    have hjobs' := fun ns' hns' => hjobs ns' (mem_cons_of_mem ns hns')
    have hrest := fun d => ih d hnodup hjobs'
    unfold admitEach
    cases hquota : quotas ns with
    | error e => exact .turned (.inl ⟨e, hquota⟩) e fun _ => .of_find rfl
    | ok quota =>
      cases quota with
      | none =>
        refine (hrest d).free hnew rfl (fun _ _ => rfl) ?_ ?_ (.of_find rfl)
        · rintro (⟨e, h⟩ | ⟨quota, h, -⟩) <;> rw [hquota] at h <;> cases h
        · rintro ⟨quota, h, -⟩
          rw [hquota] at h
          cases h
      | some quota =>
        dsimp only
        have hweighed : Weighed engine quotas quota ns jobs now d _ :=
          excess_weighed hquota (hjobs ns mem_cons_self)
        have hrefuses : Refuses engine jobs now d quotas ns ↔
            quota.onExcess = .reject ∧ ¬HasRoom engine jobs now d quota ns := by
          unfold Refuses
          simp [hquota]
        have hpays : Pays engine jobs now d quotas ns ↔
            quota.enqueueRate ≠ none ∧ HasRoom engine jobs now d quota ns := by
          unfold Pays
          simp [hquota]
        generalize excess engine quota ns (shareOf jobs ns) now d = out at hweighed ⊢
        obtain ⟨verdict, d₁⟩ := out
        cases verdict with
        | none =>
          have hroom := hweighed.room.mp rfl
          have hnot : ¬Refuses engine jobs now d quotas ns := fun h => (hrefuses.mp h).2 hroom
          by_cases hrate : quota.enqueueRate = none
          · exact (hrest d₁).free hnew hweighed.store hweighed.others hnot
              (fun h => (hpays.mp h).1 hrate) (hweighed.unspent (.inr hrate))
          · exact (hrest d₁).paid hnew hweighed.store hweighed.others hnot
              (hpays.mpr ⟨hrate, hroom⟩)
              (hweighed.spent rfl hrate _ (admitEach_find d₁ hnew hjobs'))
        | some breach =>
          have hfull : ¬HasRoom engine jobs now d quota ns := by
            rw [← hweighed.room]
            simp
          have hsame := hweighed.unspent (.inl (Option.some_ne_none breach))
          dsimp only
          cases hexcess : quota.onExcess with
          | reject =>
            refine .turned (hrefuses.mpr ⟨hexcess, hfull⟩) _ fun ns' => ?_
            by_cases hns' : ns' = ns
            · exact hns' ▸ hsame
            · exact .of_find (hweighed.others ns' hns')
          | drop =>
            have hnot : ¬Refuses engine jobs now d quotas ns := by
              rw [hrefuses, hexcess]
              simp
            exact ((hrest d₁).free hnew hweighed.store hweighed.others hnot
              (fun h => hfull (hpays.mp h).2) hsame).map _

end Walk

/-! ### A walk that goes through -/

theorem admitEach_cons_ok {rest : List (Option String)} {reasons : List (Option String × String)}
    (h : admitEach engine quotas jobs now (ns :: rest) d = (.ok reasons, d₁)) :
    (quotas ns = .ok none ∧ admitEach engine quotas jobs now rest d = (.ok reasons, d₁)) ∨
      ∃ quota verdict d₀ others, quotas ns = .ok (some quota) ∧
        excess engine quota ns (jobs.filter fun job => job.namespace = ns) now d = (verdict, d₀) ∧
        admitEach engine quotas jobs now rest d₀ = (.ok others, d₁) ∧
        reasons = (verdict.map fun breach => (ns, breach.shedReason ns)).toList ++ others := by
  unfold admitEach at h
  split at h
  · cases h
  · next hquota => exact .inl ⟨hquota, h⟩
  · next quota hquota =>
    right
    cases hexcess : excess engine quota ns (jobs.filter fun job => job.namespace = ns) now d with
    | mk verdict d₀ =>
      rw [hexcess] at h
      cases verdict with
      | none => exact ⟨quota, none, d₀, reasons, hquota, hexcess, h, rfl⟩
      | some breach =>
        dsimp only at h
        split at h
        · cases h
        · cases hrest : admitEach engine quotas jobs now rest d₀ with
          | mk answer =>
            rw [hrest] at h
            cases answer with
            | error => cases h
            | ok others =>
              cases h
              exact ⟨quota, some breach, d₀, others, hquota, hexcess, hrest, rfl⟩

theorem lookup_of_not_mem : ∀ {l : List (Option String)} {d d₁ : Depot S}
    {reasons : List (Option String × String)},
      admitEach engine quotas jobs now l d = (.ok reasons, d₁) →
      ∀ ns, ns ∉ l → List.lookup ns reasons = none
  | [], d, d₁, reasons, h, ns, _ => by
    cases h
    rfl
  | ns₀ :: rest, d, d₁, reasons, h, ns, hns => by
    simp only [mem_cons, not_or] at hns
    rcases admitEach_cons_ok h with ⟨-, h'⟩ | ⟨quota, verdict, d₀, others, -, -, h', rfl⟩
    · exact lookup_of_not_mem h' ns hns.2
    · have hrest := lookup_of_not_mem h' ns hns.2
      cases verdict with
      | none => exact hrest
      | some => exact (lookup_cons_of_ne hns.1).trans hrest

/-- **A walk that goes through has drawn for those it admits only.** -/
theorem admitEach_ok_unspent : ∀ {l : List (Option String)} {d d₁ : Depot S}
    {reasons : List (Option String × String)}, l.Nodup →
    (∀ ns ∈ l, ∃ job ∈ jobs, job.namespace = ns) →
    admitEach engine quotas jobs now l d = (.ok reasons, d₁) →
    ∀ ns, Unspent quotas now ns d.buckets d₁.buckets ∨
      (ns ∈ l ∧ List.lookup ns reasons = none)
  | [], d, d₁, reasons, _, _, h, ns => by
    cases h
    exact .inl (.of_find rfl)
  | ns₀ :: rest, d, d₁, reasons, hnodup, hjobs, h, ns => by
    obtain ⟨hnew, hnodup⟩ := nodup_cons.mp hnodup
    have hjobs' := fun ns' hns' => hjobs ns' (mem_cons_of_mem ns₀ hns')
    rcases admitEach_cons_ok h with
      ⟨-, h'⟩ | ⟨quota, verdict, d₀, others, hquota, hexcess, h', rfl⟩
    · exact (admitEach_ok_unspent hnodup hjobs' h' ns).imp_right fun hr =>
        ⟨mem_cons_of_mem _ hr.1, hr.2⟩
    · have hweighed : Weighed engine quotas quota ns₀ jobs now d _ :=
        excess_weighed hquota (hjobs ns₀ mem_cons_self)
      rw [hexcess] at hweighed
      have hrest := admitEach_ok_unspent hnodup hjobs' h' ns
      by_cases hns : ns = ns₀
      · subst hns
        cases verdict with
        | none => exact .inr ⟨mem_cons_self, lookup_of_not_mem h' ns hnew⟩
        | some breach =>
          have hsame := hweighed.unspent (.inl (Option.some_ne_none _))
          exact .inl (hsame.trans (hrest.resolve_right fun hr => hnew hr.1))
      · refine hrest.imp (fun hlater => (Unspent.of_find (hweighed.others ns hns)).trans hlater)
          fun hr =>
          ⟨mem_cons_of_mem _ hr.1, ?_⟩
        cases verdict with
        | none => exact hr.2
        | some => exact (lookup_cons_of_ne hns).trans hr.2

theorem namespacesOf_nodup (jobs : List NewJob) : (namespacesOf jobs).Nodup :=
  (perm_insertionSort _ _).nodup_iff.mpr (nodup_dedup _)

/-- **A refused call costs nothing, and an admitted one what it hands on**,
exactly where no namespace pays before the first that refuses. -/
theorem refused_call_costs_nothing {T : Type} (engine : Engine S) (now : Int)
    (enqueue : List (NewJob × String) → S → Except QueueError (List T) × S) (shed : Job → T)
    (news : List (NewJob × String)) (deadIds : Nat → String) (d : Depot S) :
    let ended := withQuota engine quotas news deadIds now enqueue shed d
    ((∀ e, (admitJobs engine quotas (news.map Prod.fst) now d).1 = .error e →
      ended.1 = .error e ∧ ended.2.store = d.store ∧
        ∀ ns, Unspent quotas now ns d.buckets ended.2.buckets) ∧
    ∃ landing, Outcome engine enqueue shed now news d.store landing ended.1 ended.2.store ∧
      ∀ ns, Unspent quotas now ns d.buckets ended.2.buckets ∨
        (landing ns = .admitted ∧ ∃ job ∈ news, job.1.namespace = ns)) ↔
    RefusedFree engine (news.map Prod.fst) now d quotas (namespacesOf (news.map Prod.fst)) := by
  have hjobs : ∀ ns ∈ namespacesOf (news.map Prod.fst),
      ∃ job ∈ news.map Prod.fst, job.namespace = ns := fun ns hns => mem_namespacesOf.mp hns
  obtain ⟨hiff, hunspent⟩ := @admitEach_walked S engine quotas _ now _ d
    (namespacesOf_nodup (news.map Prod.fst)) hjobs
  cases h : admitEach engine quotas (news.map Prod.fst) now
      (namespacesOf (news.map Prod.fst)) d with
  | mk answer d₁ =>
    have hstore := store_of_admitEach h
    rw [h] at hiff hunspent
    cases answer with
    | error e =>
      rw [withQuota_refused h, ← hunspent ⟨e, rfl⟩]
      have hanswer : (admitJobs engine quotas (news.map Prod.fst) now d).1 = .error e := by
        unfold admitJobs
        rw [h]
        rfl
      refine ⟨fun hcall => (hcall.1 e hanswer).2.2, fun hfree => ⟨fun e' he' => ?_, ?_⟩⟩
      · rw [hanswer] at he'
        cases he'
        exact ⟨rfl, hstore, hfree⟩
      · refine ⟨fun _ => .refused, ?_, fun ns => .inl (hfree ns)⟩
        rw [← hstore]
        exact .refused fun _ => rfl
    | ok =>
      obtain ⟨houtcome, hbuckets⟩ := withQuota_judged h
      have hnone : ∀ ns ∈ namespacesOf (news.map Prod.fst),
          ¬Refuses engine (news.map Prod.fst) now d quotas ns := fun ns hns hrefuses => by
        obtain ⟨e, he⟩ := hiff.mpr ⟨ns, hns, hrefuses⟩
        cases he
      refine ⟨fun _ => refusedFree_of_none hnone, fun _ => ⟨fun e' he' => ?_, _, houtcome,
        fun ns => ?_⟩⟩
      · unfold admitJobs at he'
        rw [h] at he'
        cases he'
      · rw [hbuckets]
        refine (admitEach_ok_unspent (namespacesOf_nodup _) hjobs h ns).imp_right fun hr =>
          ⟨by simp [Landing.judged, hr.2], ?_⟩
        simpa using mem_namespacesOf.mp hr.1

open FlexiQ.Sql (noJson plainJob)

/-- Namespace `a` pays a token a second for its jobs, and namespace `b` takes
none at all. -/
def paidAndShut : QuotaCache
  | some "a" => .ok (some ⟨⟨none, .reject, some (oneASecond ""), none⟩, "1/s"⟩)
  | some "b" => .ok (some ⟨⟨some 0, .reject, none, none⟩, ""⟩)
  | _ => .ok none

def oneForEach : List Draft :=
  [({ plainJob [] with «namespace» := some "a" }, "x"),
    ({ plainJob [] with «namespace» := some "b" }, "y")]

def refusedBatch : Result (List Job) × Depot FlexiQ.Sql.Store :=
  withQuota (SqlEngine.engine .sqlite noJson) paidAndShut oneForEach (fun _ => "d") 5
    (fun jobs => (SqlEngine.engine .sqlite noJson).enqueueBatch jobs 5) id ⟨.empty, .empty⟩

theorem refused_batch_pays :
    refusedBatch.1 = .error (.queueFull "q" 0 0) ∧ refusedBatch.2.store = .empty ∧
      ¬ Unspent paidAndShut 5 (some "a") .empty refusedBatch.2.buckets := by
  have hlevel : level (refusedBatch.2.buckets.find (enqueueRateKey (some "a"))) 1 1 5 = 0 := by
    decide +kernel
  refine ⟨by decide +kernel, by decide +kernel, fun hunspent => ?_⟩
  have hsame : level (refusedBatch.2.buckets.find (enqueueRateKey (some "a"))) 1 1 5 =
      level none 1 1 5 := hunspent
  rw [hlevel] at hsame
  exact absurd hsame (by decide +kernel)

end FlexiQ.Quota
