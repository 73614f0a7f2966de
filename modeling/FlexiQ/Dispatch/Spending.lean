/-
# `Dispatch.Spending` — what a job that is turned away has spent

Three gates keep state: the queue's bucket, the task's breaker and the
task's bucket.  They are asked in turn, and each that lets the job pass has
by then taken its token or its probe; the caps come after all of them.  A
refusal gives nothing back (`refused_job_spends`).

Nothing is spent exactly where no reading of the round lets a gate spend and
one behind it refuse: `Frugal`, and `refusal_spends_nothing` is the
equivalence.
-/
import FlexiQ.Dispatch.Caps
import Mathlib.Data.Int.ConditionallyCompleteOrder

namespace FlexiQ.Dispatch

open FlexiQ.Lib FlexiQ.Sql FlexiQ.Resilience FlexiQ.Quota

variable {t now : Int} {q : Query} {w w' w'' : World} {key : String} {refused : GateDecision}
  {r : Result GateDecision} {counts : GateCounts} {job : Job} {config : RateLimitConfig}

/-! ## Buckets over time -/

theorem level_mono {old : Option RateLimitRow} {maxTokens refillRate : ℚ} (hrate : 0 ≤ refillRate)
    {t' : Int} (h : t ≤ t') :
    level old maxTokens refillRate t ≤ level old maxTokens refillRate t' := by
  cases old with
  | none => simp [level]
  | some row =>
    have helapsed : ((max (t - row.lastRefill) 0 : Int) : ℚ) / 1000 ≤
        ((max (t' - row.lastRefill) 0 : Int) : ℚ) / 1000 := by
      have hle : max (t - row.lastRefill) 0 ≤ max (t' - row.lastRefill) 0 := by omega
      have hcast : ((max (t - row.lastRefill) 0 : Int) : ℚ) ≤ (max (t' - row.lastRefill) 0 : Int) :=
        Int.cast_le.mpr hle
      linarith
    exact min_le_min_right _ (by
      simpa using mul_le_mul_of_nonneg_right helapsed hrate)

theorem level_le_tokens {row : RateLimitRow} {maxTokens refillRate : ℚ} :
    level (some row) maxTokens refillRate row.lastRefill ≤ row.tokens := by
  simp [level]

theorem level_before {row : RateLimitRow} {maxTokens refillRate : ℚ} (h : t ≤ row.lastRefill) :
    level (some row) maxTokens refillRate t =
      level (some row) maxTokens refillRate row.lastRefill := by
  have hnone : max (t - row.lastRefill) 0 = 0 := by omega
  simp [level, hnone]

/-- The bucket was filled up to a reading of the round, and not drawn from. -/
def Refilled (config : RateLimitConfig) (t₀ t₁ : Int) (before after : Option RateLimitRow) : Prop :=
  ∃ row, after = some row ∧ t₀ ≤ row.lastRefill ∧ row.lastRefill ≤ t₁ ∧
    row.tokens = level before config.maxTokens config.refillRate row.lastRefill

/-- At `t` the bucket was left with no more than this. -/
def LeftWith (t : Int) (tokens : ℚ) (bucket : Option RateLimitRow) : Prop :=
  ∃ row, bucket = some row ∧ row.lastRefill = t ∧ row.tokens ≤ tokens

theorem LeftWith.spent {before after : Option RateLimitRow}
    (h : LeftWith t (level before config.maxTokens config.refillRate t - 1) after) (t₀ t₁ : Int) :
    ¬ (after = before ∨ Refilled config t₀ t₁ before after) := by
  obtain ⟨row, rfl, rfl, hless⟩ := h
  rintro (rfl | ⟨row', heq, -, -, htokens⟩)
  · have hle := @level_le_tokens row config.maxTokens config.refillRate
    linarith
  · cases heq
    linarith

/-! ## What a round meets -/

@[mk_iff] structure Calm (t₀ t₁ : Int) (out : Outside) : Prop where
  answers : out.fault = none
  accepts : out.send = .sent
  since : t₀ ≤ out.now
  before : out.now ≤ t₁

instance (t₀ t₁ : Int) (out : Outside) : Decidable (Calm t₀ t₁ out) :=
  decidable_of_iff' _ (calm_iff t₀ t₁ out)

/-- The clock at `t`, and nothing in the way. -/
def calmAt (t : Int) : Outside where
  fault := none
  now := t
  jitter := 0
  activeQueues := ["q"]
  capacity := 1
  codelDrop := false
  mint _ := 7
  deadId := "dead"
  send := .sent

theorem calm_calmAt {t₀ t₁ t : Int} (h : t ∈ Set.Icc t₀ t₁) : Calm t₀ t₁ (calmAt t) :=
  ⟨rfl, rfl, h.1, h.2⟩

variable (cfg : Settings) {t₀ t₁ : Int}

/-- The ways of a program in a calm round. -/
abbrev GoesCalmly {α : Type} (t₀ t₁ : Int) (p : Code α) (w : World) (a : α) (w' : World) : Prop :=
  p.Goes (perform cfg) (fun out _ _ => Calm t₀ t₁ out) w a w'

/-! ## The gates, one by one -/

def limitLevel (config : RateLimitConfig) (key : String) (w : World) (t : Int) : ℚ :=
  level (w.buckets.find key) config.maxTokens config.refillRate t

/-- What a breaker's row looks like to one job: as before, or cooled down
from `Open` to `HalfOpen`, which no job spends anything on. -/
def SameProbes (before after : Option CircuitBreakerState) : Prop :=
  after = before ∨ ∃ row row', before = some row ∧ after = some row' ∧
    CircuitState.fromI32 row.state = .open ∧ CircuitState.fromI32 row'.state = .halfOpen ∧
      row'.halfOpenProbeCount = 0

variable {cfg}

theorem breakersAsked_sameProbes {taskName : String} {breakers : Breakers}
    {row : CircuitBreakerState} (hrow : breakers.find taskName = some row)
    (hhalf : CircuitState.fromI32 row.state = .halfOpen →
      row.halfOpenMaxProbes ≤ row.halfOpenProbeCount ∧
        saturatingSub now (row.halfOpenAt.getD 0) < row.cooldownMs) :
    SameProbes (breakers.find taskName)
      ((breakersAsked cfg now taskName breakers).find taskName) := by
  have hsame : (row.allow now).2 = none →
      breakersAsked cfg now taskName breakers = breakers := by
    intro hnone
    rw [breakersAsked, hrow, Option.bind_some, hnone]
  cases hstate : CircuitState.fromI32 row.state with
  | closed =>
    rw [hsame (by simp only [CircuitBreakerState.allow, hstate])]
    exact .inl rfl
  | halfOpen =>
    obtain ⟨hprobes, hwait⟩ := hhalf hstate
    rw [hsame (by simp only [CircuitBreakerState.allow, hstate, if_neg (not_lt.mpr hprobes),
      if_neg (not_le.mpr hwait)])]
    exact .inl rfl
  | «open» =>
    by_cases hcool : saturatingSub now (row.openedAt.getD 0) ≥ row.cooldownMs
    · have hup : (row.allow now).2 =
          some { row.unprobed .halfOpen with halfOpenAt := some now } := by
        simp only [CircuitBreakerState.allow, hstate, if_pos hcool]
      obtain rfl : row.taskName = taskName := Table.key_of_find hrow
      refine .inr ⟨row, cfg.backend.kept row { row.unprobed .halfOpen with halfOpenAt := some now },
        hrow, ?_, hstate, ?_, ?_⟩
      · rw [breakersAsked, hrow, Option.bind_some, hup]
        exact find_upsert_kept hrow
      · cases cfg.backend <;> rfl
      · cases cfg.backend <;> rfl
    · rw [hsame (by simp only [CircuitBreakerState.allow, hstate, if_neg hcool])]
      exact .inl rfl

theorem saturatingSub_mono {a a' b : Int} (h : a ≤ a') :
    saturatingSub a b ≤ saturatingSub a' b := by
  unfold saturatingSub
  omega

/-! ## The caps -/

/-- Every cap over the job has room for it, by the counts the round has or
would load. -/
structure WithinCaps (cfg : Settings) (job : Job) (counts : GateCounts) (w : World) : Prop where
  quota : ∃ quota, cfg.quotas job.namespace = .ok quota ∧
    ∀ max ∈ quota.bind NamespaceQuota.maxRunning,
      (counts.namespaceRunning job.namespace).getD
        (countByNamespace w.store job.namespace .running) ≤ max
  queue : ∀ max ∈ (cfg.queueConfigs job.queue).bind QueueConfig.maxConcurrent,
    (counts.queueRunning job.queue).getD (runningByQueue w.store job.queue cfg.namespace) ≤ max
  task : ∀ max ∈ (cfg.taskConfigs job.taskName).bind TaskConfig.maxConcurrent,
    (counts.taskRunning job.taskName).getD
      (countRunningByTask w.store job.taskName cfg.namespace) ≤ max
  bulkhead : ∀ max ∈ (cfg.taskConfigs job.taskName).bind TaskConfig.maxInFlightPerTask,
    w.inFlight.countFor job.taskName < max

theorem checkPostClaimConcurrency_goes {r : Counted Bool}
    (h : GoesCalmly cfg t₀ t₁ (checkPostClaimConcurrency cfg job counts) w r w') :
    r.1 = .ok true ↔ WithinCaps cfg job counts w := by
  cases hquota : cfg.quotas job.namespace with
  | error e =>
    -- A quota that cannot be read is no room.
    refine ⟨fun hr => ?_, fun hcaps => ?_⟩
    · obtain ⟨x, w₁, hns, hrest⟩ := thenCap_goes h
      obtain ⟨y, w₂, hask, hcap⟩ := Prog.goes_bind.mp hns
      obtain ⟨out, -, hans⟩ := goes_sure hask fun _ => Calm.answers
      have hread : answer cfg out (.quota job.namespace) w = (.error e, w) :=
        congrArg (fun q => (q, w)) hquota
      cases hread.symm.trans hans
      obtain ⟨rfl, -⟩ := hcap
      rcases hrest with ⟨hno, -⟩ | ⟨-, rfl, -⟩
      · cases hno
      · cases hr
    · obtain ⟨quota, hok, -⟩ := hcaps.quota
      cases hquota.symm.trans hok
  | ok quota =>
    obtain ⟨hr, -, -⟩ := decides_checkPostClaimConcurrency (fun _ _ _ => Calm.answers)
      ⟨quota, hquota⟩ counts w r w' h
    have hcap : CapKey.cap cfg (.ofNamespace job.namespace) =
        quota.bind NamespaceQuota.maxRunning := by
      rw [CapKey.cap, hquota]
      rfl
    rw [hr, Except.ok.injEq]
    simp only [capKeys, hcap, List.all_cons, List.all_nil, Bool.and_true, Bool.and_eq_true,
      Option.all_eq_true, decide_eq_true_eq]
    constructor
    · rintro ⟨⟨hns, hqueue, htask⟩, hbulk⟩
      exact ⟨⟨quota, hquota, hns⟩, hqueue, htask, hbulk⟩
    · rintro ⟨⟨quota', hquota', hns⟩, hqueue, htask, hbulk⟩
      cases hquota.symm.trans hquota'
      exact ⟨⟨hns, hqueue, htask⟩, hbulk⟩

/-! ## What spends nothing -/

/-- A call that touches no bucket and no breaker, and sends nothing. -/
def Call.Mute : Call → Prop
  | .query (.tryAcquireToken ..) => False
  | .query (.upsertCircuitBreaker _) => False
  | .trySend _ => False
  | _ => True

/-- Buckets, breakers and what was sent are the same. -/
structure Spared (w w' : World) : Prop where
  buckets : w'.buckets = w.buckets
  breakers : w'.breakers = w.breakers
  sent : w'.sent = w.sent

theorem Spared.refl (w : World) : Spared w w := ⟨rfl, rfl, rfl⟩

theorem Spared.trans (h : Spared w w') (h' : Spared w' w'') : Spared w w'' :=
  ⟨h'.buckets.trans h.buckets, h'.breakers.trans h.breakers, h'.sent.trans h.sent⟩

theorem spared_commit {α : Type} (w : World) (x : Result (α × Store)) :
    Spared w (w.commit x).2 := by
  cases x <;> exact ⟨rfl, rfl, rfl⟩

theorem spared_pick (w : World) (x : Result (Dequeued × Store)) : Spared w (w.pick x).2 := by
  cases x <;> exact ⟨rfl, rfl, rfl⟩

theorem spared_answer {out : Outside} (hq : (Call.query q).Mute) (w : World) :
    Spared w (answer cfg out q w).2 := by
  cases q with
  | tryAcquireToken | upsertCircuitBreaker => cases hq
  | dequeue | dequeueBatch => exact spared_pick _ _
  | deadLetter | cascadeCancel | claimExecution | claimExecutionBatch | completeExecution
  | reschedule => exact spared_commit _ _
  | getCircuitBreaker | quota | countRunningByTask | runningByQueue | countByNamespace =>
    exact .refl w

theorem spared_perform {out : Outside} {c : Call} (hc : c.Mute) (w : World) :
    Spared w (perform cfg out c w).2 := by
  cases c with
  | trySend => cases hc
  | query q =>
    rcases perform_query out q w with hsame | hsame <;> rw [hsame]
    · exact .refl w
    · exact spared_answer hc w
  | nowMillis | desyncDelay | activeQueues | inFlightRemaining | channelCapacity | shouldDrop
  | taskInFlight | trackInFlight | untrackInFlight => exact ⟨rfl, rfl, rfl⟩

/-- A program all of whose calls are mute. -/
abbrev Mute {α : Type} (p : Code α) : Prop := Issues Call.Mute p

theorem Mute.spared {α : Type} {p : Code α} (hp : Mute p) {a : α}
    (h : GoesCalmly cfg t₀ t₁ p w a w') : Spared w w' :=
  h.kept (I := Spared w) hp (fun _ _ w' hc _ hw => hw.trans (spared_perform hc w')) (.refl w)

theorem mute_putBack (job : Job) (now : Int) (delayMs : Nat) (counts : GateCounts)
    (done : Result Bool) : Mute (putBack job now delayMs counts done) := by
  refine issues_bind ⟨trivial, fun _ => trivial⟩ fun delay => ?_
  refine issues_bind (issues_okThen (issues_ask trivial) fun _ => issues_ask trivial) fun x => ?_
  cases x <;> exact trivial

theorem mute_shedToDlq (job : Job) (reason metadata : String) :
    Mute (shedToDlq job reason metadata) :=
  issues_okThen (issues_ask trivial) fun _ => issues_okThen (issues_ask trivial) fun _ => trivial

theorem mute_shedRateLimited (job : Job) (reason : String) (claimed : Bool) :
    Mute (shedRateLimited job reason claimed) := by
  cases claimed
  · exact mute_shedToDlq _ _ _
  · exact issues_bind (issues_ask trivial) fun _ => mute_shedToDlq _ _ _

theorem mute_checkPostClaimConcurrency (job : Job) (counts : GateCounts) :
    Mute (checkPostClaimConcurrency cfg job counts) :=
  issues_checkPostClaimConcurrency job counts trivial trivial trivial trivial trivial

/-- Past the soft gates nothing is spent, and exactly a job within its caps is
sent. -/
theorem finishDispatch_goes {epoch : Option Int} {r : Counted Bool}
    (h : GoesCalmly cfg t₀ t₁ (finishDispatch cfg job now epoch counts) w r w') :
    w'.buckets = w.buckets ∧ w'.breakers = w.breakers ∧
      (w'.sent = w.sent ↔ ¬ WithinCaps cfg job counts w) := by
  obtain ⟨⟨x, counts'⟩, w₁, hcheck, hrest⟩ := Prog.goes_bind.mp h
  have hchecked := (mute_checkPostClaimConcurrency job counts).spared hcheck
  have hcaps := checkPostClaimConcurrency_goes hcheck
  have hback : ∀ {delayMs done},
      GoesCalmly cfg t₀ t₁ (putBack job now delayMs counts' done) w₁ r w' →
      x ≠ .ok true → w'.buckets = w.buckets ∧ w'.breakers = w.breakers ∧
        (w'.sent = w.sent ↔ ¬ WithinCaps cfg job counts w) := by
    intro delayMs done hput hx
    have hspared := hchecked.trans ((mute_putBack _ _ _ _ _).spared hput)
    exact ⟨hspared.buckets, hspared.breakers, fun _ => hcaps.not.mp hx, fun _ => hspared.sent⟩
  rcases x with e | ⟨_ | _⟩
  · exact hback hrest (by simp)
  · exact hback hrest (by simp)
  · -- The channel takes the job.
    obtain ⟨-, w₂, ⟨out, -, -, rfl⟩, hsend⟩ := Prog.goes_bind.mp hrest
    obtain ⟨outcome, w₃, htry, hlast⟩ := Prog.goes_bind.mp hsend
    obtain ⟨out', hcalm, hout⟩ := Prog.goes_call.mp htry
    simp only [perform, hcalm.accepts] at hout
    cases hout
    obtain ⟨-, rfl⟩ := hlast
    refine ⟨hchecked.buckets, hchecked.breakers, fun hsent => absurd hsent ?_,
      fun hno => absurd (hcaps.mp rfl) hno⟩
    rw [hchecked.sent]
    simp

/-! ## The gates in turn -/

def queueLimit (cfg : Settings) (job : Job) : Option RateLimitConfig :=
  (cfg.queueConfigs job.queue).bind QueueConfig.rateLimit

def queueKey (job : Job) : String := "queue:" ++ job.queue

section

variable (cfg : Settings) (job : Job)

def taskLimit : Option RateLimitConfig :=
  (cfg.taskConfigs job.taskName).bind TaskConfig.rateLimit

def breakerConfigured : Bool :=
  (cfg.taskConfigs job.taskName).any TaskConfig.circuitBreaker

/-- The breaker lets the task's jobs pass at `t`. -/
def BreakerAdmits (w : World) (t : Int) : Prop :=
  breakerConfigured cfg job = true →
    ∀ row ∈ w.breakers.find job.taskName, (row.allow t).1 = true

/-- The task's bucket has a token at `t`. -/
def TaskGrants (w : World) (t : Int) : Prop :=
  ∀ config ∈ taskLimit cfg job, 1 ≤ limitLevel config job.taskName w t

end

/-- Whatever the clock reads from `t` on, the breaker, the task's bucket and the
caps let the job pass. -/
structure Passes (cfg : Settings) (job : Job) (counts : GateCounts) (t : Int) (w : World) :
    Prop where
  breaker : BreakerAdmits cfg job w t
  task : TaskGrants cfg job w t
  caps : WithinCaps cfg job counts w

/-- What the task's breaker or bucket can take from a job looked at between `t₀`
and `t₁` is not taken in vain, and a breaker out of probes is not about to give
up on them. -/
structure FrugalTask (cfg : Settings) (job : Job) (counts : GateCounts) (t₀ t₁ : Int) (w : World) :
    Prop where
  probe : breakerConfigured cfg job = true → ∀ row ∈ w.breakers.find job.taskName,
    CircuitState.fromI32 row.state = .halfOpen →
      (row.halfOpenProbeCount < row.halfOpenMaxProbes →
        TaskGrants cfg job w t₀ ∧ WithinCaps cfg job counts w) ∧
      (row.halfOpenMaxProbes ≤ row.halfOpenProbeCount →
        saturatingSub t₁ (row.halfOpenAt.getD 0) < row.cooldownMs)
  task : BreakerAdmits cfg job w t₁ → ∀ config ∈ taskLimit cfg job,
    1 ≤ limitLevel config job.taskName w t₁ → WithinCaps cfg job counts w

/-- The same of the queue's bucket, which is asked first; the task's bucket is
what the queue's draw leaves of it. -/
structure Frugal (cfg : Settings) (job : Job) (counts : GateCounts) (t₀ t₁ : Int) (w : World) :
    Prop where
  unlimited : queueLimit cfg job = none → FrugalTask cfg job counts t₀ t₁ w
  limited : ∀ config ∈ queueLimit cfg job, ∀ t ∈ Set.Icc t₀ t₁,
    1 ≤ limitLevel config (queueKey job) w t →
      Passes cfg job counts t₀
        { w with buckets := (draw cfg config (queueKey job) t w.buckets).2 }

/-- The limit a bucket is asked under: the queue's, where the task's goes by
the same key. -/
def limitOf (cfg : Settings) (job : Job) (key : String) : Option RateLimitConfig :=
  if key = queueKey job ∧ (queueLimit cfg job).isSome then queueLimit cfg job
  else if key = job.taskName then taskLimit cfg job
  else none

/-- As if the job had not been looked at: no bucket was more than filled up,
and the breaker has the probes it had. -/
structure AsIfUnseen (cfg : Settings) (job : Job) (t₀ t₁ : Int) (w w' : World) : Prop where
  buckets : ∀ key, w'.buckets.find key = w.buckets.find key ∨
    ∃ config ∈ limitOf cfg job key,
      Refilled config t₀ t₁ (w.buckets.find key) (w'.buckets.find key)
  breaker : SameProbes (w.breakers.find job.taskName) (w'.breakers.find job.taskName)

theorem AsIfUnseen.congr {w₁ : World} (h : AsIfUnseen cfg job t₀ t₁ w w₁)
    (hbuckets : w'.buckets = w₁.buckets) (hbreakers : w'.breakers = w₁.breakers) :
    AsIfUnseen cfg job t₀ t₁ w w' := by
  refine ⟨fun key => ?_, ?_⟩
  · rw [hbuckets]
    exact h.buckets key
  · rw [hbreakers]
    exact h.breaker

theorem LeftWith.seen (h : LeftWith t (limitLevel config key w t - 1) (w'.buckets.find key))
    (hlimit : limitOf cfg job key = some config) : ¬ AsIfUnseen cfg job t₀ t₁ w w' := by
  intro hunseen
  refine h.spent t₀ t₁ ((hunseen.buckets key).imp id ?_)
  rintro ⟨config', hconfig, hfilled⟩
  cases hlimit.symm.trans hconfig
  exact hfilled

theorem limitOf_queue (h : queueLimit cfg job = some config) :
    limitOf cfg job (queueKey job) = some config := by
  rw [limitOf, if_pos ⟨rfl, by rw [h]; rfl⟩, h]

theorem limitOf_task (h : queueLimit cfg job = none) :
    limitOf cfg job job.taskName = taskLimit cfg job := by
  rw [limitOf, if_neg (by simp [h]), if_pos rfl]

theorem allow_later {row : CircuitBreakerState} {t' : Int} (h : (row.allow t).1 = true)
    (ht : t ≤ t') : (row.allow t').1 = true := by
  have hsub := saturatingSub_mono (b := row.openedAt.getD 0) ht
  unfold CircuitBreakerState.allow at h ⊢
  split at h
  · rfl
  · split at h
    · rw [if_pos (by omega)]
    · cases h
  · split at h
    · rw [if_pos (by assumption)]
    · split at h <;> cases h

theorem draw_drawn (config : RateLimitConfig) (key : String) (now : Int) (w : World) :
    Drawn w.buckets key 1 config.maxTokens config.refillRate now
      (draw cfg config key now w.buckets) :=
  tryAcquireTokens_drawn _ _ _ _ _ _ _

theorem draw_granted :
    (draw cfg config key now w.buckets).1 = true ↔ 1 ≤ limitLevel config key w now := by
  constructor
  · intro h
    have hle := ((draw_drawn config key now w).granted h).1
    rw [Nat.cast_one] at hle
    exact hle
  · intro h
    by_contra hno
    have hlt := ((draw_drawn config key now w).refused (by simpa using hno)).1
    rw [Nat.cast_one] at hlt
    exact absurd h (not_le.mpr hlt)

theorem draw_others {k : String}
    (hk : k ≠ key) : (draw cfg config key now w.buckets).2.find k = w.buckets.find k :=
  (draw_drawn config key now w).others k hk

theorem rateLimited_ne_proceed (onExcess : OnExcess) (scope : String) :
    rateLimited onExcess scope ≠ .proceed := by
  cases onExcess <;> simp [rateLimited]

/-! ### By the clock -/

def limitAt (cfg : Settings) (limit : Option RateLimitConfig) (key : String)
    (refused : GateDecision) (t : Int) (w : World) : GateDecision × World :=
  match limit with
  | none => (.proceed, w)
  | some config =>
    (if (draw cfg config key t w.buckets).1 then .proceed else refused,
      { w with buckets := (draw cfg config key t w.buckets).2 })

def breakerAt (cfg : Settings) (job : Job) (t : Int) (w : World) : GateDecision × World :=
  if breakerConfigured cfg job then
    (if (w.breakers.find job.taskName).all fun row => (row.allow t).1 then .proceed
      else .defer circuitBreakerRetryDelayMs,
      { w with breakers := breakersAsked cfg t job.taskName w.breakers })
  else (.proceed, w)

def thenAt (gate next : World → GateDecision × World) (w : World) : GateDecision × World :=
  if (gate w).1 = .proceed then next (gate w).2 else gate w

def taskGatesAt (cfg : Settings) (job : Job) (refused : GateDecision) (t : Int × Int) :
    World → GateDecision × World :=
  thenAt (breakerAt cfg job t.1) (limitAt cfg (taskLimit cfg job) job.taskName refused t.2)

/-- The ways of a gate are what it does at the readings of the round. -/
def Asked {τ : Type} (cfg : Settings) (t₀ t₁ : Int) (ok : τ → Prop)
    (gate : Code (Result GateDecision)) (at_ : τ → World → GateDecision × World) : Prop :=
  ∀ w r w', GoesCalmly cfg t₀ t₁ gate w r w' ↔
    ∃ t, ok t ∧ r = .ok (at_ t w).1 ∧ w' = (at_ t w).2

theorem asked_limitGate (hle : t₀ ≤ t₁) (limit : Option RateLimitConfig) (key : String)
    (refused : GateDecision) :
    Asked cfg t₀ t₁ (· ∈ Set.Icc t₀ t₁) (limitGate limit key refused)
      (limitAt cfg limit key refused) := by
  intro w r w'
  constructor
  · intro h
    rcases limitGate_goes (fun _ _ _ _ => Calm.answers) h with
      ⟨rfl, rfl, rfl⟩ | ⟨config, out, -, rfl, hcalm, rfl, rfl⟩
    · exact ⟨t₀, ⟨le_refl _, hle⟩, rfl, rfl⟩
    · exact ⟨out.now, ⟨hcalm.since, hcalm.before⟩, rfl, rfl⟩
  · rintro ⟨t, ht, rfl, rfl⟩
    cases limit with
    | none => exact ⟨rfl, rfl⟩
    | some config => exact ⟨calmAt t, calm_calmAt ht, rfl, rfl⟩

theorem asked_breakerGate (hle : t₀ ≤ t₁) :
    Asked cfg t₀ t₁ (· ∈ Set.Icc t₀ t₁) (breakerGate (breakerConfigured cfg job) job.taskName)
      (breakerAt cfg job) := by
  intro w r w'
  have hunasked : ∀ t, w.breakers.find job.taskName = none →
      breakersAsked cfg t job.taskName w.breakers = w.breakers := by
    intro t hnone
    rw [breakersAsked, hnone, Option.bind_none]
  unfold breakerGate breakerAt
  cases breakerConfigured cfg job with
  | false =>
    constructor
    · rintro ⟨rfl, rfl⟩
      exact ⟨t₀, ⟨le_refl _, hle⟩, rfl, rfl⟩
    · rintro ⟨t, -, rfl, rfl⟩
      exact ⟨rfl, rfl⟩
  | true =>
    simp only [if_true]
    constructor
    · intro h
      obtain ⟨x, w₁, hallow, hrest⟩ := goes_okThen h
      rcases allow_goes (fun _ _ _ _ => Calm.answers) hallow with
        ⟨hnone, rfl, rfl⟩ | ⟨row, out, -, hrow, hcalm, rfl, rfl⟩
      · obtain ⟨rfl, rfl⟩ := passes hrest
        refine ⟨t₀, ⟨le_refl _, hle⟩, ?_, ?_⟩
        · rw [hnone]
          rfl
        · rw [hunasked t₀ hnone]
      · obtain ⟨rfl, rfl⟩ := passes hrest
        refine ⟨out.now, ⟨hcalm.since, hcalm.before⟩, ?_, rfl⟩
        rw [hrow]
        rfl
    · rintro ⟨t, ht, rfl, rfl⟩
      refine ⟨calmAt t, calm_calmAt ht, ?_⟩
      cases hrow : w.breakers.find job.taskName with
      | none =>
        have hread : perform cfg (calmAt t) (.query (.getCircuitBreaker job.taskName)) w =
            (.ok none, w) := congrArg (fun found => (Except.ok found, w)) hrow
        rw [hread, hunasked t hrow]
        exact ⟨rfl, rfl⟩
      | some row =>
        have hread : perform cfg (calmAt t) (.query (.getCircuitBreaker job.taskName)) w =
            (.ok (some row), w) := congrArg (fun found => (Except.ok found, w)) hrow
        rw [hread]
        refine ⟨calmAt t, calm_calmAt ht, ?_⟩
        have hnow : perform cfg (calmAt t) .nowMillis w = (t, w) := rfl
        simp only [hnow, Prog.andThen]
        rw [breakersAsked, hrow, Option.bind_some, Option.all_some]
        generalize row.allow t = verdict
        obtain ⟨allowed, updated⟩ := verdict
        cases updated with
        | none => exact ⟨rfl, rfl⟩
        | some row' => exact ⟨calmAt t, calm_calmAt ht, rfl, rfl⟩

theorem Asked.thenGate {τ τ' : Type} {ok : τ → Prop} {ok' : τ' → Prop}
    {gate next : Code (Result GateDecision)} {gateAt : τ → World → GateDecision × World}
    {nextAt : τ' → World → GateDecision × World} (hgate : Asked cfg t₀ t₁ ok gate gateAt)
    (hnext : Asked cfg t₀ t₁ ok' next nextAt) (hsome : ∃ t, ok' t) :
    Asked cfg t₀ t₁ (fun t : τ × τ' => ok t.1 ∧ ok' t.2) (thenGate gate next)
      (fun t => thenAt (gateAt t.1) (nextAt t.2)) := by
  intro w r w'
  constructor
  · intro h
    obtain ⟨x, w₁, hfirst, hrest⟩ := thenGate_goes h
    obtain ⟨t, ht, rfl, rfl⟩ := (hgate _ _ _).mp hfirst
    rcases hrest with ⟨hproceed, hrest⟩ | ⟨hno, rfl, rfl⟩
    · obtain ⟨t', ht', rfl, rfl⟩ := (hnext _ _ _).mp hrest
      refine ⟨(t, t'), ⟨ht, ht'⟩, ?_⟩
      dsimp only [thenAt]
      rw [if_pos (Except.ok.inj hproceed)]
      exact ⟨rfl, rfl⟩
    · obtain ⟨t', ht'⟩ := hsome
      refine ⟨(t, t'), ⟨ht, ht'⟩, ?_⟩
      dsimp only [thenAt]
      rw [if_neg fun heq => hno (congrArg Except.ok heq)]
      exact ⟨rfl, rfl⟩
  · rintro ⟨⟨t, t'⟩, ⟨ht, ht'⟩, rfl, rfl⟩
    refine Prog.goes_bind.mpr ⟨_, _, (hgate _ _ _).mpr ⟨t, ht, rfl, rfl⟩, ?_⟩
    dsimp only [thenAt]
    cases hd : (gateAt t w).1 with
    | proceed =>
      rw [if_pos rfl]
      exact (hnext _ _ _).mpr ⟨t', ht', rfl, rfl⟩
    | defer | shed =>
      rw [if_neg (by simp), hd]
      exact ⟨rfl, rfl⟩

def taskRefused (cfg : Settings) (job : Job) : GateDecision :=
  rateLimited ((cfg.taskConfigs job.taskName).elim .defer TaskConfig.onExcess)
    ("task '" ++ job.taskName ++ "'")

def queueRefused (cfg : Settings) (job : Job) : GateDecision :=
  rateLimited ((cfg.taskConfigs job.taskName).elim .defer TaskConfig.onExcess)
    ("queue '" ++ job.queue ++ "'")

def gatesAt (cfg : Settings) (job : Job) (t : Int × Int × Int) : World → GateDecision × World :=
  thenAt (limitAt cfg (queueLimit cfg job) (queueKey job) (queueRefused cfg job) t.1)
    (taskGatesAt cfg job (taskRefused cfg job) t.2)

abbrev Readings (t₀ t₁ : Int) (t : Int × Int × Int) : Prop :=
  t.1 ∈ Set.Icc t₀ t₁ ∧ t.2.1 ∈ Set.Icc t₀ t₁ ∧ t.2.2 ∈ Set.Icc t₀ t₁

theorem checkPreClaimGates_asked (hle : t₀ ≤ t₁) (cfg : Settings) (job : Job) :
    Asked cfg t₀ t₁ (Readings t₀ t₁) (checkPreClaimGates cfg job) (gatesAt cfg job) := by
  have hsome : t₀ ∈ Set.Icc t₀ t₁ := ⟨le_refl _, hle⟩
  exact (asked_limitGate hle _ _ _).thenGate
    ((asked_breakerGate hle).thenGate (asked_limitGate hle _ _ _) ⟨t₀, hsome⟩)
    ⟨(t₀, t₀), hsome, hsome⟩

/-! ### What the gates leave -/

theorem limitAt_proceed {limit : Option RateLimitConfig} (hrefused : refused ≠ .proceed) :
    (limitAt cfg limit key refused t w).1 = .proceed ↔
      ∀ config ∈ limit, 1 ≤ limitLevel config key w t := by
  cases limit with
  | none => simp [limitAt]
  | some config =>
    have hgranted : (draw cfg config key t w.buckets).1 = true ↔ 1 ≤ limitLevel config key w t :=
      draw_granted
    simp only [limitAt, Option.mem_some_iff, forall_eq', ← hgranted]
    cases (draw cfg config key t w.buckets).1 <;> simp [hrefused]

theorem breakerAt_proceed :
    (breakerAt cfg job t w).1 = .proceed ↔ BreakerAdmits cfg job w t := by
  unfold breakerAt BreakerAdmits
  cases breakerConfigured cfg job with
  | false => simp
  | true =>
    simp only [if_true, forall_true_left]
    cases w.breakers.find job.taskName with
    | none => simp
    | some row => cases hallow : (row.allow t).1 <;> simp [hallow]

theorem breakerAt_buckets : (breakerAt cfg job t w).2.buckets = w.buckets := by
  unfold breakerAt
  split <;> rfl

theorem limitAt_breakers {limit : Option RateLimitConfig} :
    (limitAt cfg limit key refused t w).2.breakers = w.breakers := by
  cases limit <;> rfl

structure GatesOnly (w w' : World) : Prop where
  store : w'.store = w.store
  inFlight : w'.inFlight = w.inFlight
  sent : w'.sent = w.sent

theorem limitAt_only {limit : Option RateLimitConfig} :
    GatesOnly w (limitAt cfg limit key refused t w).2 := by
  cases limit <;> exact ⟨rfl, rfl, rfl⟩

theorem breakerAt_only : GatesOnly w (breakerAt cfg job t w).2 := by
  unfold breakerAt
  split <;> exact ⟨rfl, rfl, rfl⟩

theorem thenAt_only {gate next : World → GateDecision × World}
    (hgate : ∀ w, GatesOnly w (gate w).2) (hnext : ∀ w, GatesOnly w (next w).2) (w : World) :
    GatesOnly w (thenAt gate next w).2 := by
  unfold thenAt
  split
  · have hfirst := hgate w
    have hrest := hnext (gate w).2
    exact ⟨hrest.store.trans hfirst.store, hrest.inFlight.trans hfirst.inFlight,
      hrest.sent.trans hfirst.sent⟩
  · exact hgate w

theorem gatesAt_only (t : Int × Int × Int) : GatesOnly w (gatesAt cfg job t w).2 :=
  thenAt_only (fun _ => limitAt_only)
    (fun w => thenAt_only (fun _ => breakerAt_only) (fun _ => limitAt_only) w) w

theorem WithinCaps.congr (h : WithinCaps cfg job counts w)
    (hjobs : w'.store.jobs = w.store.jobs) (hin : w'.inFlight = w.inFlight) :
    WithinCaps cfg job counts w' := by
  obtain ⟨hquota, hqueue, htask, hbulk⟩ := h
  have hcount : countJobs w'.store = countJobs w.store := by
    unfold countJobs
    rw [hjobs]
  refine ⟨?_, ?_, ?_, ?_⟩
  · rw [countByNamespace, hcount]
    exact hquota
  · rw [runningByQueue, hcount]
    exact hqueue
  · rw [countRunningByTask, hcount]
    exact htask
  · rw [hin]
    exact hbulk

theorem limitAt_spends (hlevel : 1 ≤ limitLevel config key w t) :
    LeftWith t (limitLevel config key w t - 1)
      ((limitAt cfg (some config) key refused t w).2.buckets.find key) := by
  obtain ⟨-, row, hrow, hlast, htokens⟩ :=
    (draw_drawn config key t w).granted (draw_granted.mpr hlevel)
  rw [Nat.cast_one] at htokens
  exact ⟨row, hrow, hlast, le_of_eq htokens⟩

/-- A bucket that was left with too little at `t` is left with too little by a
limit that looks at it then. -/
theorem LeftWith.limitAt {limit : Option RateLimitConfig} {k : String} {tokens : ℚ} {t' : Int}
    (h : LeftWith t tokens (w.buckets.find k)) (hsame : k = key → t' = t) :
    LeftWith t tokens ((limitAt cfg limit key refused t' w).2.buckets.find k) := by
  cases limit with
  | none => exact h
  | some config =>
    by_cases hk : k = key
    · obtain rfl := hsame hk
      subst hk
      obtain ⟨row, hrow, rfl, hless⟩ := h
      have hdrawn : Drawn w.buckets k 1 config.maxTokens config.refillRate row.lastRefill
          (draw cfg config k row.lastRefill w.buckets) := draw_drawn config k row.lastRefill w
      have hlevel : level (w.buckets.find k) config.maxTokens config.refillRate row.lastRefill ≤
          row.tokens := hrow ▸ level_le_tokens
      cases hgrant : (draw cfg config k row.lastRefill w.buckets).1 with
      | true =>
        obtain ⟨-, row', hrow', hlast, htokens⟩ := hdrawn.granted hgrant
        rw [Nat.cast_one] at htokens
        exact ⟨row', hrow', hlast, by linarith⟩
      | false =>
        obtain ⟨-, row', hrow', hlast, htokens⟩ := hdrawn.refused hgrant
        exact ⟨row', hrow', hlast, by linarith⟩
    · rw [show (Dispatch.limitAt cfg (some config) key refused t' w).2.buckets.find k =
        w.buckets.find k from draw_others hk]
      exact h

theorem limitAt_refills {limit : Option RateLimitConfig} (ht : t ∈ Set.Icc t₀ t₁)
    (hno : (limitAt cfg limit key refused t w).1 ≠ .proceed) :
    ∃ config, limit = some config ∧
      Refilled config t₀ t₁ (w.buckets.find key)
        ((limitAt cfg limit key refused t w).2.buckets.find key) ∧
      ∀ k ≠ key, (limitAt cfg limit key refused t w).2.buckets.find k = w.buckets.find k := by
  cases limit with
  | none => exact absurd rfl hno
  | some config =>
    have hrefuses : (draw cfg config key t w.buckets).1 = false := by
      by_contra hyes
      rw [Bool.not_eq_false] at hyes
      exact hno (by simp [limitAt, hyes])
    obtain ⟨-, row, hrow, hlast, htokens⟩ := (draw_drawn config key t w).refused hrefuses
    refine ⟨config, rfl, ⟨row, hrow, ?_, ?_, ?_⟩, fun k hk => draw_others hk⟩
    · exact hlast ▸ ht.1
    · exact hlast ▸ ht.2
    · rw [hlast]
      exact htokens

theorem grants_later {t' : Int} (h : TaskGrants cfg job w t) (hle : t ≤ t') :
    TaskGrants cfg job w t' := fun config hconfig =>
  le_trans (h config hconfig) (level_mono (le_of_lt config.pos) hle)

theorem admits_later {t' : Int} (h : BreakerAdmits cfg job w t) (hle : t ≤ t') :
    BreakerAdmits cfg job w t' := fun hconf row hrow => allow_later (h hconf row hrow) hle

/-- How the breaker's gate leaves the breaker: with the probes it had, or with
one less for a job that nothing behind turns away. -/
theorem breakerAt_frugal (hf : FrugalTask cfg job counts t₀ t₁ w) (ht : t ∈ Set.Icc t₀ t₁) :
    SameProbes (w.breakers.find job.taskName)
        ((breakerAt cfg job t w).2.breakers.find job.taskName) ∨
      Passes cfg job counts t₀ w := by
  unfold breakerAt
  cases hconf : breakerConfigured cfg job with
  | false => exact .inl (.inl rfl)
  | true =>
    cases hrow : w.breakers.find job.taskName with
    | none =>
      refine .inl (.inl ?_)
      show (breakersAsked cfg t job.taskName w.breakers).find job.taskName = none
      rw [breakersAsked, hrow, Option.bind_none, hrow]
    | some row =>
      by_cases hprobe : CircuitState.fromI32 row.state = .halfOpen ∧
          row.halfOpenProbeCount < row.halfOpenMaxProbes
      · obtain ⟨hgrants, hcaps⟩ := (hf.probe hconf row hrow hprobe.1).1 hprobe.2
        refine .inr ⟨fun _ row' hrow' => ?_, hgrants, hcaps⟩
        cases hrow.symm.trans hrow'
        simp only [CircuitBreakerState.allow, hprobe.1, if_pos hprobe.2]
      · rw [← hrow]
        refine .inl (breakersAsked_sameProbes hrow fun hstate => ?_)
        have hnone := not_lt.mp fun hlt => hprobe ⟨hstate, hlt⟩
        exact ⟨hnone, lt_of_le_of_lt (saturatingSub_mono ht.2)
          ((hf.probe hconf row hrow hstate).2 hnone)⟩

theorem breakerAt_seen {row : CircuitBreakerState} (hconf : breakerConfigured cfg job = true)
    (hrow : w.breakers.find job.taskName = some row)
    (hstate : CircuitState.fromI32 row.state = .halfOpen)
    (htouched : row.halfOpenProbeCount < row.halfOpenMaxProbes ∨
      row.cooldownMs ≤ saturatingSub t (row.halfOpenAt.getD 0)) :
    ¬ SameProbes (w.breakers.find job.taskName)
      ((breakerAt cfg job t w).2.breakers.find job.taskName) := by
  -- Either way the row that is written is another one.
  obtain ⟨row', hallow, hname, hother⟩ : ∃ row', (row.allow t).2 = some row' ∧
      row'.taskName = row.taskName ∧ (CircuitState.fromI32 row'.state ≠ .halfOpen ∨
        row'.halfOpenProbeCount = row.halfOpenProbeCount + 1) := by
    by_cases hprobe : row.halfOpenProbeCount < row.halfOpenMaxProbes
    · refine ⟨{ row with halfOpenProbeCount := row.halfOpenProbeCount + 1 }, ?_, rfl, .inr rfl⟩
      simp only [CircuitBreakerState.allow, hstate, if_pos hprobe]
    · refine ⟨row.opened t, ?_, rfl, .inl (show CircuitState.fromI32 CircuitState.open.toI32 ≠ _ by
        decide)⟩
      simp only [CircuitBreakerState.allow, hstate, if_neg hprobe,
        if_pos (show _ ≥ _ from htouched.resolve_left hprobe)]
  have hfind : row.taskName = job.taskName := Table.key_of_find hrow
  have hafter : (breakerAt cfg job t w).2.breakers.find job.taskName =
      some (cfg.backend.kept row row') := by
    rw [breakerAt, if_pos hconf]
    show (breakersAsked cfg t job.taskName w.breakers).find job.taskName = _
    rw [breakersAsked, hrow, Option.bind_some, hallow]
    rw [← hfind, ← hname] at hrow ⊢
    exact find_upsert_kept hrow
  have hkept : (cfg.backend.kept row row').state = row'.state ∧
      (cfg.backend.kept row row').halfOpenProbeCount = row'.halfOpenProbeCount := by
    cases cfg.backend <;> exact ⟨rfl, rfl⟩
  rw [hafter, hrow]
  rintro (heq | ⟨old, -, hold, -, hopen, -, -⟩)
  · rw [Option.some.inj heq] at hkept
    rcases hother with hstate' | hcount
    · exact hstate' (hkept.1 ▸ hstate)
    · have hsame := hkept.2
      omega
  · cases hold
    rw [hstate] at hopen
    cases hopen

/-! ### Frugal -/

theorem taskRefused_ne_proceed : taskRefused cfg job ≠ .proceed := rateLimited_ne_proceed _ _

theorem queueRefused_ne_proceed : queueRefused cfg job ≠ .proceed := rateLimited_ne_proceed _ _

def Thrifty {τ : Type} (cfg : Settings) (job : Job) (counts : GateCounts) (t₀ t₁ : Int)
    (ok : τ → Prop) (at_ : τ → World → GateDecision × World) (w w' : World) : Prop :=
  ∀ t, ok t → (at_ t w').1 ≠ .proceed ∨ ¬ WithinCaps cfg job counts w →
    AsIfUnseen cfg job t₀ t₁ w (at_ t w').2

abbrev TwoReadings (t₀ t₁ : Int) (t : Int × Int) : Prop :=
  t.1 ∈ Set.Icc t₀ t₁ ∧ t.2 ∈ Set.Icc t₀ t₁

theorem taskGatesAt_admitted (h : BreakerAdmits cfg job w t) (t' : Int) :
    taskGatesAt cfg job refused (t, t') w =
      limitAt cfg (taskLimit cfg job) job.taskName refused t' (breakerAt cfg job t w).2 :=
  if_pos (breakerAt_proceed.mpr h)

theorem taskGatesAt_refused (h : ¬ BreakerAdmits cfg job w t) (t' : Int) :
    taskGatesAt cfg job refused (t, t') w = breakerAt cfg job t w :=
  if_neg fun hproceed => h (breakerAt_proceed.mp hproceed)

theorem limitLevel_breakerAt {t' : Int} : limitLevel config key (breakerAt cfg job t w).2 t' =
    limitLevel config key w t' := by
  rw [limitLevel, breakerAt_buckets, limitLevel]

theorem Passes.proceeds (h : Passes cfg job counts t₀ w) {t : Int × Int}
    (ht : TwoReadings t₀ t₁ t) : (taskGatesAt cfg job (taskRefused cfg job) t w).1 = .proceed := by
  obtain ⟨b, c⟩ := t
  rw [taskGatesAt_admitted (admits_later h.breaker ht.1.1), limitAt_proceed taskRefused_ne_proceed]
  intro config hconfig
  rw [limitLevel_breakerAt]
  exact grants_later h.task ht.2.1 config hconfig

section

variable (hle : t₀ ≤ t₁)
  (h : Thrifty cfg job counts t₀ t₁ (TwoReadings t₀ t₁)
    (taskGatesAt cfg job (taskRefused cfg job)) w w)
include hle h

/-- A probe is given at `t₀`; what is behind is asked at `t₀` too, and passes. -/
theorem thrifty_probe {row : CircuitBreakerState} (hconf : breakerConfigured cfg job = true)
    (hrow : w.breakers.find job.taskName = some row)
    (hstate : CircuitState.fromI32 row.state = .halfOpen)
    (hprobe : row.halfOpenProbeCount < row.halfOpenMaxProbes) :
    TaskGrants cfg job w t₀ ∧ WithinCaps cfg job counts w := by
  have hadmits : BreakerAdmits cfg job w t₀ := by
    intro _ row' hrow'
    cases hrow.symm.trans hrow'
    simp only [CircuitBreakerState.allow, hstate, if_pos hprobe]
  have hseen : ¬ AsIfUnseen cfg job t₀ t₁ w
      (taskGatesAt cfg job (taskRefused cfg job) (t₀, t₀) w).2 := by
    intro hunseen
    have hbreaker := hunseen.breaker
    rw [taskGatesAt_admitted hadmits, limitAt_breakers] at hbreaker
    exact breakerAt_seen hconf hrow hstate (.inl hprobe) hbreaker
  have hpassed := not_or.mp fun hno =>
    hseen (h (t₀, t₀) ⟨⟨le_refl _, hle⟩, le_refl _, hle⟩ hno)
  rw [taskGatesAt_admitted hadmits] at hpassed
  refine ⟨fun config hconfig => ?_, not_not.mp hpassed.2⟩
  have hgrants := (limitAt_proceed taskRefused_ne_proceed).mp (not_not.mp hpassed.1)
    config hconfig
  rw [limitLevel_breakerAt] at hgrants
  exact hgrants

theorem thrifty_cooldown {row : CircuitBreakerState} (hconf : breakerConfigured cfg job = true)
    (hrow : w.breakers.find job.taskName = some row)
    (hstate : CircuitState.fromI32 row.state = .halfOpen)
    (hnone : row.halfOpenMaxProbes ≤ row.halfOpenProbeCount) :
    saturatingSub t₁ (row.halfOpenAt.getD 0) < row.cooldownMs := by
  by_contra hcool
  have hno : ¬ BreakerAdmits cfg job w t₁ := by
    intro hadmits
    have hallow := hadmits hconf row hrow
    simp only [CircuitBreakerState.allow, hstate, if_neg (not_lt.mpr hnone),
      if_pos (show _ ≥ _ from not_lt.mp hcool)] at hallow
    cases hallow
  have hunseen := h (t₁, t₁) ⟨⟨hle, le_refl _⟩, hle, le_refl _⟩
  rw [taskGatesAt_refused hno] at hunseen
  exact breakerAt_seen hconf hrow hstate (.inr (not_lt.mp hcool))
    (hunseen (.inl fun hproceed => hno (breakerAt_proceed.mp hproceed))).breaker

theorem thrifty_token (hqueue : queueLimit cfg job = none) (hadmits : BreakerAdmits cfg job w t₁)
    (hlimit : taskLimit cfg job = some config)
    (hlevel : 1 ≤ limitLevel config job.taskName w t₁) : WithinCaps cfg job counts w := by
  by_contra hcaps
  have hunseen := h (t₁, t₁) ⟨⟨hle, le_refl _⟩, hle, le_refl _⟩ (.inr hcaps)
  rw [taskGatesAt_admitted hadmits, hlimit] at hunseen
  rw [← limitLevel_breakerAt] at hlevel
  have hspent : LeftWith t₁ (limitLevel config job.taskName (breakerAt cfg job t₁ w).2 t₁ - 1)
      ((limitAt cfg (some config) job.taskName (taskRefused cfg job) t₁
        (breakerAt cfg job t₁ w).2).2.buckets.find job.taskName) := limitAt_spends hlevel
  rw [limitLevel_breakerAt] at hspent
  exact hspent.seen ((limitOf_task hqueue).trans hlimit) hunseen

end

theorem FrugalTask.thrifty (hf : FrugalTask cfg job counts t₀ t₁ w)
    (hqueue : queueLimit cfg job = none) :
    Thrifty cfg job counts t₀ t₁ (TwoReadings t₀ t₁) (taskGatesAt cfg job (taskRefused cfg job))
      w w := by
  rintro ⟨b, c⟩ ⟨hb, hc⟩ hturned
  have hnot : ¬ Passes cfg job counts t₀ w := fun hpass =>
    hturned.elim (fun hno => hno (hpass.proceeds ⟨hb, hc⟩)) fun hno => hno hpass.caps
  have hprobes := (breakerAt_frugal hf hb).resolve_right hnot
  have hbuckets : (breakerAt cfg job b w).2.buckets = w.buckets := breakerAt_buckets
  by_cases hadmits : BreakerAdmits cfg job w b
  · rw [taskGatesAt_admitted hadmits] at hturned ⊢
    refine ⟨fun key => ?_, by rw [limitAt_breakers]; exact hprobes⟩
    by_cases hproceed : (limitAt cfg (taskLimit cfg job) job.taskName (taskRefused cfg job) c
        (breakerAt cfg job b w).2).1 = .proceed
    · -- The caps refuse, so there was no token to take.
      have hcaps := hturned.resolve_left fun hno => hno hproceed
      cases hlimit : taskLimit cfg job with
      | none => exact .inl (by rw [limitAt, hbuckets])
      | some config =>
        have hgrants := (limitAt_proceed taskRefused_ne_proceed).mp hproceed config hlimit
        rw [limitLevel_breakerAt] at hgrants
        exact absurd (hf.task (admits_later hadmits hb.2) config hlimit
          (le_trans hgrants (level_mono (le_of_lt config.pos) hc.2))) hcaps
    · obtain ⟨config, hlimit, hfilled, hothers⟩ := limitAt_refills hc hproceed
      rw [hbuckets] at hfilled hothers
      by_cases hkey : key = job.taskName
      · subst hkey
        exact .inr ⟨config, (limitOf_task hqueue).trans hlimit, hfilled⟩
      · exact .inl (hothers key hkey)
  · rw [taskGatesAt_refused hadmits]
    exact ⟨fun key => .inl (by rw [hbuckets]), hprobes⟩

/-- **The task's gates**, with no limit on the queue. -/
theorem frugalTask_iff (hle : t₀ ≤ t₁) (hqueue : queueLimit cfg job = none) :
    Thrifty cfg job counts t₀ t₁ (TwoReadings t₀ t₁) (taskGatesAt cfg job (taskRefused cfg job))
        w w ↔ FrugalTask cfg job counts t₀ t₁ w :=
  ⟨fun h => ⟨fun hconf _ hrow hstate => ⟨thrifty_probe hle h hconf hrow hstate,
      thrifty_cooldown hle h hconf hrow hstate⟩,
    fun hadmits _ hlimit => thrifty_token hle h hqueue hadmits hlimit⟩,
    fun hf => hf.thrifty hqueue⟩

/-- **The gates behind the queue's**, once a token was taken there at `a`. -/
theorem passes_iff (hle : t₀ ≤ t₁) {a : Int} (ha : a ∈ Set.Icc t₀ t₁) {w₁ : World}
    (hlimit : queueLimit cfg job = some config)
    (hspent : LeftWith a (limitLevel config (queueKey job) w a - 1)
      (w₁.buckets.find (queueKey job)))
    (hcaps : WithinCaps cfg job counts w₁ ↔ WithinCaps cfg job counts w) :
    Thrifty cfg job counts t₀ t₁ (TwoReadings t₀ t₁) (taskGatesAt cfg job (taskRefused cfg job))
        w w₁ ↔ Passes cfg job counts t₀ w₁ := by
  have hfirst : t₀ ∈ Set.Icc t₀ t₁ := ⟨le_refl _, hle⟩
  have hbucket : ∀ b, LeftWith a (limitLevel config (queueKey job) w a - 1)
      ((breakerAt cfg job b w₁).2.buckets.find (queueKey job)) := by
    intro b
    rw [breakerAt_buckets]
    exact hspent
  constructor
  · intro h
    have hadmits : BreakerAdmits cfg job w₁ t₀ := by
      by_contra hno
      have hunseen := h (t₀, t₀) ⟨hfirst, hfirst⟩ (.inl fun hproceed => by
        rw [taskGatesAt_refused hno] at hproceed
        exact hno (breakerAt_proceed.mp hproceed))
      rw [taskGatesAt_refused hno] at hunseen
      exact (hbucket t₀).seen (limitOf_queue hlimit) hunseen
    -- A task's limit that looks at another bucket, or at `a`, leaves the token taken.
    have hstays : ∀ c ∈ Set.Icc t₀ t₁, (queueKey job = job.taskName → c = a) →
        (limitAt cfg (taskLimit cfg job) job.taskName (taskRefused cfg job) c
            (breakerAt cfg job t₀ w₁).2).1 = .proceed ∧ WithinCaps cfg job counts w := by
      intro c hc hsame
      have hseen : ¬ AsIfUnseen cfg job t₀ t₁ w
          (taskGatesAt cfg job (taskRefused cfg job) (t₀, c) w₁).2 := by
        rw [taskGatesAt_admitted hadmits]
        exact ((hbucket t₀).limitAt hsame).seen (limitOf_queue hlimit)
      have hpassed := not_or.mp fun hno => hseen (h (t₀, c) ⟨hfirst, hc⟩ hno)
      rw [taskGatesAt_admitted hadmits] at hpassed
      exact ⟨not_not.mp hpassed.1, not_not.mp hpassed.2⟩
    refine ⟨hadmits, ?_, hcaps.mpr (hstays a ha fun _ => rfl).2⟩
    intro config' hconfig'
    have hgrants : ∀ c ∈ Set.Icc t₀ t₁, (queueKey job = job.taskName → c = a) →
        1 ≤ limitLevel config' job.taskName w₁ c := by
      intro c hc hsame
      have hproceed := (limitAt_proceed taskRefused_ne_proceed).mp (hstays c hc hsame).1
        config' hconfig'
      rw [limitLevel_breakerAt] at hproceed
      exact hproceed
    by_cases hkey : queueKey job = job.taskName
    · -- The bucket was written at `a`, so it holds no more at `a` than at `t₀`.
      obtain ⟨row, hrow, hlast, -⟩ := hspent
      have hlevel := hgrants a ha fun _ => rfl
      rw [limitLevel, ← hkey, hrow] at hlevel ⊢
      rw [level_before (hlast ▸ ha.1), hlast]
      exact hlevel
    · exact hgrants t₀ hfirst fun heq => absurd heq hkey
  · intro hpass t ht hturned
    exact (hturned.elim (fun hno => hno (hpass.proceeds ht))
      fun hno => hno (hcaps.mp hpass.caps)).elim

theorem WithinCaps.congr_iff (hjobs : w'.store.jobs = w.store.jobs)
    (hin : w'.inFlight = w.inFlight) :
    WithinCaps cfg job counts w' ↔ WithinCaps cfg job counts w :=
  ⟨fun h => h.congr hjobs.symm hin.symm, fun h => h.congr hjobs hin⟩

theorem gatesAt_unlimited (hqueue : queueLimit cfg job = none) (t : Int × Int × Int) :
    gatesAt cfg job t w = taskGatesAt cfg job (taskRefused cfg job) t.2 w := by
  rw [gatesAt, hqueue]
  exact if_pos rfl

section Limited

variable (hqueue : queueLimit cfg job = some config) {a : Int}
include hqueue

theorem gatesAt_granted (hlevel : 1 ≤ limitLevel config (queueKey job) w a) (t : Int × Int) :
    gatesAt cfg job (a, t) w = taskGatesAt cfg job (taskRefused cfg job) t
      { w with buckets := (draw cfg config (queueKey job) a w.buckets).2 } := by
  rw [gatesAt, hqueue]
  refine if_pos ((limitAt_proceed queueRefused_ne_proceed).mpr fun config' hconfig' => ?_)
  cases hconfig'
  exact hlevel

theorem gatesAt_refused_unseen (ha : a ∈ Set.Icc t₀ t₁)
    (hlevel : ¬1 ≤ limitLevel config (queueKey job) w a) (t : Int × Int) :
    AsIfUnseen cfg job t₀ t₁ w (gatesAt cfg job (a, t) w).2 := by
  have hno : (limitAt cfg (queueLimit cfg job) (queueKey job) (queueRefused cfg job) a w).1 ≠
      .proceed := fun hproceed =>
    hlevel ((limitAt_proceed queueRefused_ne_proceed).mp hproceed config hqueue)
  have hgates : gatesAt cfg job (a, t) w =
      limitAt cfg (queueLimit cfg job) (queueKey job) (queueRefused cfg job) a w := if_neg hno
  obtain ⟨config', hconfig', hfilled, hothers⟩ := limitAt_refills ha hno
  rw [hgates]
  refine ⟨fun key => ?_, by rw [limitAt_breakers]; exact .inl rfl⟩
  by_cases hkey : key = queueKey job
  · subst hkey
    exact .inr ⟨config', limitOf_queue hconfig', hfilled⟩
  · exact .inl (hothers key hkey)

end Limited

/-- **The gates spend nothing in vain** exactly where `Frugal` says so. -/
theorem frugal_iff (hle : t₀ ≤ t₁) :
    Thrifty cfg job counts t₀ t₁ (Readings t₀ t₁) (gatesAt cfg job) w w ↔
      Frugal cfg job counts t₀ t₁ w := by
  cases hqueue : queueLimit cfg job with
  | none =>
    constructor
    · intro h
      refine ⟨fun _ => (frugalTask_iff hle hqueue).mp fun t ht => ?_, fun config hconfig => ?_⟩
      · have hone := h (t₀, t) ⟨⟨le_refl _, hle⟩, ht⟩
        rw [gatesAt_unlimited hqueue] at hone
        exact hone
      · cases hqueue.symm.trans hconfig
    · intro hf t ht
      rw [gatesAt_unlimited hqueue]
      exact (frugalTask_iff hle hqueue).mpr (hf.unlimited hqueue) t.2 ht.2
  | some config =>
    have hpasses : ∀ a ∈ Set.Icc t₀ t₁, 1 ≤ limitLevel config (queueKey job) w a →
        (Thrifty cfg job counts t₀ t₁ (TwoReadings t₀ t₁)
            (taskGatesAt cfg job (taskRefused cfg job)) w
            { w with buckets := (draw cfg config (queueKey job) a w.buckets).2 } ↔
          Passes cfg job counts t₀
            { w with buckets := (draw cfg config (queueKey job) a w.buckets).2 }) := by
      intro a ha hlevel
      have hspent := @limitAt_spends a w (queueKey job) (queueRefused cfg job) config cfg hlevel
      exact passes_iff hle ha hqueue hspent (WithinCaps.congr_iff rfl rfl)
    constructor
    · intro h
      refine ⟨fun hnone => (by cases hqueue.symm.trans hnone),
        fun config' hconfig' a ha hlevel => ?_⟩
      cases hqueue.symm.trans hconfig'
      refine (hpasses a ha hlevel).mp fun t ht => ?_
      have hone := h (a, t) ⟨ha, ht⟩
      rw [gatesAt_granted hqueue hlevel t] at hone
      exact hone
    · rintro hf ⟨a, t⟩ ⟨ha, ht⟩
      by_cases hlevel : 1 ≤ limitLevel config (queueKey job) w a
      · rw [gatesAt_granted hqueue hlevel t]
        exact (hpasses a ha hlevel).mpr (hf.limited config hqueue a ha hlevel) t ht
      · exact fun _ => gatesAt_refused_unseen hqueue ha hlevel t

/-! ## One job of a round -/

/-- How a round handles a job it dequeued: on its own, or claimed together
with others. -/
inductive Path
  | single
  | batch (epoch : Option Int)
  deriving DecidableEq, Repr

/-- `gate_and_dispatch`, or `dispatch_claimed`. -/
def Path.dispatch (cfg : Settings) (job : Job) (now : Int) (counts : GateCounts) :
    Path → Code (Counted Bool)
  | .single => gateAndDispatch cfg job now counts
  | .batch epoch => dispatchClaimed cfg job now epoch counts

/-- Behind the gates nothing is spent, and exactly a job that the gates and
its caps let pass is sent. -/
theorem Path.continues (cfg : Settings) (path : Path) (job : Job) (now : Int)
    (counts : GateCounts) :
    ∃ rest, path.dispatch cfg job now counts = checkPreClaimGates cfg job >>= rest ∧
      ∀ {t₀ t₁ : Int} {d : GateDecision} {w w' : World} {r : Counted Bool},
        (path = .single → w.store.claims.find job.id = none) →
        GoesCalmly cfg t₀ t₁ (rest (.ok d)) w r w' →
        w'.buckets = w.buckets ∧ w'.breakers = w.breakers ∧
          (w'.sent = w.sent ↔ d ≠ .proceed ∨ ¬ WithinCaps cfg job counts w) := by
  -- A refused job is only put away, and nothing of that spends or sends.
  have hback : ∀ {p : Code (Counted Bool)} {t₀ t₁ : Int} {d : GateDecision} {w w' : World}
      {r : Counted Bool}, Mute p → d ≠ .proceed → GoesCalmly cfg t₀ t₁ p w r w' →
      w'.buckets = w.buckets ∧ w'.breakers = w.breakers ∧
        (w'.sent = w.sent ↔ d ≠ .proceed ∨ ¬ WithinCaps cfg job counts w) := by
    intro p t₀ t₁ d w w' r hmute hd hgoes
    have hspared := hmute.spared hgoes
    exact ⟨hspared.buckets, hspared.breakers, fun _ => .inl hd, fun _ => hspared.sent⟩
  cases path with
  | batch epoch =>
    refine ⟨_, rfl, ?_⟩
    intro t₀ t₁ d w w' r _ hgoes
    cases d with
    | proceed =>
      obtain ⟨hbuckets, hbreakers, hsent⟩ := finishDispatch_goes hgoes
      exact ⟨hbuckets, hbreakers, by simpa using hsent⟩
    | defer => exact hback (mute_putBack _ _ _ _ _) (by simp) hgoes
    | shed =>
      refine hback ?_ (by simp) hgoes
      exact issues_bind (mute_shedRateLimited _ _ _) fun x => by cases x <;> trivial
  | single =>
    refine ⟨_, rfl, ?_⟩
    intro t₀ t₁ d w w' r hfree hgoes
    cases d with
    | proceed =>
      obtain ⟨y, w₂, hclaim, hfin⟩ := Prog.goes_bind.mp hgoes
      obtain ⟨out, -, hans⟩ := goes_sure hclaim fun _ h => h.answers
      obtain ⟨claims, hins, -⟩ :=
        claimExecution_free (hfree rfl) cfg.claimOwner out.now (out.mint 0)
      simp only [answer, hins, World.commit] at hans
      cases hans
      obtain ⟨hbuckets, hbreakers, hsent⟩ := finishDispatch_goes hfin
      have hcaps := @WithinCaps.congr_iff w { w with store := { w.store with claims := claims } }
        counts job cfg rfl rfl
      exact ⟨hbuckets, hbreakers, by simpa using hsent.trans hcaps.not⟩
    | defer =>
      refine hback ?_ (by simp) hgoes
      refine issues_bind ⟨trivial, fun _ => trivial⟩ fun delay => ?_
      exact issues_bind (issues_ask trivial) fun x => by cases x <;> trivial
    | shed =>
      refine hback ?_ (by simp) hgoes
      exact issues_bind (mute_shedRateLimited _ _ _) fun x => by cases x <;> trivial

/-- **A job that is turned away has spent nothing**, exactly where no reading of
the round lets a gate spend and one behind it, or a cap, refuse: alone or in a
batch, on any backend. -/
theorem refusal_spends_nothing (cfg : Settings) (path : Path) (job : Job) (now t₀ t₁ : Int)
    (counts : GateCounts) (w : World) (hclock : t₀ ≤ t₁)
    (hfree : path = .single → w.store.claims.find job.id = none) :
    (∀ r w', GoesCalmly cfg t₀ t₁ (path.dispatch cfg job now counts) w r w' → w'.sent = w.sent →
      AsIfUnseen cfg job t₀ t₁ w w') ↔ Frugal cfg job counts t₀ t₁ w := by
  rw [← frugal_iff hclock]
  obtain ⟨rest, hdispatch, hrest⟩ := path.continues cfg job now counts
  have hasked := checkPreClaimGates_asked hclock cfg job
  have hworld : ∀ t, GatesOnly w (gatesAt cfg job t w).2 := gatesAt_only
  have hclaim : ∀ t, path = .single →
      (gatesAt cfg job t w).2.store.claims.find job.id = none := by
    intro t hsingle
    rw [(hworld t).store]
    exact hfree hsingle
  have hcaps : ∀ t, WithinCaps cfg job counts (gatesAt cfg job t w).2 ↔
      WithinCaps cfg job counts w := fun t =>
    WithinCaps.congr_iff (congrArg Store.jobs (hworld t).store) (hworld t).inFlight
  rw [hdispatch]
  constructor
  · intro h t ht hturned
    obtain ⟨r, w', hgoes⟩ : ∃ r w', GoesCalmly cfg t₀ t₁ (rest (.ok (gatesAt cfg job t w).1))
        (gatesAt cfg job t w).2 r w' :=
      Prog.goes_somewhere (fun _ _ => ⟨calmAt t₀, calm_calmAt ⟨le_refl _, hclock⟩⟩) _ _
    obtain ⟨hbuckets, hbreakers, hsent⟩ := hrest (hclaim t) hgoes
    rw [hcaps t, (hworld t).sent] at hsent
    have hrun := Prog.goes_bind.mpr ⟨_, _, (hasked _ _ _).mpr ⟨t, ht, rfl, rfl⟩, hgoes⟩
    exact (h r w' hrun (hsent.mpr hturned)).congr hbuckets.symm hbreakers.symm
  · intro h r w' hrun hunsent
    obtain ⟨x, w₁, hgates, hgoes⟩ := Prog.goes_bind.mp hrun
    obtain ⟨t, ht, rfl, rfl⟩ := (hasked _ _ _).mp hgates
    obtain ⟨hbuckets, hbreakers, hsent⟩ := hrest (hclaim t) hgoes
    rw [hcaps t, (hworld t).sent] at hsent
    exact (h t ht (hsent.mp hunsent)).congr hbuckets hbreakers

/-! ## One job against two buckets -/

def slow : RateLimitConfig := oneASecond ""

def twoLimits (b : Backend) : Settings where
  claimOwner := "worker"
  «namespace» := none
  serde := ⟨fun _ => none, fun _ => ""⟩
  backend := b
  batchSize := 1
  maxInFlight := none
  queueConfigs _ := some ⟨some slow, none⟩
  taskConfigs _ := some ⟨some slow, .defer, false, none, none⟩
  codelTargetMs _ := none
  dispatchOrders _ := .fifo
  quotas _ := .ok none

def dequeuedJob (id : String) : Job :=
  ({ queue := "q", taskName := "t", payload := [], priority := 0, scheduledAt := 0,
     maxRetries := 3, timeoutMs := 1000, uniqueKey := none, metadata := none, notes := none,
     dependsOn := [], expiresAt := none, resultTtlMs := none, «namespace» := none,
     debounceKey := none, enqueuedBy := none : NewJob }.intoJob id 0).startedBy 0

/-- The job in the store, and the task's bucket empty. -/
def drained : World where
  store := { Store.empty with jobs := Table.empty.upsert (dequeuedJob "j") }
  buckets := Table.empty.upsert ⟨"t", 0, 1, 1, 0⟩
  breakers := .empty
  inFlight := .empty
  picked := []
  sent := []

def still : Outside := calmAt 0

/-- The queue's token is gone when the task's bucket refuses: the job goes
back on the queue, and the token does not. -/
theorem refused_job_spends : ∃ r w',
    GoesCalmly (twoLimits .sqlite) 0 0
      (Path.single.dispatch (twoLimits .sqlite) (dequeuedJob "j") 0 .default) drained r w' ∧
    r.1 = .ok false ∧ w'.sent = drained.sent ∧
    limitLevel slow "queue:q" drained 0 = 1 ∧ limitLevel slow "queue:q" w' 0 = 0 := by
  exact Prog.exists_goes [still, still, still, still]

/-- With the task's limit alone, the job goes back and its bucket holds what
it held. -/
theorem lone_limit_keeps_bucket :
    ∃ r w', GoesCalmly { twoLimits .redis with queueConfigs := fun _ => none } 0 0
        (Path.single.dispatch { twoLimits .redis with queueConfigs := fun _ => none }
          (dequeuedJob "j") 0 .default) drained r w' ∧
      AsIfUnseen { twoLimits .redis with queueConfigs := fun _ => none } (dequeuedJob "j") 0 0
        drained w' := by
  obtain ⟨r, w', hrun, hunsent⟩ : ∃ r w',
      GoesCalmly { twoLimits .redis with queueConfigs := fun _ => none } 0 0
        (Path.single.dispatch { twoLimits .redis with queueConfigs := fun _ => none }
          (dequeuedJob "j") 0 .default) drained r w' ∧ w'.sent = drained.sent :=
    Prog.exists_goes [still, still, still, still]
  refine ⟨r, w', hrun, (refusal_spends_nothing _ .single _ 0 0 0 .default drained (le_refl _)
    (fun _ => rfl)).mpr ⟨fun _ => ⟨?_, ?_⟩, ?_⟩ r w' hrun hunsent⟩
  · intro hconf
    cases hconf
  · intro _ config hconfig hlevel
    cases hconfig
    exact absurd hlevel (by decide +kernel)
  · intro config hconfig
    cases hconfig

end FlexiQ.Dispatch
