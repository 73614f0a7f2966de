/-
# `Resilience.Episodes` — a breaker over many calls

One caller, a clock that does not go back, and `allow`, `record_success` and
`record_failure` in any order.

A breaker that goes half-open lets the call through that found it cooled down,
and counts its probes from there: one call more than its budget
(`probes_within_budget`).  A late success closes an open breaker at once; only
where none arrives is the cooldown kept (`cooldown_kept`).
-/
import FlexiQ.Resilience.Breaker
import Mathlib.Data.Bool.Count

namespace FlexiQ.Resilience

open FlexiQ.Lib

def CircuitBreakerState.circuit (row : CircuitBreakerState) : CircuitState :=
  CircuitState.fromI32 row.state

inductive BreakerCall
  | allow
  | success
  | failure
  deriving DecidableEq

/-- A breaker under watch.  For the record only: how many calls were let
through since it last went half-open, and when it last opened. -/
structure Watch where
  row : CircuitBreakerState
  clock : Int
  admitted : Nat := 0
  opened : Option Int := none

def CircuitBreakerState.answer (row : CircuitBreakerState) (now : Int) :
    BreakerCall → Bool × Option CircuitBreakerState
  | .allow => row.allow now
  | .success => (false, row.recordSuccess now)
  | .failure => (false, some (row.recordFailure now))

def CircuitBreakerState.after (b : Backend) (row : CircuitBreakerState) (now : Int)
    (call : BreakerCall) : CircuitBreakerState :=
  (row.answer now call).2.elim row (b.kept row)

def Watch.next (b : Backend) (w : Watch) (label : Int × BreakerCall) : Option Watch :=
  let row := w.row.after b label.1 label.2
  if label.1 < w.clock then none
  else some {
    row
    clock := label.1
    admitted :=
      if w.row.circuit ≠ .halfOpen ∧ row.circuit = .halfOpen then 1
      else w.admitted + (w.row.answer label.1 label.2).1.toNat
    opened := if w.row.circuit ≠ .open ∧ row.circuit = .open then some label.1 else w.opened }

/-! ## One call -/

namespace CircuitBreakerState

variable {b : Backend} {row row' : CircuitBreakerState} {now : Int} {call : BreakerCall}

structure Stepped (row row' : CircuitBreakerState) (now : Int) (call : BreakerCall)
    (through : Bool) : Prop where
  cooldown : row'.cooldownMs = row.cooldownMs
  budget : row'.halfOpenMaxProbes = row.halfOpenMaxProbes
  half : row'.circuit = .halfOpen →
    (row.circuit = .halfOpen ∧
      row'.halfOpenProbeCount = row.halfOpenProbeCount + (through.toNat : Int) ∧
      (through = true → row.halfOpenProbeCount < row.halfOpenMaxProbes)) ∨
    (row.circuit = .open ∧ row'.halfOpenProbeCount = 0 ∧ call = .allow ∧
      row.cooldownMs ≤ saturatingSub now (row.openedAt.getD 0))
  opens : row'.circuit = .open →
    row'.openedAt = if row.circuit = .open then row.openedAt else some now
  shut : row.circuit = .open → through = true ∨ row'.circuit ≠ .open →
    call = .success ∨ row.cooldownMs ≤ saturatingSub now (row.openedAt.getD 0)

theorem Stepped.kept {through : Bool} (h : Stepped row row' now call through) :
    Stepped row (b.kept row row') now call through := by
  cases b with
  | sqlite | redis => exact h
  | postgres =>
    refine { h with opens := fun ho => ?_ }
    have hopened := h.opens ho
    show (row'.openedAt <|> row.openedAt) = _
    rw [hopened]
    split
    · cases row.openedAt <;> rfl
    · rfl

theorem after_stepped (b : Backend) (row : CircuitBreakerState) (now : Int) (call : BreakerCall) :
    Stepped row (row.after b now call) now call (row.answer now call).1 := by
  have hstep : Stepped row ((row.answer now call).2.getD row) now call
      (row.answer now call).1 := ?_
  · unfold after
    generalize (row.answer now call).2 = written at hstep ⊢
    cases written with
    | none => exact hstep
    | some row' => exact hstep.kept
  -- By state and call, and within these by the branches of the source.
  cases hc : row.circuit <;> have hstate : CircuitState.fromI32 row.state = _ := hc <;>
    cases call <;> simp only [answer, allow, recordSuccess, recordFailure, hstate] <;>
    repeat' split
  all_goals
    refine ⟨rfl, rfl, ?_, ?_, ?_⟩ <;>
      simp_all [circuit, opened, closed, unprobed, CircuitState.toI32, CircuitState.fromI32]

end CircuitBreakerState

namespace Watch

variable {b : Backend} {w w' start : Watch} {label : Int × BreakerCall} {t : Int}

/-! ## The budget -/

def Spares (w : Watch) (label : Int × BreakerCall) : Prop :=
  label.2 = .allow →
    (w.row.circuit = .halfOpen → w.row.halfOpenProbeCount + 1 ≠ w.row.halfOpenMaxProbes) ∧
    (w.row.circuit = .open → w.row.cooldownMs ≤ saturatingSub label.1 (w.row.openedAt.getD 0) →
      0 < w.row.halfOpenMaxProbes)
  deriving Decidable

/-- The calls let through are the probes counted, and the one that went
before the counting. -/
def Counted (w : Watch) : Prop :=
  w.row.circuit = .halfOpen → (w.admitted : Int) = w.row.halfOpenProbeCount + 1 ∧
    w.row.halfOpenProbeCount + 1 ≤ w.row.halfOpenMaxProbes

theorem Counted.next (hw : w.Counted) (hok : w.Spares label) (h : w.next b label = some w') :
    w'.Counted := by
  simp only [Watch.next, Option.ite_none_left_eq_some, Option.some.injEq] at h
  obtain ⟨-, rfl⟩ := h
  have hstep := w.row.after_stepped b label.1 label.2
  intro hhalf
  rw [hstep.budget]
  rcases hstep.half hhalf with ⟨hbefore, hcount, hroom⟩ | ⟨hbefore, hzero, hcall, hcooled⟩
  · obtain ⟨heq, hle⟩ := hw hbefore
    rw [if_neg fun hno => hno.1 hbefore, hcount]
    generalize hthrough : (w.row.answer label.1 label.2).1 = through at hroom ⊢
    cases through with
    | false => exact ⟨by simpa using heq, by simpa using hle⟩
    | true =>
      have hcall : label.2 = .allow := by
        cases hl : label.2 <;> rw [hl] at hthrough <;> first | rfl | cases hthrough
      have hlt := hroom rfl
      have hlast := (hok hcall).1 hbefore
      simp only [Bool.toNat_true]
      omega
  · rw [if_pos ⟨by simp [hbefore], hhalf⟩, hzero]
    exact ⟨rfl, (hok hcall).2 hbefore hcooled⟩

/-- **The probe budget**, where no call takes the last probe: the one that made
the breaker half-open was let through on top. -/
theorem probes_within_budget (hstart : start.row.circuit ≠ .halfOpen)
    (hr : Reaches (next b) Spares start w) (hhalf : w.row.circuit = .halfOpen) :
    (w.admitted : Int) ≤ w.row.halfOpenMaxProbes := by
  have hcounted : w.Counted := hr.invariant (I := Counted) (fun h => absurd h hstart)
    fun _ _ _ hw hok hnext => hw.next hok hnext
  obtain ⟨heq, hle⟩ := hcounted hhalf
  omega

def registered : Watch where
  row := ⟨"t", 0, 0, none, none, none, 1, 60000, 1000, 2, 1 / 2, 0, 0, 0⟩
  clock := 0

theorem third_call_let_through :
    ∃ w, Reaches (next .sqlite) (fun _ _ => True) registered w ∧ w.row.circuit = .halfOpen ∧
      w.row.halfOpenMaxProbes = 2 ∧ w.admitted = 3 :=
  exists_reached [(0, .failure), (1000, .allow), (1000, .allow), (1000, .allow)]

theorem second_call_is_last : ∃ w : Watch, w.admitted = 2 ∧ (w.admitted : Int) ≤ 2 := by
  obtain ⟨w, hr, hhalf, hmax, hadmitted⟩ : ∃ w,
      Reaches (next .postgres) Spares registered w ∧ w.row.circuit = .halfOpen ∧
        w.row.halfOpenMaxProbes = 2 ∧ w.admitted = 2 :=
    exists_reached [(0, .failure), (1000, .allow), (1000, .allow), (1000, .failure)]
  exact ⟨w, hadmitted, hmax ▸ probes_within_budget (by decide) hr hhalf⟩

/-! ## The cooldown -/

/-- No success is recorded while the breaker is open. -/
def Patient (w : Watch) (label : Int × BreakerCall) : Prop :=
  w.row.circuit = .open → label.2 ≠ .success
  deriving Decidable

/-- Since it last opened, the breaker is open or has cooled down. -/
def Shut (w : Watch) : Prop :=
  ∀ t, w.opened = some t →
    (w.row.circuit = .open → w.row.openedAt = some t ∧ t ≤ w.clock) ∧
      (w.row.circuit ≠ .open → t + w.row.cooldownMs ≤ w.clock)

theorem elapsed {row : CircuitBreakerState} {now : Int} (hat : row.openedAt = some t) (ht : t ≤ now)
    (h : row.cooldownMs ≤ saturatingSub now (row.openedAt.getD 0)) : t + row.cooldownMs ≤ now := by
  rw [hat, Option.getD_some] at h
  unfold saturatingSub at h
  omega

theorem Shut.next (hw : w.Shut) (hok : w.Patient label) (h : w.next b label = some w') :
    w'.Shut := by
  simp only [Watch.next, Option.ite_none_left_eq_some, Option.some.injEq] at h
  obtain ⟨hnow, rfl⟩ := h
  have hnow := not_lt.mp hnow
  have hstep := w.row.after_stepped b label.1 label.2
  intro t ht
  dsimp only at ht ⊢
  rw [hstep.cooldown]
  by_cases hbefore : w.row.circuit = .open
  · rw [if_neg fun h => h.1 hbefore] at ht
    obtain ⟨hat, hle⟩ := (hw t ht).1 hbefore
    refine ⟨fun ho => ⟨?_, le_trans hle hnow⟩, fun hno => ?_⟩
    · rw [hstep.opens ho, if_pos hbefore, hat]
    · exact elapsed hat (le_trans hle hnow)
        ((hstep.shut hbefore (.inr hno)).resolve_left (hok hbefore))
  · by_cases ho : (w.row.after b label.1 label.2).circuit = .open
    · rw [if_pos ⟨hbefore, ho⟩] at ht
      cases ht
      refine ⟨fun _ => ⟨?_, le_refl _⟩, fun hno => absurd ho hno⟩
      rw [hstep.opens ho, if_neg hbefore]
    · rw [if_neg fun h => ho h.2] at ht
      exact ⟨fun h => absurd h ho, fun _ => le_trans ((hw t ht).2 hbefore) hnow⟩

/-- **An open breaker stays shut for its cooldown**, where no success is
recorded while it is open. -/
theorem cooldown_kept {now : Int} (hstart : start.opened = none)
    (hr : Reaches (next b) Patient start w) (hopened : w.opened = some t) (hnow : w.clock ≤ now) :
    ((w.row.allow now).1 = true → t + w.row.cooldownMs ≤ now) ∧
      ∀ call, w.Patient (now, call) → w.row.circuit = .open →
        (w.row.after b now call).circuit ≠ .open → t + w.row.cooldownMs ≤ now := by
  have hshut : w.Shut := hr.invariant (I := Shut) (fun t ht => by rw [hstart] at ht; cases ht)
    fun _ _ _ hw hok hnext => hw.next hok hnext
  obtain ⟨hopen, hleft⟩ := hshut t hopened
  refine ⟨fun hallow => ?_, fun call hok hbefore hno => ?_⟩
  · by_cases hbefore : w.row.circuit = .open
    · obtain ⟨hat, hle⟩ := hopen hbefore
      have hcool := (w.row.after_stepped b now .allow).shut hbefore (.inl hallow)
      exact elapsed hat (le_trans hle hnow) (hcool.resolve_left (by decide))
    · exact le_trans (hleft hbefore) hnow
  · obtain ⟨hat, hle⟩ := hopen hbefore
    have hcool := (w.row.after_stepped b now call).shut hbefore (.inr hno)
    exact elapsed hat (le_trans hle hnow) (hcool.resolve_left (hok hbefore))

theorem late_success_closes :
    ∃ w, Reaches (next .sqlite) (fun _ _ => True) registered w ∧ w.opened = some 0 ∧
      w.clock ≤ 20 ∧ (w.row.allow 20).1 = true ∧ 20 < 0 + w.row.cooldownMs :=
  exists_reached [(0, .failure), (10, .success)]

theorem second_failure_changes_nothing : ∃ w : Watch, w.opened = some 0 ∧
    ((w.row.allow 20).1 = true → 0 + w.row.cooldownMs ≤ 20) := by
  obtain ⟨w, hr, hopened, hnow⟩ : ∃ w,
      Reaches (next .redis) Patient registered w ∧ w.opened = some 0 ∧ w.clock ≤ 20 :=
    exists_reached [(0, .failure), (10, .failure)]
  exact ⟨w, hopened, (cooldown_kept rfl hr hopened hnow).1⟩

end Watch

/-! ## The sample -/

namespace CircuitBreakerState

variable {b : Backend} {row row' : CircuitBreakerState} {now : Int} {ok : Bool} {s f : Nat}
  {results : List (Int × Bool)}

def note (b : Backend) (row : CircuitBreakerState) (result : Int × Bool) : CircuitBreakerState :=
  row.after b result.1 (if result.2 then .success else .failure)

/-- The row after these results.  What comes once the episode has ended is
recorded like any other result. -/
def settled (b : Backend) : CircuitBreakerState → List (Int × Bool) → CircuitBreakerState :=
  List.foldl (note b)

/-- How many results make a sample complete. -/
def quorum (row : CircuitBreakerState) : Int := max row.halfOpenMaxProbes 1

/-- `s` successes and `f` failures, on a clock that does not go back. -/
structure Sample (row : CircuitBreakerState) (s f : Nat) (results : List (Int × Bool)) : Prop where
  successes : (results.map Prod.snd).count true = s
  failures : (results.map Prod.snd).count false = f
  clock : (row.lastFailureAt.toList ++ results.map Prod.fst).Pairwise (· ≤ ·)

def Steady (row : CircuitBreakerState) (s f : Nat) : Prop :=
  s = 0 ∨ f = 0 ∨
    (row.quorum < s ∨ row.quorum = s ∧ row.halfOpenSuccessRate ≤ f64Ratio s s) ∧
      (f < row.threshold ∨ row.windowMs < 0 ∧ 1 < row.threshold)

/-- What the failure count of a closed breaker goes to. -/
def nextCount (row : CircuitBreakerState) (now : Int) : Int :=
  match row.lastFailureAt with
  | some last =>
    if saturatingSub now last > row.windowMs then 1 else saturatingSucc row.failureCount
  | none => 1

structure Noted (row row' : CircuitBreakerState) (now : Int) (ok : Bool) : Prop where
  config : row'.threshold = row.threshold ∧ row'.windowMs = row.windowMs ∧
    row'.halfOpenMaxProbes = row.halfOpenMaxProbes ∧
    row'.halfOpenSuccessRate = row.halfOpenSuccessRate
  last : row'.lastFailureAt = if ok then row.lastFailureAt else some now
  success : row.circuit ≠ .halfOpen → ok = true → row'.circuit = .closed ∧ row'.failureCount = 0
  stays : row.circuit = .open → ok = false → row'.circuit = .open
  counts : row.circuit = .closed → ok = false → row'.failureCount = row.nextCount now ∧
    row'.circuit = if row.nextCount now ≥ row.threshold then .open else .closed
  hit : row.circuit = .halfOpen → ok = true →
    if row.halfOpenSuccessCount + 1 + row.halfOpenFailureCount ≥ row.halfOpenMaxProbes then
      if row.halfOpenSuccessRate ≤ f64Ratio (row.halfOpenSuccessCount + 1)
          (row.halfOpenSuccessCount + 1 + row.halfOpenFailureCount) then
        row'.circuit = .closed ∧ row'.failureCount = 0
      else row'.circuit = .open
    else row'.circuit = .halfOpen ∧ row'.halfOpenSuccessCount = row.halfOpenSuccessCount + 1 ∧
      row'.halfOpenFailureCount = row.halfOpenFailureCount
  miss : row.circuit = .halfOpen → ok = false → row'.circuit = .open ∨
    row'.circuit = .halfOpen ∧ row'.halfOpenSuccessCount = row.halfOpenSuccessCount ∧
      row'.halfOpenFailureCount = row.halfOpenFailureCount + 1 ∧
      row.halfOpenSuccessCount + (row.halfOpenFailureCount + 1) < row.halfOpenMaxProbes ∧
      (0 < row.halfOpenMaxProbes → row.halfOpenSuccessRate ≤
        f64Ratio (row.halfOpenSuccessCount + (row.halfOpenMaxProbes -
          (row.halfOpenSuccessCount + (row.halfOpenFailureCount + 1)))) row.halfOpenMaxProbes)

theorem Noted.kept (h : Noted row row' now ok) : Noted row (b.kept row row') now ok := by
  cases b with
  | sqlite | redis => exact h
  | postgres =>
    refine { h with last := ?_ }
    have hlast := h.last
    show (row'.lastFailureAt <|> row.lastFailureAt) = _
    rw [hlast]
    cases ok with
    | true => cases row.lastFailureAt <;> rfl
    | false => rfl

theorem note_noted (b : Backend) (row : CircuitBreakerState) (now : Int) (ok : Bool) :
    Noted row (row.note b (now, ok)) now ok := by
  have hstep : Noted row ((row.answer now (if ok then .success else .failure)).2.getD row) now
      ok := ?_
  · unfold note after
    generalize (row.answer now (if ok then .success else .failure)).2 = written at hstep ⊢
    cases written with
    | none => exact hstep
    | some row' => exact hstep.kept
  -- By state and result, and within these by the branches of the source.
  cases hc : row.circuit <;> have hstate : CircuitState.fromI32 row.state = _ := hc <;>
    cases ok <;> simp only [answer, recordSuccess, recordFailure, hstate, if_true,
      Bool.false_eq_true, if_false]
  case closed.false =>
    show Noted row (if row.nextCount now ≥ row.threshold then
      { row with
        failureCount := row.nextCount now
        lastFailureAt := some now
        state := CircuitState.open.toI32
        openedAt := some now
        halfOpenAt := none }
      else { row with failureCount := row.nextCount now, lastFailureAt := some now }) now false
    split <;> refine ⟨⟨rfl, rfl, rfl, rfl⟩, rfl, ?_, ?_, ?_, ?_, ?_⟩ <;>
      simp_all [circuit, CircuitState.toI32, CircuitState.fromI32]
  all_goals repeat' split
  all_goals
    refine ⟨⟨rfl, rfl, rfl, rfl⟩, rfl, ?_, ?_, ?_, ?_, ?_⟩ <;>
      simp_all [circuit, opened, closed, unprobed, CircuitState.toI32, CircuitState.fromI32]

/-! ### Many results -/

theorem settled_append (b : Backend) (row : CircuitBreakerState) (first rest : List (Int × Bool)) :
    settled b row (first ++ rest) = settled b (settled b row first) rest :=
  List.foldl_append

theorem settled_config (b : Backend) (row : CircuitBreakerState)
    (results rest : List (Int × Bool)) :
    let row' := settled b row results
    (row'.threshold = row.threshold ∧ row'.windowMs = row.windowMs ∧
      row'.halfOpenMaxProbes = row.halfOpenMaxProbes ∧
      row'.halfOpenSuccessRate = row.halfOpenSuccessRate) ∧
    ((row.lastFailureAt.toList ++ (results ++ rest).map Prod.fst).Pairwise (· ≤ ·) →
      (row'.lastFailureAt.toList ++ rest.map Prod.fst).Pairwise (· ≤ ·)) := by
  induction results generalizing row with
  | nil => exact ⟨⟨rfl, rfl, rfl, rfl⟩, id⟩
  | cons result results ih =>
    obtain ⟨now, ok⟩ := result
    have hnoted := note_noted b row now ok
    obtain ⟨hconfig, hclock⟩ := ih (row.note b (now, ok))
    obtain ⟨h₁, h₂, h₃, h₄⟩ := hnoted.config
    rw [h₁, h₂, h₃, h₄] at hconfig
    refine ⟨hconfig, fun h => hclock ?_⟩
    rw [hnoted.last]
    rw [List.cons_append, List.map_cons] at h
    cases ok with
    | true => exact h.sublist (List.Sublist.append_left (List.sublist_cons_self _ _) _)
    | false => exact h.sublist (List.sublist_append_right _ _)

theorem settled_left (row : CircuitBreakerState) (results : List (Int × Bool))
    (h : row.circuit ≠ .halfOpen) : (settled b row results).circuit ≠ .halfOpen := by
  induction results generalizing row with
  | nil => exact h
  | cons result results ih =>
    obtain ⟨now, ok⟩ := result
    have hnoted := note_noted b row now ok
    refine ih _ ?_
    cases ok with
    | true =>
      rw [(hnoted.success h rfl).1]
      decide
    | false =>
      cases hc : row.circuit with
      | halfOpen => exact absurd hc h
      | «open» =>
        rw [hnoted.stays hc rfl]
        decide
      | closed =>
        rw [(hnoted.counts hc rfl).2]
        split <;> decide

/-- A half-open row that has noted `s` successes and `f` failures. -/
structure Probing (row : CircuitBreakerState) (s f : Nat) : Prop where
  half : row.circuit = .halfOpen
  successes : row.halfOpenSuccessCount = s
  failures : row.halfOpenFailureCount = f
  short : s + f < row.quorum

theorem Probing.note_success (b : Backend) (h : Probing row s f) (now : Int) :
    (Probing (row.note b (now, true)) (s + 1) f) ∨
      (s + 1 + f : Int) = row.quorum ∧
        if row.halfOpenSuccessRate ≤ f64Ratio (s + 1) row.quorum then
          (row.note b (now, true)).circuit = .closed ∧
            (row.note b (now, true)).failureCount = 0
        else (row.note b (now, true)).circuit = .open := by
  have hnoted := note_noted b row now true
  have hhit := hnoted.hit h.half rfl
  have hshort := h.short
  rw [h.successes, h.failures] at hhit
  split at hhit
  · next hfull =>
    have htotal : (s + 1 + f : Int) = row.quorum := by
      unfold quorum at hshort ⊢
      omega
    rw [htotal] at hhit
    exact .inr ⟨htotal, hhit⟩
  · next hfull =>
    obtain ⟨hhalf, hs, hf⟩ := hhit
    refine .inl ⟨hhalf, by push_cast; exact hs, hf, ?_⟩
    unfold quorum at hshort ⊢
    rw [hnoted.config.2.2.1]
    push_cast
    omega

theorem Probing.note_failure (b : Backend) (h : Probing row s f) (now : Int) :
    (row.note b (now, false)).circuit = .open ∨
      Probing (row.note b (now, false)) s (f + 1) ∧
        row.halfOpenSuccessRate ≤ f64Ratio (row.quorum - (f + 1)) row.quorum := by
  have hnoted := note_noted b row now false
  refine (hnoted.miss h.half rfl).imp_right fun ⟨hhalf, hs, hf, hroom, hbest⟩ => ?_
  rw [h.successes, h.failures] at hroom hbest
  have hquorum : row.quorum = row.halfOpenMaxProbes := max_eq_left (by omega)
  refine ⟨⟨hhalf, hs.trans h.successes, ?_, ?_⟩, ?_⟩
  · rw [hf, h.failures]
    push_cast
    rfl
  · rw [quorum, hnoted.config.2.2.1]
    push_cast
    omega
  · have hrest : (s + (row.halfOpenMaxProbes - (s + (f + 1))) : Int) =
        row.halfOpenMaxProbes - (f + 1) := by omega
    rw [hquorum, ← hrest]
    exact hbest (by omega)

theorem Probing.settled_ends (h : Probing row s f) (hfull : row.quorum ≤ s + f + results.length) :
    (settled b row results).circuit ≠ .halfOpen := by
  induction results generalizing row s f with
  | nil =>
    have hshort := h.short
    simp only [List.length_nil] at hfull
    omega
  | cons result results ih =>
    obtain ⟨now, ok⟩ := result
    have hbudget : (row.note b (now, ok)).quorum = row.quorum := by
      rw [quorum, (note_noted b row now ok).config.2.2.1, quorum]
    rw [List.length_cons] at hfull
    push_cast at hfull
    cases ok with
    | true =>
      rcases h.note_success b now with hmore | ⟨-, hover⟩
      · exact ih hmore (by rw [hbudget]; push_cast; omega)
      · refine settled_left (row.note b (now, true)) results ?_
        split at hover
        · simp [hover.1]
        · simp [hover]
    | false =>
      rcases h.note_failure b now with hover | ⟨hmore, -⟩
      · exact settled_left (row.note b (now, false)) results (by simp [hover])
      · exact ih hmore (by rw [hbudget]; push_cast; omega)

theorem settled_success (h : row.circuit ≠ .halfOpen) (hne : results ≠ [])
    (hall : ∀ result ∈ results, result.2 = true) :
    (settled b row results).circuit = .closed ∧ (settled b row results).failureCount = 0 := by
  induction results generalizing row with
  | nil => exact absurd rfl hne
  | cons result results ih =>
    obtain ⟨now, ok⟩ := result
    obtain rfl : ok = true := hall _ List.mem_cons_self
    have hclosed := (note_noted b row now true).success h rfl
    cases results with
    | nil => exact hclosed
    | cons next results =>
      refine @ih (row.note b (now, true)) (by simp [hclosed.1]) (List.cons_ne_nil _ _) ?_
      exact fun result hresult => hall result (List.mem_cons_of_mem _ hresult)

/-- An open breaker stays open under failures. -/
theorem settled_open (row : CircuitBreakerState) (h : row.circuit = .open)
    (hall : ∀ result ∈ results, result.2 = false) :
    (settled b row results).circuit = .open := by
  induction results generalizing row with
  | nil => exact h
  | cons result results ih =>
    obtain ⟨now, ok⟩ := result
    obtain rfl : ok = false := hall _ List.mem_cons_self
    refine ih (row.note b (now, false)) ((note_noted b row now false).stays h rfl) ?_
    exact fun result hresult => hall result (List.mem_cons_of_mem _ hresult)

/-- Successes up to the quorum, and at it. -/
theorem Probing.settled_success (h : Probing row s f)
    (hall : ∀ result ∈ results, result.2 = true) :
    (s + results.length + f < row.quorum → Probing (settled b row results) (s + results.length) f) ∧
    (s + results.length + f = row.quorum → results ≠ [] →
      if row.halfOpenSuccessRate ≤ f64Ratio (s + results.length) row.quorum then
        (settled b row results).circuit = .closed ∧ (settled b row results).failureCount = 0
      else (settled b row results).circuit = .open) := by
  induction results generalizing row s with
  | nil => exact ⟨fun _ => h, fun _ hne => absurd rfl hne⟩
  | cons result results ih =>
    obtain ⟨now, ok⟩ := result
    obtain rfl : ok = true := hall _ List.mem_cons_self
    have hnoted := note_noted b row now true
    have hbudget : (row.note b (now, true)).quorum = row.quorum := by
      rw [quorum, hnoted.config.2.2.1, quorum]
    have hrate := hnoted.config.2.2.2
    have hrest := fun result hresult => hall result (List.mem_cons_of_mem _ hresult)
    rw [List.length_cons]
    rcases h.note_success b now with hmore | ⟨htotal, hover⟩
    · have hindex : s + 1 + results.length = s + (results.length + 1) := by omega
      obtain ⟨hshort, hfull⟩ := ih hmore hrest
      rw [hbudget, hindex] at hshort
      rw [hbudget, hrate] at hfull
      refine ⟨fun hlt => hshort (by push_cast at hlt ⊢; omega), fun heq _ => ?_⟩
      have hshape := hfull (by push_cast at heq ⊢; omega) fun hnil => ?_
      · have hcast : ((s + 1 : Nat) + results.length : Int) = (s + (results.length + 1 : Nat)) := by
          push_cast
          omega
        rwa [hcast] at hshape
      · subst hnil
        have := hmore.short
        rw [hbudget] at this
        push_cast at heq this
        simp only [List.length_nil] at heq
        omega
    · refine ⟨fun hlt => ?_, fun heq _ => ?_⟩
      · push_cast at hlt
        omega
      · obtain rfl : results = [] := by
          refine List.length_eq_zero_iff.mp ?_
          push_cast at heq
          omega
        simp only [List.length_nil, Nat.zero_add, Nat.cast_one]
        exact hover

theorem Probing.settled_failure (h : Probing row s f)
    (hall : ∀ result ∈ results, result.2 = false) :
    (settled b row results).circuit = .open ∨
      Probing (settled b row results) s (f + results.length) ∧ (results ≠ [] →
        row.halfOpenSuccessRate ≤ f64Ratio (row.quorum - (f + results.length)) row.quorum) := by
  induction results generalizing row f with
  | nil => exact .inr ⟨h, fun hne => absurd rfl hne⟩
  | cons result results ih =>
    obtain ⟨now, ok⟩ := result
    obtain rfl : ok = false := hall _ List.mem_cons_self
    have hnoted := note_noted b row now false
    have hbudget : (row.note b (now, false)).quorum = row.quorum := by
      rw [quorum, hnoted.config.2.2.1, quorum]
    have hrest : ∀ result ∈ results, result.2 = false := fun result hresult =>
      hall result (List.mem_cons_of_mem _ hresult)
    rcases h.note_failure b now with hopen | ⟨hmore, hbest⟩
    · exact .inl (settled_open (row.note b (now, false)) hopen hrest)
    · refine (ih hmore hrest).imp_right fun ⟨hprobing, hreach⟩ => ?_
      have hindex : f + 1 + results.length = f + (results.length + 1) := by omega
      rw [hindex] at hprobing
      refine ⟨hprobing, fun _ => ?_⟩
      cases results with
      | nil => simpa using hbest
      | cons next results =>
        have hreach := hreach (List.cons_ne_nil _ _)
        rw [hbudget, hnoted.config.2.2.2] at hreach
        have hcast : ((f + 1 : Nat) + (next :: results).length : Int) =
            f + ((next :: results).length + 1 : Nat) := by
          push_cast
          omega
        rwa [hcast] at hreach

theorem settled_untripped {j : Nat} (hclosed : row.circuit = .closed)
    (hcount : row.failureCount ≤ j)
    (hall : ∀ result ∈ results, result.2 = false)
    (hclock : (row.lastFailureAt.toList ++ results.map Prod.fst).Pairwise (· ≤ ·))
    (hfew : j + results.length < row.threshold ∨ row.windowMs < 0 ∧ 1 < row.threshold) :
    (settled b row results).circuit = .closed := by
  induction results generalizing row j with
  | nil => exact hclosed
  | cons result results ih =>
    obtain ⟨now, ok⟩ := result
    obtain rfl : ok = false := hall _ List.mem_cons_self
    have hnoted := note_noted b row now false
    obtain ⟨hnext, hcircuit⟩ := hnoted.counts hclosed rfl
    obtain ⟨hthreshold, hwindow, -⟩ := hnoted.config
    rw [List.length_cons] at hfew
    -- A window below zero is over at once, on a clock that does not go back.
    have hlow : row.nextCount now ≤ j + 1 ∧ (row.windowMs < 0 → row.nextCount now = 1) := by
      unfold nextCount
      split
      · next last hlast =>
        rw [hlast] at hclock
        have hle : last ≤ now := (List.pairwise_cons.mp hclock).1 now (by simp)
        unfold saturatingSub saturatingSucc
        split <;> omega
      · omega
    have hstays : (row.note b (now, false)).circuit = .closed := by
      rw [hcircuit, if_neg (by push_cast at hfew; omega)]
    refine @ih (row.note b (now, false)) (j + 1) hstays (by rw [hnext]; push_cast; exact hlow.1) ?_
      ?_ ?_
    · exact fun result hresult => hall result (List.mem_cons_of_mem _ hresult)
    · rw [hnoted.last]
      exact hclock.sublist (List.sublist_append_right _ _)
    · rw [hthreshold, hwindow]
      push_cast at hfew ⊢
      omega

theorem settled_tripped {j k : Nat} {t : Int} (hclosed : row.circuit = .closed)
    (hcount : row.failureCount = j) (hlast : j = 0 ∨ row.lastFailureAt = some t)
    (hwindow : 0 ≤ row.windowMs ∨ row.threshold ≤ 1) (hthreshold : row.threshold < 2 ^ 31)
    (hmany : row.threshold ≤ j + k) (hsome : 0 < k) :
    (settled b row (List.replicate k (t, false))).circuit = .open := by
  induction k generalizing row j with
  | zero => exact absurd hsome (lt_irrefl 0)
  | succ k ih =>
    have hnoted := note_noted b row t false
    obtain ⟨hnext, hcircuit⟩ := hnoted.counts hclosed rfl
    have hcount' : row.nextCount t = 1 ∧ (j = 0 ∨ row.threshold ≤ 1) ∨
        row.nextCount t = min ((j : Int) + 1) (2 ^ 31 - 1) := by
      unfold nextCount saturatingSucc saturatingSub
      rw [hcount]
      rcases hlast with rfl | hlast
      · split
        · split <;> omega
        · omega
      · simp only [hlast]
        split <;> omega
    rw [List.replicate_succ]
    by_cases htrip : row.nextCount t ≥ row.threshold
    · rw [if_pos htrip] at hcircuit
      exact settled_open (row.note b (t, false)) hcircuit fun result hresult => by
        rw [List.eq_of_mem_replicate hresult]
    · rw [if_neg htrip] at hcircuit
      obtain ⟨hsame, hsamewindow, -⟩ := hnoted.config
      refine @ih (row.note b (t, false)) (j + 1) hcircuit ?_ (.inr hnoted.last) ?_ ?_ ?_ ?_
      · rw [hnext]
        push_cast
        omega
      · rw [hsame, hsamewindow]
        exact hwindow
      · rw [hsame]
        exact hthreshold
      · rw [hsame]
        push_cast at hmany ⊢
        omega
      · push_cast at hmany
        omega

/-! ### The verdict -/

theorem exists_last_success (h : 0 < (results.map Prod.snd).count true) :
    ∃ first t rest, results = first ++ (t, true) :: rest ∧ ∀ result ∈ rest, result.2 = false := by
  induction results with
  | nil => cases h
  | cons result results ih =>
    by_cases hlater : 0 < (results.map Prod.snd).count true
    · obtain ⟨first, t, rest, rfl, hrest⟩ := ih hlater
      exact ⟨result :: first, t, rest, rfl, hrest⟩
    · obtain ⟨t, ok⟩ := result
      cases ok with
      | true =>
        refine ⟨[], t, results, rfl, fun result hresult => ?_⟩
        have hnot := List.count_eq_zero.mp (Nat.eq_zero_of_not_pos hlater)
        cases hok : result.2 with
        | false => rfl
        | true => exact absurd (List.mem_map.mpr ⟨result, hresult, hok⟩) hnot
      | false => exact absurd (by simpa using h) hlater

theorem Sample.length_eq (h : Sample row s f results) : results.length = s + f := by
  rw [← h.successes, ← h.failures, List.count_true_add_count_false, List.length_map]

/-- All results at the instant of the last failure. -/
theorem Sample.at_once (hs : (results.map Prod.snd).count true = s)
    (hf : (results.map Prod.snd).count false = f)
    (hall : ∀ result ∈ results, result.1 = row.lastFailureAt.getD 0) : Sample row s f results := by
  refine ⟨hs, hf, List.pairwise_of_forall_mem_list fun x hx y hy => ?_⟩
  have hone : ∀ z ∈ row.lastFailureAt.toList ++ results.map Prod.fst,
      z = row.lastFailureAt.getD 0 := by
    intro z hz
    rcases List.mem_append.mp hz with hz | hz
    · rw [Option.mem_toList] at hz
      rw [hz]
      rfl
    · obtain ⟨result, hresult, rfl⟩ := List.mem_map.mp hz
      exact hall result hresult
  rw [hone x hx, hone y hy]

theorem Sample.alike (ok : Bool) (h : Sample row s f results) (hnone : (if ok then f else s) = 0) :
    ∀ result ∈ results, result.2 = ok := by
  intro result hresult
  have hmem : result.2 ∈ results.map Prod.snd := List.mem_map_of_mem hresult
  cases ok with
  | true =>
    have hnot := List.count_eq_zero.mp (h.failures.trans hnone)
    exact Bool.eq_true_of_not_eq_false fun hf => hnot (hf ▸ hmem)
  | false =>
    have hnot := List.count_eq_zero.mp (h.successes.trans hnone)
    exact Bool.eq_false_of_not_eq_true fun ht => hnot (ht ▸ hmem)

theorem Probing.opens (h : Probing row s f) (hall : ∀ result ∈ results, result.2 = false)
    (hfull : row.quorum ≤ s + f + results.length) : (settled b row results).circuit = .open := by
  rcases h.settled_failure (b := b) hall with hopen | ⟨hmore, -⟩
  · exact hopen
  · have hshort := hmore.short
    rw [quorum, (settled_config b row results []).1.2.2.1, ← quorum] at hshort
    push_cast at hshort
    omega

section Verdict

variable (hnew : Probing row 0 0)
include hnew

theorem settled_successes (hall : ∀ result ∈ results, result.2 = true)
    (hfull : row.quorum ≤ results.length) :
    if row.quorum < results.length ∨
        row.halfOpenSuccessRate ≤ f64Ratio results.length results.length
      then (settled b row results).circuit = .closed ∧ (settled b row results).failureCount = 0
      else (settled b row results).circuit = .open := by
  have hpos : 1 ≤ row.quorum := le_max_right _ _
  obtain ⟨q, hq⟩ : ∃ q : Nat, row.quorum = q := ⟨row.quorum.toNat, by omega⟩
  have hlength : (results.take q).length = q := by
    rw [List.length_take]
    omega
  have hhead : ∀ result ∈ results.take q, result.2 = true := fun result hresult =>
    hall result (List.mem_of_mem_take hresult)
  have hfirst := (hnew.settled_success (b := b) hhead).2 (by rw [hlength]; omega) (by
      rw [← List.length_pos_iff]
      omega)
  rw [hlength] at hfirst
  by_cases hmore : row.quorum < results.length
  · rw [if_pos (.inl hmore), ← List.take_append_drop q results, settled_append]
    refine settled_success ?_ ?_ fun result hresult => hall result (List.mem_of_mem_drop hresult)
    · split at hfirst
      · simp [hfirst.1]
      · simp [hfirst]
    · rw [← List.length_pos_iff, List.length_drop]
      omega
  · have hall : results.take q = results := List.take_of_length_le (by omega)
    have hratio : f64Ratio ((0 : Nat) + (q : Nat)) row.quorum =
        f64Ratio results.length results.length := by
      rw [hq, show results.length = q by omega]
      simp
    rw [hall, hratio] at hfirst
    simpa only [hmore, false_or] using hfirst

/-- Failures first and successes after them close the breaker: what the
failures have not opened is closed by a rate they left within reach. -/
theorem settled_failures_first {t : Int} (hs : 0 < s) (hf : 0 < f) (hfull : row.quorum ≤ s + f) :
    (settled b row (List.replicate f (t, false) ++ List.replicate s (t, true))).circuit =
      .closed := by
  have hsome : ∀ n, 0 < n → List.replicate n (t, true) ≠ [] := fun n hn => by
    rw [← List.length_pos_iff, List.length_replicate]
    exact hn
  have htrue : ∀ n, ∀ result ∈ List.replicate n (t, true), result.2 = true := fun n result h => by
    rw [List.eq_of_mem_replicate h]
  rw [settled_append]
  have hfalse : ∀ result ∈ List.replicate f (t, false), result.2 = false := fun result h => by
    rw [List.eq_of_mem_replicate h]
  rcases hnew.settled_failure (b := b) hfalse with hopen | ⟨hmore, hreach⟩
  · exact (settled_success (by simp [hopen]) (hsome s hs) (htrue s)).1
  · have hreach := hreach (by rw [← List.length_pos_iff, List.length_replicate]; exact hf)
    obtain ⟨-, -, hprobes, hrate⟩ := (settled_config b row (List.replicate f (t, false)) []).1
    have hquorum : (settled b row (List.replicate f (t, false))).quorum = row.quorum := by
      rw [quorum, hprobes, quorum]
    have hshort := hmore.short
    rw [hquorum] at hshort
    simp only [List.length_replicate, Nat.cast_zero, zero_add] at hmore hreach hshort
    obtain ⟨k, hk⟩ : ∃ k : Nat, row.quorum = k + f := ⟨(row.quorum - f).toNat, by omega⟩
    have hdone := (hmore.settled_success (b := b) (htrue k)).2 (by
      rw [hquorum, List.length_replicate]
      omega) (hsome k (by omega))
    rw [hquorum, hrate, List.length_replicate, Nat.cast_zero, zero_add,
      show (k : Int) = row.quorum - f by omega, if_pos hreach] at hdone
    rw [show s = k + (s - k) by omega, List.replicate_add, settled_append]
    by_cases hrest : s - k = 0
    · rw [hrest]
      exact hdone.1
    · exact (settled_success (by simp [hdone.1]) (hsome _ (by omega)) (htrue _)).1

theorem settled_successes_first {t : Int} (hf : 0 < f) (hfull : row.quorum ≤ s + f)
    (hthreshold : row.threshold < 2 ^ 31) (hnot : ¬ row.Steady s f) :
    (settled b row (List.replicate s (t, true) ++ List.replicate f (t, false))).circuit =
      .open := by
  have hfalse : ∀ result ∈ List.replicate f (t, false), result.2 = false := fun result h => by
    rw [List.eq_of_mem_replicate h]
  have htrue : ∀ result ∈ List.replicate s (t, true), result.2 = true := fun result h => by
    rw [List.eq_of_mem_replicate h]
  obtain ⟨hsame, hwindow, hprobes, -⟩ := (settled_config b row (List.replicate s (t, true)) []).1
  rw [settled_append]
  by_cases hfew : (s : Int) < row.quorum
  · have hmore := (hnew.settled_success (b := b) htrue).1 (by
      rw [List.length_replicate]
      omega)
    rw [List.length_replicate, Nat.zero_add] at hmore
    refine hmore.opens hfalse ?_
    rw [quorum, hprobes, ← quorum, List.length_replicate]
    omega
  · have hdone := settled_successes (b := b) hnew htrue (by rw [List.length_replicate]; omega)
    rw [List.length_replicate] at hdone
    split at hdone
    · next hclose =>
      -- Closed again: the failures after it are enough to trip it.
      have htrip : row.threshold ≤ f ∧ (0 ≤ row.windowMs ∨ row.threshold ≤ 1) := by
        unfold Steady at hnot
        have hsteady : row.quorum < s ∨
            row.quorum = s ∧ row.halfOpenSuccessRate ≤ f64Ratio s s := by
          rcases hclose with hlt | hrate
          · exact .inl hlt
          · exact (lt_or_eq_of_le (not_lt.mp hfew)).imp_right fun heq => ⟨heq, hrate⟩
        have hrest : ¬ (f < row.threshold ∨ row.windowMs < 0 ∧ 1 < row.threshold) :=
          fun h => hnot (.inr (.inr ⟨hsteady, h⟩))
        omega
      refine settled_tripped hdone.1 (j := 0) hdone.2 (.inl rfl) ?_ ?_ ?_ hf
      · rw [hwindow, hsame]
        exact htrip.2
      · rw [hsame]
        exact hthreshold
      · rw [hsame]
        simpa using htrip.1
    · exact settled_open _ hdone hfalse

/-- A steady sample of both kinds closes the breaker, in any order. -/
theorem settled_steady (hs : 0 < s)
    (hclose : row.quorum < s ∨ row.quorum = s ∧ row.halfOpenSuccessRate ≤ f64Ratio s s)
    (hfew : f < row.threshold ∨ row.windowMs < 0 ∧ 1 < row.threshold)
    (hsample : Sample row s f results) : (settled b row results).circuit = .closed := by
  obtain ⟨first, t, rest, rfl, hrest⟩ := exists_last_success (hsample.successes.symm ▸ hs)
  obtain ⟨⟨hsame, hwindow, -⟩, hclock⟩ := settled_config b row (first ++ [(t, true)]) rest
  have hzero : (rest.map Prod.snd).count true = 0 := by
    refine List.count_eq_zero.mpr fun hmem => ?_
    obtain ⟨result, hresult, htrue⟩ := List.mem_map.mp hmem
    cases (hrest result hresult).symm.trans htrue
  have hsuccesses := hsample.successes
  have hfailures := hsample.failures
  rw [List.map_append, List.map_cons, List.count_append, List.count_cons_self, hzero] at hsuccesses
  rw [List.map_append, List.map_cons, List.count_append,
    List.count_cons_of_ne (by simp)] at hfailures
  have hlater := List.count_true_add_count_false (rest.map Prod.snd)
  rw [hzero, List.length_map] at hlater
  have hclosed : (settled b row (first ++ [(t, true)])).circuit = .closed ∧
      (settled b row (first ++ [(t, true)])).failureCount = 0 := by
    by_cases hover : row.quorum ≤ first.length
    · rw [settled_append]
      refine settled_success (hnew.settled_ends (by simpa using hover)) (List.cons_ne_nil _ _) ?_
      simp
    · -- The last success is inside the quorum: the sample begins with all of them.
      have hle := List.count_le_length (a := true) (l := first.map Prod.snd)
      rw [List.length_map] at hle
      have hall : ∀ result ∈ first ++ [(t, true)], result.2 = true := by
        have hcount : (first.map Prod.snd).count true = (first.map Prod.snd).length := by
          rw [List.length_map]
          omega
        intro result hresult
        rcases List.mem_append.mp hresult with hfirst | hlast
        · exact (List.count_eq_length.mp hcount _ (List.mem_map_of_mem hfirst)).symm
        · rw [List.mem_singleton.mp hlast]
      have hlength : (first ++ [(t, true)]).length = s := by
        rw [List.length_append, List.length_singleton]
        omega
      have hdone := settled_successes (b := b) hnew hall (by rw [hlength]; omega)
      rw [hlength, if_pos (hclose.imp_right And.right)] at hdone
      exact hdone
  rw [← List.singleton_append, ← List.append_assoc, settled_append]
  refine settled_untripped hclosed.1 (j := 0) (by simp [hclosed.2]) hrest ?_ ?_
  · refine hclock ?_
    rw [List.append_assoc]
    exact hsample.clock
  · rw [hsame, hwindow]
    refine hfew.imp_left fun h => ?_
    push_cast
    omega

end Verdict

/-- **When the verdict is a function of the sample**: exactly where the sample
is steady. -/
theorem verdict_of_sample (hhalf : row.circuit = .halfOpen)
    (hsuccess : row.halfOpenSuccessCount = 0)
    (hfailure : row.halfOpenFailureCount = 0) (hthreshold : row.threshold < 2 ^ 31)
    (hfull : row.quorum ≤ s + f) :
    (∀ xs ys, Sample row s f xs → Sample row s f ys →
      (settled b row xs).circuit = (settled b row ys).circuit ∧
        (settled b row xs).circuit ≠ .halfOpen) ↔ row.Steady s f := by
  have hnew : Probing row 0 0 :=
    ⟨hhalf, hsuccess, hfailure, lt_of_lt_of_le one_pos (le_max_right _ _)⟩
  constructor
  · intro hsame
    by_contra hnot
    obtain ⟨hs, hf⟩ : 0 < s ∧ 0 < f := by
      unfold Steady at hnot
      omega
    obtain ⟨heq, -⟩ := hsame
      (List.replicate f (row.lastFailureAt.getD 0, false) ++
        List.replicate s (row.lastFailureAt.getD 0, true))
      (List.replicate s (row.lastFailureAt.getD 0, true) ++
        List.replicate f (row.lastFailureAt.getD 0, false))
      (.at_once (by simp [List.count_replicate]) (by simp [List.count_replicate]) (by simp))
      (.at_once (by simp [List.count_replicate]) (by simp [List.count_replicate]) (by simp))
    rw [settled_failures_first hnew hs hf hfull,
      settled_successes_first hnew hf hfull hthreshold hnot] at heq
    cases heq
  · intro hsteady xs ys hxs hys
    have hends : (settled b row xs).circuit ≠ .halfOpen :=
      hnew.settled_ends (by rw [hxs.length_eq]; push_cast; omega)
    refine ⟨?_, hends⟩
    by_cases hs : s = 0
    · have hopens : ∀ {results}, Sample row s f results → (settled b row results).circuit = .open :=
        fun h => hnew.opens (h.alike false hs) (by rw [h.length_eq]; push_cast; omega)
      rw [hopens hxs, hopens hys]
    by_cases hf : f = 0
    · have hcloses : ∀ {results}, Sample row s f results → _ := fun {results} h =>
        settled_successes (b := b) hnew (h.alike true hf) (by
          rw [h.length_eq]
          push_cast
          omega)
      have hx := hcloses hxs
      have hy := hcloses hys
      rw [hxs.length_eq] at hx
      rw [hys.length_eq] at hy
      split at hx
      · next hc =>
        rw [if_pos hc] at hy
        rw [hx.1, hy.1]
      · next hc =>
        rw [if_neg hc] at hy
        rw [hx, hy]
    · obtain ⟨hclose, hfew⟩ := (hsteady.resolve_left hs).resolve_left hf
      rw [settled_steady hnew (Nat.pos_of_ne_zero hs) hclose hfew hxs,
        settled_steady hnew (Nat.pos_of_ne_zero hs) hclose hfew hys]

def probing : CircuitBreakerState := { Watch.registered.row with state := 2 }

theorem last_result_decides :
    (settled .sqlite probing [(0, false), (1, true)]).circuit = .closed ∧
      (settled .sqlite probing [(0, true), (1, false)]).circuit = .open := by
  decide +kernel

theorem three_outweigh_one :
    (settled .redis { probing with threshold := 2 } [(0, false), (1, true), (1, true),
      (2, true)]).circuit =
    (settled .redis { probing with threshold := 2 } [(0, true), (1, true), (1, true),
      (2, false)]).circuit :=
  ((@verdict_of_sample .redis { probing with threshold := 2 } 3 1 rfl rfl rfl (by decide)
    (by decide)).mpr (.inr (.inr ⟨.inl (by decide), .inl (by decide)⟩)) _ _
      ⟨rfl, rfl, by decide⟩ ⟨rfl, rfl, by decide⟩).1

end CircuitBreakerState

end FlexiQ.Resilience
