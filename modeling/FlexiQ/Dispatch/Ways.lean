/-
# `Dispatch.Ways` — taking apart the ways a round can go

One equation for each way the poller is put together: a `?`, a gate behind a
gate, a cap behind a cap.  What can come from outside (`ok`) is left open.
-/
import FlexiQ.Dispatch.Poller
import FlexiQ.Lib.Goes

namespace FlexiQ.Dispatch

open FlexiQ.Lib FlexiQ.Sql FlexiQ.Resilience

variable {cfg : Settings} {ok : Outside → Call → World → Prop}

theorem goes_okThen {α β : Type} {p : Code (Result α)}
    {f : α → Code (Result β)} {w w'' : World} {r : Result β}
    (h : (p.okThen f).Goes (perform cfg) ok w r w'') :
    ∃ x w', p.Goes (perform cfg) ok w x w' ∧
      ((∃ a, x = .ok a ∧ (f a).Goes (perform cfg) ok w' r w'') ∨
        ∃ e, x = .error e ∧ r = .error e ∧ w'' = w') := by
  obtain ⟨x, w', hp, hf⟩ := Prog.goes_bind.mp h
  refine ⟨x, w', hp, ?_⟩
  cases x with
  | ok a => exact .inl ⟨a, rfl, hf⟩
  | error e =>
    obtain ⟨hr, hw⟩ := hf
    exact .inr ⟨e, rfl, hr, hw⟩

theorem passes {α : Type} {a : α} {P : α → Prop} {R : QueueError → Prop}
    (h : (∃ a', (Except.ok a : Result α) = .ok a' ∧ P a') ∨
      ∃ e, (Except.ok a : Result α) = .error e ∧ R e) : P a := by
  obtain ⟨_, heq, h⟩ | ⟨e, he, -⟩ := h
  · cases heq
    exact h
  · cases he

theorem perform_query (out : Outside) (q : Query) (w : World) :
    (perform cfg out (.query q) w).2 = w ∨
      (perform cfg out (.query q) w).2 = (answer cfg out q w).2 := by
  cases hfault : out.fault with
  | some e => exact .inl (by simp only [perform, hfault])
  | none => exact .inr (by simp only [perform, hfault])

section

variable {q : Query} {w w' : World} {r : Result q.Answer}
  (h : (Code.ask q).Goes (perform cfg) ok w r w')
include h

theorem goes_ask : ∃ out, ok out (.query q) w ∧
      ((∃ e, out.fault = some e ∧ r = .error e ∧ w' = w) ∨
        (out.fault = none ∧ answer cfg out q w = (r, w'))) := by
  obtain ⟨out, hok, hout⟩ := Prog.goes_call.mp h
  refine ⟨out, hok, ?_⟩
  cases hfault : out.fault with
  | some e =>
    have hperform : perform cfg out (.query q) w = (.error e, w) := by
      simp only [perform, hfault]
    cases hperform.symm.trans hout
    exact .inl ⟨e, rfl, rfl, rfl⟩
  | none =>
    have hperform : perform cfg out (.query q) w = answer cfg out q w := by
      simp only [perform, hfault]
      rfl
    exact .inr ⟨rfl, hperform.symm.trans hout⟩

theorem goes_sure (hsure : ∀ out, ok out (.query q) w → out.fault = none) :
    ∃ out, ok out (.query q) w ∧ answer cfg out q w = (r, w') := by
  obtain ⟨out, hok, ⟨e, hfault, -⟩ | ⟨-, hans⟩⟩ := goes_ask h
  · cases hfault.symm.trans (hsure out hok)
  · exact ⟨out, hok, hans⟩

end

theorem goes_sure_okThen {q : Query} {β : Type} {f : q.Answer → Code (Result β)}
    {w w'' : World} {r : Result β}
    (h : ((Code.ask q).okThen f).Goes (perform cfg) ok w r w'')
    (hsure : ∀ out, ok out (.query q) w → out.fault = none)
    (hanswer : ∀ out, ∃ a w', answer cfg out q w = (.ok a, w')) :
    ∃ out a w', ok out (.query q) w ∧ answer cfg out q w = (.ok a, w') ∧
      (f a).Goes (perform cfg) ok w' r w'' := by
  obtain ⟨x, w', hp, hf⟩ := goes_okThen h
  obtain ⟨out, hok, hans⟩ := goes_sure hp hsure
  obtain ⟨a, w₁, ha⟩ := hanswer out
  rw [hans] at ha
  cases ha
  have hgoes := passes hf
  exact ⟨out, _, _, hok, hans, hgoes⟩

theorem thenGate_goes {gate next : Code (Result GateDecision)} {w w'' : World}
    {r : Result GateDecision}
    (h : (thenGate gate next).Goes (perform cfg) ok w r w'') :
    ∃ x w', gate.Goes (perform cfg) ok w x w' ∧
      ((x = .ok .proceed ∧ next.Goes (perform cfg) ok w' r w'') ∨
        (x ≠ .ok .proceed ∧ r = x ∧ w'' = w')) := by
  obtain ⟨x, w', hgate, hrest⟩ := goes_okThen h
  refine ⟨x, w', hgate, ?_⟩
  rcases hrest with ⟨d, rfl, hrest⟩ | ⟨e, rfl, hr, hw⟩
  · cases d with
    | proceed => exact .inl ⟨rfl, hrest⟩
    | defer | shed => exact .inr ⟨by simp, hrest.1, hrest.2⟩
  · exact .inr ⟨by simp, hr, hw⟩

theorem thenCap_goes {gate : Code (Counted Bool)} {next : GateCounts → Code (Counted Bool)}
    {w w'' : World} {r : Counted Bool} (h : (thenCap gate next).Goes (perform cfg) ok w r w'') :
    ∃ x w', gate.Goes (perform cfg) ok w x w' ∧
      ((x.1 = .ok true ∧ (next x.2).Goes (perform cfg) ok w' r w'') ∨
        (x.1 ≠ .ok true ∧ r = x ∧ w'' = w')) := by
  obtain ⟨⟨x, counts⟩, w', hgate, hrest⟩ := Prog.goes_bind.mp h
  refine ⟨(x, counts), w', hgate, ?_⟩
  rcases x with e | ⟨_ | _⟩
  · obtain ⟨rfl, rfl⟩ := hrest
    exact .inr ⟨by simp, rfl, rfl⟩
  · obtain ⟨rfl, rfl⟩ := hrest
    exact .inr ⟨by simp, rfl, rfl⟩
  · exact .inl ⟨rfl, hrest⟩

/-! ## The soft gates -/

/-- Calls of the soft gates: they leave everything but buckets and breakers
alone. -/
def Call.Gates : Call → Prop
  | .query (.tryAcquireToken ..) | .query (.getCircuitBreaker _)
  | .query (.upsertCircuitBreaker _) | .nowMillis => True
  | _ => False

def draw (cfg : Settings) (config : RateLimitConfig) (key : String) (now : Int)
    (buckets : Buckets) : Bool × Buckets :=
  cfg.backend.tryAcquireTokens buckets key 1 config.maxTokens config.refillRate now

def breakersAsked (cfg : Settings) (now : Int) (taskName : String) (breakers : Breakers) :
    Breakers :=
  match (breakers.find taskName).bind fun row => (row.allow now).2 with
  | none => breakers
  | some row => cfg.backend.upsertCircuitBreaker breakers row

section

variable {w w' : World} (hsure : ∀ out q w, (Call.query q).Gates → ok out (.query q) w →
  out.fault = none)

include hsure

theorem limitGate_goes {limit : Option RateLimitConfig} {key : String} {refused : GateDecision}
    {r : Result GateDecision}
    (h : (limitGate limit key refused).Goes (perform cfg) ok w r w') :
    (limit = none ∧ r = .ok .proceed ∧ w' = w) ∨
    ∃ config out c, limit = some config ∧ ok out c w ∧
      r = .ok (if (draw cfg config key out.now w.buckets).1 then .proceed else refused) ∧
      w' = { w with buckets := (draw cfg config key out.now w.buckets).2 } := by
  cases limit with
  | none =>
    obtain ⟨hr, hw⟩ := h
    exact .inl ⟨rfl, hr, hw⟩
  | some config =>
    obtain ⟨out, a, w₁, hok, hans, hf⟩ :=
      goes_sure_okThen h (fun _ => hsure _ _ _ trivial) fun _ => ⟨_, _, rfl⟩
    cases hans
    obtain ⟨hr, hw⟩ := hf
    exact .inr ⟨config, out, _, rfl, hok, hr, hw⟩

theorem allow_goes {taskName : String} {r : Result Bool}
    (h : (allow taskName).Goes (perform cfg) ok w r w') :
    (w.breakers.find taskName = none ∧ r = .ok true ∧ w' = w) ∨
    ∃ row out c, w.breakers.find taskName = some row ∧ ok out c w ∧
      r = .ok (row.allow out.now).1 ∧
      w' = { w with breakers := breakersAsked cfg out.now taskName w.breakers } := by
  obtain ⟨_, a, w₁, _, hans, hf⟩ :=
    goes_sure_okThen h (fun _ => hsure _ _ _ trivial) fun _ => ⟨_, _, rfl⟩
  cases hans
  cases hrow : w.breakers.find taskName with
  | none =>
    rw [hrow] at hf
    obtain ⟨hr, hw⟩ := hf
    exact .inl ⟨rfl, hr, hw⟩
  | some row =>
    rw [hrow] at hf
    obtain ⟨now, w₂, hask, hf⟩ := Prog.goes_bind.mp hf
    obtain ⟨out, hok, hout⟩ := Prog.goes_call.mp hask
    cases hout
    refine .inr ⟨row, out, _, rfl, hok, ?_⟩
    rw [breakersAsked, hrow, Option.bind_some]
    generalize row.allow out.now = verdict at hf ⊢
    obtain ⟨allowed, updated⟩ := verdict
    cases updated with
    | none => exact hf
    | some row' =>
      obtain ⟨_, _, w₂, _, hans, hr, hw⟩ :=
        goes_sure_okThen hf (fun _ => hsure _ _ _ trivial) fun _ => ⟨_, _, rfl⟩
      cases hans
      exact ⟨hr, hw⟩

end

/-! ## Programs by their calls -/

/-- Every call of the program is one of `Q`. -/
abbrev Issues {α : Type} (Q : Call → Prop) (p : Code α) : Prop := p.Sat Q fun _ => True

section

variable {Q : Call → Prop}

theorem issues_ask {q : Query} (hq : Q (.query q)) : Issues Q (Code.ask q) :=
  ⟨hq, fun _ => trivial⟩

theorem issues_bind {α β : Type} {p : Code α} {f : α → Code β} (hp : Issues Q p)
    (hf : ∀ a, Issues Q (f a)) : Issues Q (p >>= f) :=
  Prog.Sat.bind hp fun a _ => hf a

theorem issues_okThen {α β : Type} {p : Code (Result α)}
    {f : α → Code (Result β)} (hp : Issues Q p) (hf : ∀ a, Issues Q (f a)) :
    Issues Q (p.okThen f) := by
  refine issues_bind hp fun x => ?_
  cases x with
  | ok a => exact hf a
  | error e => exact trivial

theorem issues_capGate (cap known : Option Int) {load : Code (Result Int)}
    (hload : Issues Q load) (keep : Int → GateCounts) (counts : GateCounts) :
    Issues Q (capGate cap (cached known load keep counts) counts) := by
  cases cap with
  | none => exact trivial
  | some max =>
    refine issues_bind ?_ fun _ => trivial
    cases known with
    | some n => exact trivial
    | none =>
      refine issues_bind hload fun x => ?_
      cases x <;> exact trivial

theorem issues_thenCap {gate : Code (Counted Bool)} {next : GateCounts → Code (Counted Bool)}
    (hgate : Issues Q gate) (hnext : ∀ counts, Issues Q (next counts)) :
    Issues Q (thenCap gate next) := by
  refine issues_bind hgate fun x => ?_
  rcases x with ⟨e | ⟨_ | _⟩, counts⟩
  · exact trivial
  · exact trivial
  · exact hnext counts

theorem issues_checkPostClaimConcurrency (job : Job) (counts : GateCounts)
    (hquota : Q (.query (.quota job.namespace)))
    (hns : Q (.query (.countByNamespace job.namespace)))
    (hqueue : Q (.query (.runningByQueue job.queue)))
    (htask : Q (.query (.countRunningByTask job.taskName)))
    (hflight : Q (.taskInFlight job.taskName)) :
    Issues Q (checkPostClaimConcurrency cfg job counts) := by
  refine issues_thenCap (issues_bind (issues_ask hquota) fun x => ?_) fun counts =>
    issues_thenCap (issues_capGate _ _ (issues_ask hqueue) _ _) fun counts =>
      issues_thenCap (issues_capGate _ _ (issues_ask htask) _ _) fun counts => ?_
  · cases x with
    | error e => exact trivial
    | ok quota => exact issues_capGate _ _ (issues_ask hns) _ _
  · unfold bulkhead
    split
    · exact trivial
    · exact issues_bind ⟨hflight, fun _ => trivial⟩ fun _ => trivial

end

end FlexiQ.Dispatch
