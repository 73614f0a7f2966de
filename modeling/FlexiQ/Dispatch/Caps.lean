/-
# `Dispatch.Caps` — what the caps decide

A cap stands over the running jobs of a namespace, a queue or a task
(`CapKey`).  A round reads each running count once and adjusts it as it puts
jobs back; the caps decide by the counts the round sees (`Decides`).
-/
import FlexiQ.Dispatch.Ways
import FlexiQ.Sql.Ready

namespace FlexiQ.Dispatch

open List FlexiQ.Lib FlexiQ.Sql FlexiQ.Resilience FlexiQ.Quota

/-! ## The caps of a job -/

inductive CapKey
  | ofNamespace (ns : Scope)
  | ofQueue (queue : String)
  | ofTask (taskName : String)
  deriving DecidableEq, Repr

/-- The caps over a job, in the order they are asked. -/
def capKeys (job : Job) : List CapKey :=
  [.ofNamespace job.namespace, .ofQueue job.queue, .ofTask job.taskName]

namespace CapKey

variable (cfg : Settings)

def cap : CapKey → Option Int
  | .ofNamespace ns => ((cfg.quotas ns).toOption.bind id).bind NamespaceQuota.maxRunning
  | .ofQueue queue => (cfg.queueConfigs queue).bind QueueConfig.maxConcurrent
  | .ofTask taskName => (cfg.taskConfigs taskName).bind TaskConfig.maxConcurrent

def running (s : Store) : CapKey → Int
  | .ofNamespace ns => countByNamespace s ns .running
  | .ofQueue queue => runningByQueue s queue cfg.namespace
  | .ofTask taskName => countRunningByTask s taskName cfg.namespace

end CapKey

/-! ## How a count moves -/

variable {cfg : Settings} {s s' : Store} {job row : Job}

theorem countJobs_rewrites {row' : Job} (p : Job → Bool) (h : Rewrites s s' row.id row')
    (hrow : s.jobs.find row.id = some row) :
    countJobs s' p + [row].countP p = countJobs s p + [row'].countP p := by
  have hcount := Table.countP_replace p h.jobs hrow
  unfold countJobs
  rw [← countP_eq_length_filter, ← countP_eq_length_filter]
  exact_mod_cast hcount

/-! ## The cache -/

def GateCounts.known (counts : GateCounts) : CapKey → Option Int
  | .ofNamespace ns => counts.namespaceRunning ns
  | .ofQueue queue => counts.queueRunning queue
  | .ofTask taskName => counts.taskRunning taskName

/-- The count a round goes by: the one it has, or the one it would load. -/
def GateCounts.seen (cfg : Settings) (w : World) (counts : GateCounts) (κ : CapKey) : Int :=
  (counts.known κ).getD (κ.running cfg w.store)

/-! ## The decision -/

section

variable {ok : Outside → Call → World → Prop}

/-- A gate answers by the counts the round sees, and does not change them. -/
def Decides (cfg : Settings) (ok : Outside → Call → World → Prop)
    (gate : GateCounts → Code (Counted Bool)) (verdict : World → (CapKey → Int) → Bool) : Prop :=
  ∀ counts w r w', (gate counts).Goes (perform cfg) ok w r w' →
    r.1 = .ok (verdict w (counts.seen cfg w)) ∧ r.2.seen cfg w = counts.seen cfg w ∧ w' = w

theorem goes_read {q : Query} {w w' : World} {n : q.Answer} {x : Result q.Answer}
    (hok : ∀ out c w, ok out c w → out.fault = none)
    (hread : ∀ out, answer cfg out q w = (.ok n, w))
    (h : (Code.ask q).Goes (perform cfg) ok w x w') : x = .ok n ∧ w' = w := by
  obtain ⟨out, -, hans⟩ := goes_sure h fun _ => hok _ _ _
  rw [hread out] at hans
  cases hans
  exact ⟨rfl, rfl⟩

theorem decides_capGate (κ : CapKey) {load : Code (Result Int)}
    {keep : GateCounts → Int → GateCounts}
    (hload : ∀ w x v, load.Goes (perform cfg) ok w x v →
      x = .ok (κ.running cfg w.store) ∧ v = w)
    (hkeep : ∀ counts n κ', (keep counts n).known κ' =
        if κ' = κ then some n else counts.known κ' := by
      intro _ _ κ'
      cases κ' <;> simp [GateCounts.known, Function.update_apply]) :
    Decides cfg ok
      (fun counts => capGate (κ.cap cfg) (cached (counts.known κ) load (keep counts) counts) counts)
      fun _ see => (κ.cap cfg).all fun max => see κ ≤ max := by
  intro counts w r w' h
  dsimp only at h ⊢
  cases hcap : κ.cap cfg with
  | none =>
    rw [hcap] at h
    obtain ⟨rfl, rfl⟩ := h
    exact ⟨rfl, rfl, rfl⟩
  | some max =>
    rw [hcap] at h
    obtain ⟨⟨n, counts'⟩, w₁, hcount, rfl, rfl⟩ := Prog.goes_bind.mp h
    have hsee : counts.seen cfg w κ = (counts.known κ).getD (κ.running cfg w.store) := rfl
    cases hknown : counts.known κ with
    | some n' =>
      rw [hknown] at hcount hsee
      obtain ⟨heq, rfl⟩ := hcount
      cases heq
      rw [hsee]
      exact ⟨rfl, rfl, rfl⟩
    | none =>
      rw [hknown] at hcount hsee
      obtain ⟨x, w₂, hx, hlast⟩ := Prog.goes_bind.mp hcount
      obtain ⟨rfl, rfl⟩ := hload _ x w₂ hx
      obtain ⟨heq, rfl⟩ := hlast
      cases heq
      rw [hsee]
      refine ⟨rfl, funext fun κ' => ?_, rfl⟩
      rw [GateCounts.seen, hkeep]
      split
      · next heq =>
        rw [heq, hsee]
        rfl
      · rfl

theorem decides_thenCap {gate next : GateCounts → Code (Counted Bool)}
    {b b' : World → (CapKey → Int) → Bool} (hgate : Decides cfg ok gate b)
    (hnext : Decides cfg ok next b') :
    Decides cfg ok (fun counts => thenCap (gate counts) next) fun w see => b w see && b' w see := by
  intro counts w r w' h
  obtain ⟨x, w₁, hx, hrest⟩ := thenCap_goes h
  obtain ⟨hb, hseen, rfl⟩ := hgate counts w x w₁ hx
  dsimp only
  rw [hb] at hrest
  rcases hrest with ⟨htrue, hrest⟩ | ⟨hfalse, rfl, rfl⟩
  · obtain ⟨hb', hseen', rfl⟩ := hnext x.2 w₁ r w' hrest
    rw [Except.ok.inj htrue, Bool.true_and, ← hseen]
    exact ⟨hb', hseen', rfl⟩
  · have hno := Bool.eq_false_of_not_eq_true fun ht => hfalse (congrArg Except.ok ht)
    rw [hb, hno, Bool.false_and]
    exact ⟨rfl, hseen, rfl⟩

theorem decides_namespaceCap (hok : ∀ out c w, ok out c w → out.fault = none)
    (hquota : ∃ q, cfg.quotas job.namespace = .ok q) :
    Decides cfg ok (namespaceCap job) fun _ see =>
      (CapKey.cap cfg (.ofNamespace job.namespace)).all fun max =>
        see (.ofNamespace job.namespace) ≤ max := by
  obtain ⟨q, hq⟩ := hquota
  intro counts w r w' h
  obtain ⟨y, w₂, hask, hcap⟩ := Prog.goes_bind.mp h
  have hread : ∀ out, answer cfg out (.quota job.namespace) w = (.ok q, w) :=
    fun _ => congrArg (fun q => (q, w)) hq
  obtain ⟨rfl, rfl⟩ := goes_read hok hread hask
  have hmax : CapKey.cap cfg (.ofNamespace job.namespace) = q.bind NamespaceQuota.maxRunning := by
    rw [CapKey.cap, hq]
    rfl
  have hgate : Decides cfg ok (fun counts => capGate (CapKey.cap cfg (.ofNamespace job.namespace))
      (cachedNamespaceRunning counts job.namespace) counts) _ :=
    decides_capGate (.ofNamespace job.namespace) fun _ _ _ => goes_read hok fun _ => rfl
  refine hgate counts w₂ r w' ?_
  rw [hmax]
  exact hcap

theorem decides_bulkhead (job : Job) : Decides cfg ok (bulkhead cfg job) fun w _ =>
    ((cfg.taskConfigs job.taskName).bind TaskConfig.maxInFlightPerTask).all fun max =>
      w.inFlight.countFor job.taskName < max := by
  intro counts w r w' h
  rw [bulkhead] at h
  cases hmax : (cfg.taskConfigs job.taskName).bind TaskConfig.maxInFlightPerTask with
  | none =>
    rw [hmax] at h
    obtain ⟨rfl, rfl⟩ := h
    exact ⟨rfl, rfl, rfl⟩
  | some max =>
    rw [hmax] at h
    obtain ⟨out, -, rfl, rfl⟩ := h
    exact ⟨rfl, rfl, rfl⟩

/-- **The caps decide by the counts.** -/
theorem decides_checkPostClaimConcurrency (hok : ∀ out c w, ok out c w → out.fault = none)
    (hquota : ∃ q, cfg.quotas job.namespace = .ok q) :
    Decides cfg ok (checkPostClaimConcurrency cfg job) fun w see =>
      ((capKeys job).all fun κ => (κ.cap cfg).all fun max => see κ ≤ max) &&
        ((cfg.taskConfigs job.taskName).bind TaskConfig.maxInFlightPerTask).all fun max =>
          w.inFlight.countFor job.taskName < max := by
  have hall : ∀ see : CapKey → Int, ((capKeys job).all fun κ => (κ.cap cfg).all fun max =>
      see κ ≤ max) = _ := fun _ => by rw [capKeys, all_cons, all_cons, all_cons,
        all_nil, Bool.and_true]
  simp only [hall, Bool.and_assoc]
  exact decides_thenCap (decides_namespaceCap hok hquota) (decides_thenCap
    (decides_capGate (.ofQueue job.queue) fun _ _ _ => goes_read hok fun _ => rfl)
    (decides_thenCap
      (decides_capGate (.ofTask job.taskName) fun _ _ _ => goes_read hok fun _ => rfl)
      (decides_bulkhead job)))

end

end FlexiQ.Dispatch
