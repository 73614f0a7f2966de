/-
# `Lib.Solo` — one client at a time

A pool (`Lib.Pool`) in which a client only arrives when the one before it has
returned.  The calls of the client at work still have gaps between them, in
which the world moves by itself; they are not interleaved with the calls of
another client, so what a program knows of the world it keeps, up to what the
world does by itself (`Guard.env`).

`p.Keeps exec g P w` is the weakest precondition of a program run that way:
every call it issues owes `g.owes`, given `g.grants`, and it returns with `P`.
-/
import FlexiQ.Lib.Pool

namespace FlexiQ.Lib

open List

variable {L E C W α β ε : Type} {R : C → Type}

/-- What the world may do between two calls, what a call may count on, and
what it owes. -/
structure Guard (C W : Type) where
  env : W → W → Prop
  grants : W → C → Prop
  owes : W → C → Prop

def Guard.alone (exec : (c : C) → W → R c × W) (fine : (c : C) → R c → Prop) : Guard C W where
  env w w' := w' = w
  grants w c := fine c (exec c w).1
  owes _ _ := True

namespace Prog

variable {exec : (c : C) → W → R c × W} {g : Guard C W} {w : W} {p : Prog C R α} {P : α → W → Prop}

/-- Run with only the world in between, every call delivers what it owes, and
the program returns with `P`. -/
def Keeps (exec : (c : C) → W → R c × W) (g : Guard C W) : Prog C R α → (α → W → Prop) → W → Prop
  | .ret a, P, w => P a w
  | .step c k, P, w => ∀ w', g.env w w' → g.grants w' c →
      g.owes w' c ∧ (k (exec c w').1).Keeps exec g P (exec c w').2

theorem Keeps.call {c : C} {P : R c → W → Prop}
    (h : ∀ w', g.env w w' → g.grants w' c → g.owes w' c ∧ P (exec c w').1 (exec c w').2) :
    (Prog.call c : Prog C R (R c)).Keeps exec g P w := h

theorem Keeps.bind {f : α → Prog C R β} {P : β → W → Prop}
    (h : p.Keeps exec g (fun a w' => (f a).Keeps exec g P w') w) : (p >>= f).Keeps exec g P w := by
  induction p generalizing w with
  | ret a => exact h
  | step c k ih =>
    intro w' henv hgrant
    obtain ⟨howes, hk⟩ := h w' henv hgrant
    exact ⟨howes, ih _ hk⟩

theorem Keeps.mono {P' : α → W → Prop} (h : p.Keeps exec g P w) (hP : ∀ a w, P a w → P' a w) :
    p.Keeps exec g P' w := by
  induction p generalizing w with
  | ret a => exact hP a w h
  | step c k ih =>
    intro w' henv hgrant
    obtain ⟨howes, hk⟩ := h w' henv hgrant
    exact ⟨howes, ih _ hk⟩

theorem Keeps.later {w' : W} (htrans : ∀ {w w' w''}, g.env w w' → g.env w' w'' → g.env w w'')
    (hP : ∀ a, P a w → P a w') (h : p.Keeps exec g P w) (henv : g.env w w') :
    p.Keeps exec g P w' := by
  cases p with
  | ret a => exact hP a h
  | step c k => exact fun w'' hlater hgrant => h w'' (htrans henv hlater) hgrant

theorem Keeps.idle {I : W → Prop} (h : p.Keeps exec g (fun _ w => I w) w) (hidle : p.head = none) :
    I w := by
  cases p with
  | ret a => exact h
  | step c k => cases hidle

/-! ### Programs that can fail -/

/-- What a step that can fail leads to. -/
def onOk (P : Except ε β → W → Prop) (next : α → W → Prop) : Except ε α → W → Prop
  | .ok a, w => next a w
  | .error e, w => P (.error e) w

theorem Keeps.tryBind {x : ExceptT ε (Prog C R) α} {f : α → ExceptT ε (Prog C R) β}
    {P : Except ε β → W → Prop}
    (h : x.run.Keeps exec g (onOk P fun a w' => (f a).run.Keeps exec g P w') w) :
    (x >>= f).run.Keeps exec g P w := by
  have hstep : (x.run >>= ExceptT.bindCont f).Keeps exec g P w := by
    refine Keeps.bind (h.mono fun r w' hr => ?_)
    cases r with
    | ok a => exact hr
    | error e => exact hr
  exact hstep

theorem Keeps.lift {P : Except ε α → W → Prop} (h : p.Keeps exec g (fun a w' => P (.ok a) w') w) :
    (ExceptT.lift p : ExceptT ε (Prog C R) α).run.Keeps exec g P w := by
  have hstep : (p >>= fun a => Pure.pure (Except.ok a)).Keeps exec g P w := Keeps.bind h
  exact hstep

theorem Keeps.adapt {ε' : Type} {x : ExceptT ε (Prog C R) α} {f : ε → ε'}
    {P : Except ε' α → W → Prop} (h : x.run.Keeps exec g (fun r w' => P (r.mapError f) w') w) :
    (ExceptT.adapt f x).run.Keeps exec g P w := by
  have hstep : (x.run >>= fun r => Pure.pure (r.mapError f)).Keeps exec g P w := Keeps.bind h
  exact hstep

theorem Sat.keeps {Q : C → Prop} {P : α → Prop} {J : W → Prop} (hp : p.Sat Q P)
    (hcall : ∀ c w, Q c → J w → g.grants w c → g.owes w c ∧ J (exec c w).2)
    (henv : ∀ w w', J w → g.env w w' → J w') (hw : J w) :
    p.Keeps exec g (fun a w' => P a ∧ J w') w := by
  induction p generalizing w with
  | ret a => exact ⟨hp, hw⟩
  | step c k ih =>
    intro w' hmove hgrant
    obtain ⟨howes, hJ⟩ := hcall c w' hp.1 (henv w w' hw hmove) hgrant
    exact ⟨howes, ih _ (hp.2 _) hJ⟩

/-! ### Alone -/

/-- Run alone, every call is answered as `fine` has it. -/
def Smooth (exec : (c : C) → W → R c × W) (fine : (c : C) → R c → Prop) : Prog C R α → W → Prop
  | .ret _, _ => True
  | .step c k, w => fine c (exec c w).1 ∧ (k (exec c w).1).Smooth exec fine (exec c w).2

instance Smooth.decidable {fine : (c : C) → R c → Prop} [∀ c a, Decidable (fine c a)] :
    ∀ (p : Prog C R α) (w : W), Decidable (p.Smooth exec fine w)
  | .ret _, _ => isTrue trivial
  | .step c k, w =>
    have : Decidable ((k (exec c w).1).Smooth exec fine (exec c w).2) := Smooth.decidable _ _
    inferInstanceAs (Decidable (_ ∧ _))

theorem Smooth.trivial {fine : (c : C) → R c → Prop} (hfine : ∀ c a, fine c a)
    (p : Prog C R α) (w : W) : p.Smooth exec fine w := by
  induction p generalizing w with
  | ret a => exact True.intro
  | step c k ih => exact ⟨hfine _ _, ih _ _⟩

theorem Keeps.alone {fine : (c : C) → R c → Prop} (h : p.Keeps exec (Guard.alone exec fine) P w)
    (hs : p.Smooth exec fine w) : P (p.run exec w).1 (p.run exec w).2 := by
  induction p generalizing w with
  | ret a => exact h
  | step c k ih => exact ih _ (h w rfl hs.1).2 hs.2

end Prog

/-! ## The rule -/

/-- A turn on the given terms; a client arrives only when nobody is part way
through. -/
def Pool.Orderly (terms : Terms L E C W) (p : Pool C R α W) (t : Turn L E) : Prop :=
  terms.Met p t ∧ ∀ l, t = .arrive l → p.Quiet

instance (terms : Terms L E C W) (p : Pool C R α W) (t : Turn L E) [Decidable (terms.Met p t)]
    [DecidableEq C] : Decidable (p.Orderly terms t) :=
  decidable_of_iff (terms.Met p t ∧ ∀ l ∈ t.arrival, p.Quiet)
    (and_congr_right fun _ => by simp only [Turn.mem_arrival])

/-- Every client that arrives, while `I` holds, keeps the guard and `I`. -/
structure Guard.Held (sys : Service L E C R α W) (terms : Terms L E C W) (I : W → Prop)
    (g : Guard C W) : Prop where
  refl : ∀ w, g.env w w
  trans : ∀ {w w' w''}, g.env w w' → g.env w' w'' → g.env w w''
  stable : ∀ {w w'}, g.env w w' → I w → I w'
  arrive : ∀ {w l prog w'}, I w → terms.arrive w l → sys.arrive l w = some (prog, w') →
    prog.Keeps sys.exec g (fun _ w => I w) w'
  call : ∀ {w c}, terms.call w c → g.grants w c
  drift : ∀ {w e}, terms.drift w e → g.env w (sys.drift e w)

/-- Nobody but one client is at work, and it keeps the guard. -/
structure Pool.Solo (sys : Service L E C R α W) (g : Guard C W) (I : W → Prop)
    (p : Pool C R α W) : Prop where
  alone : ∀ i j, p.head i ≠ none → p.head j ≠ none → i = j
  clients : ∀ prog ∈ p.clients, prog.head ≠ none → prog.Keeps sys.exec g (fun _ w => I w) p.world
  quiet : p.Quiet → I p.world

section Rule

variable {sys : Service L E C R α W} {terms : Terms L E C W} {g : Guard C W} {I : W → Prop}
  {p p' : Pool C R α W}

theorem Pool.head_set {p : Pool C R α W} {i j : Nat} {prog : Prog C R α} {w : W}
    (hi : i < p.clients.length) :
    (Pool.mk w (p.clients.set i prog)).head j = if i = j then prog.head else p.head j := by
  unfold Pool.head
  rw [List.getElem?_set]
  split
  · next heq =>
    subst heq
    simp
  · rfl

theorem Pool.head_concat {p : Pool C R α W} {i : Nat} {prog : Prog C R α} {w : W} :
    (Pool.mk w (p.clients ++ [prog])).head i =
      if i = p.clients.length then prog.head else p.head i := by
  unfold Pool.head
  grind

theorem Pool.Quiet.head (h : p.Quiet) (i : Nat) : p.head i = none := by
  unfold Pool.head
  cases hi : p.clients[i]? with
  | none => rfl
  | some prog => exact h prog (mem_of_getElem? hi)

theorem Guard.Held.next (h : g.Held sys terms I) (hp : p.Solo sys g I) {t : Turn L E}
    (hok : p.Orderly terms t) (hnext : p.next sys t = some p') : p'.Solo sys g I := by
  cases t with
  | arrive l =>
    obtain ⟨⟨prog, w'⟩, harr, rfl⟩ := Option.map_eq_some_iff.mp hnext
    have hquiet := hok.2 l rfl
    have hprog := h.arrive (hp.quiet hquiet) hok.1 harr
    have hhead : ∀ i, (Pool.mk w' (p.clients ++ [prog])).head i ≠ none →
        i = p.clients.length := by
      intro i hi
      by_contra hne
      rw [Pool.head_concat, if_neg hne] at hi
      exact hi (hquiet.head i)
    refine ⟨fun i j hi hj => (hhead i hi).trans (hhead j hj).symm, ?_, ?_⟩
    · intro q hq hne
      rcases mem_append.mp hq with hq | hq
      · exact absurd (hquiet q hq) hne
      · obtain rfl := mem_singleton.mp hq
        exact hprog
    · exact fun hnone => hprog.idle (hnone prog (mem_append_right _ mem_cons_self))
  | step i =>
    obtain ⟨c, k, hi, hact, rfl⟩ := Pool.next_step hnext
    have hlt : i < p.clients.length := (List.getElem?_eq_some_iff.mp hi).1
    have hactive : p.head i ≠ none := by
      rw [hact]
      exact Option.some_ne_none c
    have hkeeps := (hp.clients _ (mem_of_getElem? hi) (Option.some_ne_none c)) p.world
      (h.refl _) (h.call (hok.1 c hact))
    have hothers : ∀ j, j ≠ i → p.head j = none := by
      intro j hj
      by_contra hne
      exact hj (hp.alone j i hne hactive)
    have hhead : ∀ j, (Pool.mk (sys.exec c p.world).2
        (p.clients.set i (k (sys.exec c p.world).1))).head j ≠ none → j = i := by
      intro j hj
      by_contra hne
      rw [Pool.head_set hlt, if_neg (fun heq => hne heq.symm)] at hj
      exact hj (hothers j hne)
    have hmem : ∀ q ∈ p.clients.set i (k (sys.exec c p.world).1),
        q = k (sys.exec c p.world).1 ∨ q.head = none := by
      intro q hq
      obtain ⟨j, hj⟩ := List.getElem?_of_mem hq
      rcases getElem?_set_cases hj with ⟨-, rfl⟩ | ⟨hne, hj⟩
      · exact Or.inl rfl
      · have hnone := hothers j hne
        rw [Pool.head, hj] at hnone
        exact Or.inr hnone
    refine ⟨fun i' j' hi' hj' => (hhead i' hi').trans (hhead j' hj').symm, ?_, ?_⟩
    · intro q hq hne
      rcases hmem q hq with rfl | hnone
      · exact hkeeps.2
      · exact absurd hnone hne
    · exact fun hquiet => hkeeps.2.idle (hquiet _
        (mem_iff_getElem.mpr ⟨i, by rwa [length_set], getElem_set_self _⟩))
  | drift e =>
    cases hnext
    have henv := h.drift hok.1
    refine ⟨hp.alone, fun q hq hne => ?_, fun hquiet => h.stable henv (hp.quiet hquiet)⟩
    exact (hp.clients q hq hne).later h.trans (fun _ hI => h.stable henv hI) henv

/-- **The rule.**  Wherever orderly turns lead, one client at most is at work,
and it keeps the guard. -/
theorem Guard.Held.sound (h : g.Held sys terms I) (hp : p.Solo sys g I)
    (hr : Reaches (Pool.next sys) (Pool.Orderly terms) p p') : p'.Solo sys g I :=
  hr.invariant hp fun _ _ _ hI hok hnext => h.next hI hok hnext

theorem Pool.solo_start {w : W} (hI : I w) : (Pool.mk w [] : Pool C R α W).Solo sys g I :=
  ⟨fun i j hi _ => absurd (by simp [Pool.head]) hi, fun q hq => absurd hq not_mem_nil,
    fun _ => hI⟩

theorem Guard.Held.owed (h : g.Held sys terms I) (hp : p.Solo sys g I) {i : Nat} {c : C}
    (hok : p.Orderly terms (.step i)) (hi : p.head i = some c) : g.owes p.world c := by
  obtain ⟨prog, hprog, hhead⟩ := Option.bind_eq_some_iff.mp hi
  cases prog with
  | ret a => cases hhead
  | step c₀ k =>
    obtain rfl : c₀ = c := Option.some.inj hhead
    exact (hp.clients _ (mem_of_getElem? hprog) (Option.some_ne_none c₀) p.world (h.refl _)
      (h.call (hok.1 c₀ hi))).1

end Rule

end FlexiQ.Lib
