/-
# `Lib.Prog` — programs over an interface of atomic calls

A client of a shared service is a tree: at a node it issues one call and
branches on the answer, at a leaf it returns.  `Prog C R α` is that tree for
calls `C` with answers `R c`; it is a monad, so a client is written in `do`
notation as the code it stands for is.
-/
import Mathlib.Logic.Basic

namespace FlexiQ.Lib

/-- A program that issues calls `c : C`, is answered with `R c`, and returns
an `α`. -/
inductive Prog (C : Type) (R : C → Type) (α : Type) where
  | ret (a : α) : Prog C R α
  | step (c : C) (k : R c → Prog C R α) : Prog C R α

namespace Prog

variable {C : Type} {R : C → Type} {α β W : Type}

def andThen : Prog C R α → (α → Prog C R β) → Prog C R β
  | .ret a, f => f a
  | .step c k, f => .step c fun r => (k r).andThen f

instance : Monad (Prog C R) where
  pure := .ret
  bind := andThen

def call (c : C) : Prog C R (R c) := .step c .ret

def run (exec : (c : C) → W → R c × W) : Prog C R α → W → α × W
  | .ret a, w => (a, w)
  | .step c k, w => run exec (k (exec c w).1) (exec c w).2

variable (exec : (c : C) → W → R c × W)

@[simp] theorem run_pure (a : α) (w : W) : run exec (pure a) w = (a, w) := rfl

@[simp] theorem run_bind (p : Prog C R α) (f : α → Prog C R β) (w : W) :
    run exec (p >>= f) w = run exec (f (run exec p w).1) (run exec p w).2 := by
  induction p generalizing w with
  | ret a => rfl
  | step c k ih => exact ih _ _

@[simp] theorem run_call (c : C) (w : W) : run exec (call c) w = exec c w := rfl

/-! ## A program's calls and its results -/

/-- Every call the program can issue meets `Q`, every result it can return
meets `P`, whatever the calls answer. -/
def Sat (Q : C → Prop) (P : α → Prop) : Prog C R α → Prop
  | .ret a => P a
  | .step c k => Q c ∧ ∀ r, (k r).Sat Q P

variable {Q : C → Prop} {P : α → Prop} {P' : β → Prop}

theorem Sat.pure {a : α} (h : P a) : (Pure.pure a : Prog C R α).Sat Q P := h

theorem Sat.call {c : C} (h : Q c) : (call c : Prog C R (R c)).Sat Q fun _ => True :=
  ⟨h, fun _ => trivial⟩

theorem Sat.bind {p : Prog C R α} {f : α → Prog C R β} (hp : p.Sat Q P)
    (hf : ∀ a, P a → (f a).Sat Q P') : (p >>= f).Sat Q P' := by
  induction p with
  | ret a => exact hf a hp
  | step c k ih => exact ⟨hp.1, fun r => ih r (hp.2 r)⟩

theorem Sat.ask {c : C} {f : R c → Prog C R β} (h : Q c) (hf : ∀ a, (f a).Sat Q P') :
    (Prog.call c >>= f).Sat Q P' := ⟨h, hf⟩

theorem Sat.mono {Q' : C → Prop} {P'' : α → Prop} {p : Prog C R α} (hp : p.Sat Q P)
    (hQ : ∀ c, Q c → Q' c) (hP : ∀ a, P a → P'' a) : p.Sat Q' P'' := by
  induction p with
  | ret a => exact hP a hp
  | step c k ih => exact ⟨hQ c hp.1, fun r => ih r (hp.2 r)⟩

theorem Sat.run_invariant {I : W → Prop} {p : Prog C R α} (hp : p.Sat Q P)
    (hcall : ∀ c w, Q c → I w → I (exec c w).2) {w : W} (hw : I w) : I (run exec p w).2 := by
  induction p generalizing w with
  | ret a => exact hw
  | step c k ih => exact ih _ (hp.2 _) (hcall c w hp.1 hw)

theorem Sat.run_result {p : Prog C R α} (hp : p.Sat Q P) (w : W) : P (run exec p w).1 := by
  induction p generalizing w with
  | ret a => exact hp
  | step c k ih => exact ih _ (hp.2 _) _

/-! ## Programs that can fail -/

variable {ε ε' : Type}

/-- Every call of a program that can fail meets `Q`. -/
def Only (Q : C → Prop) (x : ExceptT ε (Prog C R) α) : Prop := x.run.Sat Q fun _ => True

theorem Only.pure (a : α) : Only Q (Pure.pure a : ExceptT ε (Prog C R) α) := trivial

theorem Only.throw (e : ε) : Only Q (MonadExcept.throw e : ExceptT ε (Prog C R) α) := trivial

theorem Only.mk {p : Prog C R (Except ε α)} (h : p.Sat Q fun _ => True) : Only Q (ExceptT.mk p) := h

theorem Only.bind {x : ExceptT ε (Prog C R) α} {f : α → ExceptT ε (Prog C R) β}
    (hx : Only Q x) (hf : ∀ a, Only Q (f a)) : Only Q (x >>= f) := by
  have hstep : (x.run >>= ExceptT.bindCont f).Sat Q fun _ => True := by
    refine Sat.bind hx fun r _ => ?_
    cases r with
    | ok a => exact hf a
    | error e => exact trivial
  exact hstep

theorem Only.lift {p : Prog C R α} (h : p.Sat Q fun _ => True) :
    Only Q (ExceptT.lift p : ExceptT ε (Prog C R) α) := by
  have hstep : (p >>= fun a => Pure.pure (Except.ok a)).Sat Q
      (fun _ : Except ε α => True) := Sat.bind h fun _ _ => trivial
  exact hstep

theorem Only.adapt {x : ExceptT ε (Prog C R) α} {f : ε → ε'} (h : Only Q x) :
    Only Q (ExceptT.adapt f x) := by
  have hstep : (x.run >>= fun r => Pure.pure (r.mapError f)).Sat Q
      (fun _ : Except ε' α => True) := Sat.bind h fun _ _ => trivial
  exact hstep

end Prog

end FlexiQ.Lib
