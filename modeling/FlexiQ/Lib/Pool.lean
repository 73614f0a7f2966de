/-
# `Lib.Pool` — clients of one service, interleaved

A service answers atomic calls on a shared world.  Its clients are programs
(`Lib.Prog`) that have issued some of their calls and not yet the others; a
TURN is one client's next call, a new client, or something the world does by
itself.  Every interleaving of any number of clients is a sequence of turns.

A client decides from answers that may be out of date by the time its next
call is executed.  Whether that matters is a question about single calls, so
the rule `Upholds.sound` asks for nothing else: an invariant of the world,
what is known of each call still to come, and one obligation per kind of turn.
-/
import FlexiQ.Lib.Prog
import FlexiQ.Lib.Runs
import Mathlib.Data.List.Basic

namespace FlexiQ.Lib

variable {L E C W G α : Type} {R : C → Type}

theorem getElem?_concat_cases {xs : List α} {x y : α} {i : Nat} :
    (xs ++ [x])[i]? = some y ↔ xs[i]? = some y ∨ i = xs.length ∧ y = x := by
  rcases Nat.lt_trichotomy i xs.length with hlt | rfl | hgt
  · rw [List.getElem?_append_left hlt]
    exact ⟨Or.inl, fun h => h.resolve_right fun hi => absurd hi.1 (Nat.ne_of_lt hlt)⟩
  · simp [eq_comm]
  · rw [List.getElem?_eq_none (by simpa [Nat.succ_le_iff] using hgt),
      List.getElem?_eq_none (Nat.le_of_lt hgt)]
    simp [Nat.ne_of_gt hgt]

theorem getElem?_set_cases {xs : List α} {x y : α} {i j : Nat} (hj : (xs.set i x)[j]? = some y) :
    j = i ∧ y = x ∨ j ≠ i ∧ xs[j]? = some y := by
  rw [List.getElem?_set] at hj
  split at hj
  · next heq =>
    subst heq
    split at hj
    · exact Or.inl ⟨rfl, (Option.some.inj hj).symm⟩
    · cases hj
  · next hne => exact Or.inr ⟨fun heq => hne heq.symm, hj⟩

/-- Which program a new client runs, what a call does, and what the world
does by itself. -/
structure Service (L E C : Type) (R : C → Type) (α W : Type) where
  arrive : L → W → Option (Prog C R α × W)
  exec : (c : C) → W → R c × W
  drift : E → W → W

/-- The world, and the clients that are part way through. -/
structure Pool (C : Type) (R : C → Type) (α W : Type) where
  world : W
  clients : List (Prog C R α)

inductive Turn (L E : Type)
  | arrive (l : L)
  | step (i : Nat)
  | drift (e : E)
  deriving DecidableEq, Repr

def Turn.arrival : Turn L E → Option L
  | .arrive l => some l
  | .step _ | .drift _ => none

theorem Turn.mem_arrival {t : Turn L E} {l : L} : l ∈ t.arrival ↔ t = .arrive l := by
  cases t <;> simp [arrival]

/-- The same turn, what the world does by itself named otherwise. -/
def Turn.named {E' : Type} (f : E' → E) : Turn L E' → Turn L E
  | .arrive l => .arrive l
  | .step i => .step i
  | .drift e => .drift (f e)

def Prog.head : Prog C R α → Option C
  | .ret _ => none
  | .step c _ => some c

def Prog.result : Prog C R α → Option α
  | .ret a => some a
  | .step _ _ => none

namespace Pool

def head (p : Pool C R α W) (i : Nat) : Option C := p.clients[i]?.bind Prog.head

def result (p : Pool C R α W) (i : Nat) : Option α := p.clients[i]?.bind Prog.result

/-- Nobody is part way through. -/
def Quiet (p : Pool C R α W) : Prop := ∀ prog ∈ p.clients, prog.head = none

instance [DecidableEq C] (p : Pool C R α W) : Decidable p.Quiet :=
  inferInstanceAs (Decidable (∀ prog ∈ p.clients, prog.head = none))

def next (sys : Service L E C R α W) (p : Pool C R α W) : Turn L E → Option (Pool C R α W)
  | .arrive l => (sys.arrive l p.world).map fun r => ⟨r.2, p.clients ++ [r.1]⟩
  | .step i =>
    match p.clients[i]? with
    | some (.step c k) =>
      some ⟨(sys.exec c p.world).2, p.clients.set i (k (sys.exec c p.world).1)⟩
    | _ => none
  | .drift e => some ⟨sys.drift e p.world, p.clients⟩

theorem next_step {sys : Service L E C R α W} {p p' : Pool C R α W} {i : Nat}
    (h : p.next sys (.step i) = some p') : ∃ c k, p.clients[i]? = some (.step c k) ∧
      p.head i = some c ∧
      p' = ⟨(sys.exec c p.world).2, p.clients.set i (k (sys.exec c p.world).1)⟩ := by
  simp only [next] at h
  split at h
  · next c k hi => exact ⟨c, k, hi, by simp [head, hi, Prog.head], (Option.some.inj h).symm⟩
  · cases h

end Pool

/-- The terms on which turns are taken: each is about the world a turn
finds. -/
structure Terms (L E C W : Type) where
  arrive : W → L → Prop
  call : W → C → Prop
  drift : W → E → Prop

namespace Terms

abbrev any : Terms L E C W := ⟨fun _ _ => True, fun _ _ => True, fun _ _ => True⟩

def Met (terms : Terms L E C W) (p : Pool C R α W) : Turn L E → Prop
  | .arrive l => terms.arrive p.world l
  | .step i => ∀ c ∈ p.head i, terms.call p.world c
  | .drift e => terms.drift p.world e

instance (terms : Terms L E C W) [∀ w l, Decidable (terms.arrive w l)]
    [∀ w c, Decidable (terms.call w c)] [∀ w e, Decidable (terms.drift w e)]
    (p : Pool C R α W) (t : Turn L E) : Decidable (terms.Met p t) :=
  match t with
  | .arrive l => inferInstanceAs (Decidable (terms.arrive p.world l))
  | .step i => inferInstanceAs (Decidable (∀ c ∈ p.head i, terms.call p.world c))
  | .drift e => inferInstanceAs (Decidable (terms.drift p.world e))

end Terms

/-! ## The rule -/

/-- The world meets `I`, and every call still to come meets `Q`. -/
structure Pool.Sound (I : W → Prop) (Q : W → C → Prop) (p : Pool C R α W) : Prop where
  world : I p.world
  clients : ∀ prog ∈ p.clients, prog.Sat (Q p.world) (fun _ => True)

/-- What has to be shown of single turns.  What is known of the calls still
to come must survive every turn of the others. -/
structure Upholds (sys : Service L E C R α W) (terms : Terms L E C W) (I : W → Prop)
    (Q : W → C → Prop) : Prop where
  arrive : ∀ {w l prog w'}, I w → terms.arrive w l → sys.arrive l w = some (prog, w') →
    I w' ∧ prog.Sat (Q w') (fun _ => True) ∧ ∀ c, Q w c → Q w' c
  call : ∀ {w c}, I w → Q w c → terms.call w c →
    I (sys.exec c w).2 ∧ ∀ c', Q w c' → Q (sys.exec c w).2 c'
  drift : ∀ {w e}, I w → terms.drift w e →
    I (sys.drift e w) ∧ ∀ c, Q w c → Q (sys.drift e w) c

section Rule

variable {sys : Service L E C R α W} {terms : Terms L E C W} {I : W → Prop} {Q : W → C → Prop}
  {p p' : Pool C R α W}

theorem Pool.sound_start (hclients : p.clients = []) (hI : I p.world) : p.Sound I Q :=
  ⟨hI, fun _ hprog => absurd (hclients ▸ hprog) List.not_mem_nil⟩

theorem Upholds.next (h : Upholds sys terms I Q) (hp : p.Sound I Q) {t : Turn L E}
    (hmet : terms.Met p t) (hnext : p.next sys t = some p') : p'.Sound I Q := by
  cases t with
  | arrive l =>
    obtain ⟨⟨prog, w'⟩, harr, rfl⟩ := Option.map_eq_some_iff.mp hnext
    obtain ⟨hI, hprog, hmono⟩ := h.arrive hp.world hmet harr
    refine ⟨hI, fun q hq => ?_⟩
    rcases List.mem_append.mp hq with hq | hq
    · exact (hp.clients q hq).mono hmono fun _ h => h
    · obtain rfl := List.mem_singleton.mp hq
      exact hprog
  | step i =>
    obtain ⟨c, k, hi, hhead, rfl⟩ := Pool.next_step hnext
    have hmem := List.mem_of_getElem? hi
    have hsat := hp.clients _ hmem
    obtain ⟨hI, hmono⟩ := h.call hp.world hsat.1 (hmet c hhead)
    refine ⟨hI, fun q hq => ?_⟩
    rcases List.mem_or_eq_of_mem_set hq with hq | rfl
    · exact (hp.clients q hq).mono hmono fun _ h => h
    · exact (hsat.2 _).mono hmono fun _ h => h
  | drift e =>
    cases hnext
    obtain ⟨hI, hmono⟩ := h.drift hp.world hmet
    exact ⟨hI, fun q hq => (hp.clients q hq).mono hmono fun _ h => h⟩

/-- **The rule.**  What each turn upholds holds wherever such turns lead. -/
theorem Upholds.sound (h : Upholds sys terms I Q) (hp : p.Sound I Q)
    (hr : Reaches (Pool.next sys) terms.Met p p') : p'.Sound I Q :=
  hr.invariant hp fun _ _ _ hI hmet hnext => h.next hI hmet hnext

end Rule

/-! ## Observers -/

/-- An observer that sees every turn from outside, and keeps a `G`. -/
structure Observer (L E C : Type) (R : C → Type) (W G : Type) where
  arrive : L → W → G → G := fun _ _ g => g
  call : (c : C) → R c → W → W → G → G
  drift : E → W → W → G → G := fun _ _ _ g => g

/-- The service, under observation.  The observer takes no part in it. -/
def Service.watched (sys : Service L E C R α W) (o : Observer L E C R W G) :
    Service L E C R α (W × G) where
  arrive l w := (sys.arrive l w.1).map fun r => (r.1, r.2, o.arrive l w.1 w.2)
  exec c w :=
    let (r, w') := sys.exec c w.1
    (r, w', o.call c r w.1 w' w.2)
  drift e w := (sys.drift e w.1, o.drift e w.1 (sys.drift e w.1) w.2)

theorem Service.watched_arrive {sys : Service L E C R α W} {o : Observer L E C R W G} {l : L}
    {w w' : W × G} {prog : Prog C R α} (h : (sys.watched o).arrive l w = some (prog, w')) :
    sys.arrive l w.1 = some (prog, w'.1) ∧ w'.2 = o.arrive l w.1 w.2 := by
  obtain ⟨⟨prog', world⟩, harr, hpair⟩ := Option.map_eq_some_iff.mp h
  cases hpair
  exact ⟨harr, rfl⟩

/-- Terms that look at the world and not at the observer. -/
abbrev Terms.watched (terms : Terms L E C W) : Terms L E C (W × G) where
  arrive w l := terms.arrive w.1 l
  call w c := terms.call w.1 c
  drift w e := terms.drift w.1 e

theorem Reaches.watched {sys : Service L E C R α W} {terms : Terms L E C W}
    (o : Observer L E C R W G) {p p' : Pool C R α W} (g : G)
    (hr : Reaches (Pool.next sys) terms.Met p p') :
    ∃ g', Reaches (Pool.next (sys.watched o)) terms.watched.Met ⟨(p.world, g), p.clients⟩
      ⟨(p'.world, g'), p'.clients⟩ := by
  induction hr with
  | refl => exact ⟨g, .refl⟩
  | @tail q q' t _ hmet hnext ih =>
    obtain ⟨g₁, hr₁⟩ := ih
    cases t with
    | arrive l =>
      obtain ⟨⟨prog, w'⟩, harr, rfl⟩ := Option.map_eq_some_iff.mp hnext
      refine ⟨o.arrive l q.world g₁, .tail hr₁ (l := .arrive l) hmet ?_⟩
      simp [Pool.next, Service.watched, harr]
    | step i =>
      obtain ⟨c, k, hi, hhead, rfl⟩ := Pool.next_step hnext
      refine ⟨o.call c (sys.exec c q.world).1 q.world (sys.exec c q.world).2 g₁,
        .tail hr₁ (l := .step i) hmet ?_⟩
      simp [Pool.next, Service.watched, hi]
    | drift e =>
      cases hnext
      exact ⟨o.drift e q.world (sys.drift e q.world) g₁, .tail hr₁ (l := .drift e) hmet rfl⟩

/-- The observer that keeps the roll: who came, in order. -/
def Observer.roll : Observer L E C R W (List L) where
  arrive l _ came := came ++ [l]
  call _ _ _ _ came := came

end FlexiQ.Lib
