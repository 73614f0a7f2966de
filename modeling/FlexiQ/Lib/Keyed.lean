/-
# `Lib.Keyed` — one client at a time for each key

A pool (`Lib.Pool`) whose clients are each about one key: a client writes
only the part of the world that is its key's.  Clients of different keys
interleave as they like; a client arrives only when nobody with the same key
is part way through.  Then each client runs, on its part, as if it were alone
(`Lib.Solo`), whatever it reads elsewhere.

Who came for which key is not written in the world.  The roll
(`Observer.roll`) has it.
-/
import FlexiQ.Lib.Solo

namespace FlexiQ.Lib

variable {L E C W K V α : Type} {R : C → Type}

/-- A turn on the given terms; a client arrives only when nobody with its key
is part way through. -/
def Pool.OneByOne (key : L → K) (terms : Terms L E C W) (p : Pool C R α (W × List L))
    (t : Turn L E) : Prop :=
  terms.watched.Met p t ∧ ∀ l, t = .arrive l → ∀ (i : Nat) (l' : L), p.world.2[i]? = some l' →
    key l' = key l → p.head i = none

instance (key : L → K) (terms : Terms L E C W) (p : Pool C R α (W × List L)) (t : Turn L E)
    [DecidableEq K] [DecidableEq C] [Decidable (terms.watched.Met p t)] :
    Decidable (p.OneByOne key terms t) :=
  decidable_of_iff (terms.watched.Met p t ∧ ∀ l ∈ t.arrival, ∀ i < p.world.2.length,
      ∀ l' ∈ p.world.2[i]?, key l' = key l → p.head i = none)
    (and_congr_right fun _ => by
      simp only [Turn.mem_arrival]
      exact ⟨fun hall l hl i l' hi => hall l hl i (List.getElem?_eq_some_iff.mp hi).1 l' hi,
        fun hall l hl i _ l' hi => hall l hl i l' hi⟩)

/-- A client about `k`: between two calls its part stays as it is. -/
def Guard.own (terms : Terms L E C W) (part : K → W → V) (k : K) : Guard C W where
  env w w' := part k w' = part k w
  grants := terms.call
  owes _ _ := True

def Spares (exec : (c : C) → W → R c × W) (part : K → W → V) (k : K) (c : C) : Prop :=
  ∀ w k', k' ≠ k → part k' (exec c w).2 = part k' w

/-- Every client that arrives spares the others, and keeps what is so of its
own part. -/
structure PerKey (sys : Service L E C R α W) (terms : Terms L E C W) (key : L → K)
    (part : K → W → V) (I : K → W → Prop) : Prop where
  within : ∀ {k w w'}, part k w' = part k w → I k w → I k w'
  arrive : ∀ {w l prog w'}, I (key l) w → terms.arrive w l → sys.arrive l w = some (prog, w') →
    (∀ k, part k w' = part k w) ∧
      prog.Sat (Spares sys.exec part (key l)) (fun _ => True) ∧
      prog.Keeps sys.exec (Guard.own terms part (key l)) (fun _ w => I (key l) w) w'
  drift : ∀ {w e}, terms.drift w e → ∀ k, part k (sys.drift e w) = part k w

/-- For each key one client at most is at work, and what is so of a part where
none is. -/
structure Pool.Keyed (sys : Service L E C R α W) (terms : Terms L E C W) (key : L → K)
    (part : K → W → V) (I : K → W → Prop) (p : Pool C R α (W × List L)) : Prop where
  length : p.world.2.length = p.clients.length
  alone : ∀ {i j : Nat} {l l' : L}, p.world.2[i]? = some l → p.world.2[j]? = some l' →
    key l = key l' → p.head i ≠ none → p.head j ≠ none → i = j
  clients : ∀ {i : Nat} {prog : Prog C R α} {l : L},
    p.clients[i]? = some prog → p.world.2[i]? = some l →
    prog.head ≠ none → prog.Sat (Spares sys.exec part (key l)) (fun _ => True) ∧
      prog.Keeps sys.exec (Guard.own terms part (key l)) (fun _ w => I (key l) w) p.world.1
  idle : ∀ {k : K}, (∀ (i : Nat) (l : L), p.world.2[i]? = some l → key l = k → p.head i = none) →
    I k p.world.1

section Rule

variable {sys : Service L E C R α W} {terms : Terms L E C W} {key : L → K} {part : K → W → V}
  {I : K → W → Prop} {p p' : Pool C R α (W × List L)}

theorem Prog.Keeps.own_later {k : K} {prog : Prog C R α} {P : W → Prop} {w w' : W}
    (h : prog.Keeps sys.exec (Guard.own terms part k) (fun _ w => P w) w)
    (hP : P w → P w') (heq : part k w' = part k w) :
    prog.Keeps sys.exec (Guard.own terms part k) (fun _ w => P w) w' :=
  h.later (fun h₁ h₂ => h₂.trans h₁) (fun _ => hP) heq

section

variable (h : PerKey sys terms key part I) (hp : p.Keyed sys terms key part I)
include h hp

theorem PerKey.next_arrive {l : L} (hterms : terms.arrive p.world.1 l)
    (hfree : ∀ (i : Nat) (l' : L), p.world.2[i]? = some l' → key l' = key l → p.head i = none)
    (hnext : p.next (sys.watched .roll) (.arrive l) = some p') :
    p'.Keyed sys terms key part I := by
  obtain ⟨⟨prog, w'⟩, harr, rfl⟩ := Option.map_eq_some_iff.mp hnext
  obtain ⟨harr, hroll⟩ := Service.watched_arrive harr
  have hroll : w'.2 = p.world.2 ++ [l] := hroll
  obtain ⟨hsame, hspares, hkeeps⟩ := h.arrive (hp.idle hfree) hterms harr
  have hold : ∀ {i l'}, w'.2[i]? = some l' → p.world.2[i]? = some l' ∨
      i = p.clients.length ∧ l' = l := by
    intro i l' hi
    rw [hroll] at hi
    rw [← hp.length]
    exact getElem?_concat_cases.mp hi
  have hlt : ∀ {i l'}, p.world.2[i]? = some l' → i < p.clients.length := fun hi => by
    rw [← hp.length]
    exact (List.getElem?_eq_some_iff.mp hi).1
  have hhead : ∀ {i}, i < p.clients.length →
      (Pool.mk w' (p.clients ++ [prog])).head i = p.head i := by
    intro i hi
    rw [Pool.head_concat, if_neg (Nat.ne_of_lt hi)]
  refine ⟨?_, ?_, ?_, ?_⟩
  · simp [hroll, hp.length]
  · intro i j l₁ l₂ hi hj hkey hi' hj'
    rcases hold hi with hi | ⟨rfl, rfl⟩
    · rcases hold hj with hj | ⟨rfl, rfl⟩
      · rw [hhead (hlt hi)] at hi'
        rw [hhead (hlt hj)] at hj'
        exact hp.alone hi hj hkey hi' hj'
      · rw [hhead (hlt hi)] at hi'
        exact absurd (hfree i l₁ hi hkey) hi'
    · rcases hold hj with hj | ⟨rfl, -⟩
      · rw [hhead (hlt hj)] at hj'
        exact absurd (hfree j l₂ hj hkey.symm) hj'
      · rfl
  · intro i prog' l' hi hl hwork
    rcases hold hl with hl | ⟨rfl, rfl⟩
    · rw [List.getElem?_append_left (hlt hl)] at hi
      obtain ⟨hsat, hrest⟩ := hp.clients hi hl hwork
      exact ⟨hsat, hrest.own_later (h.within (hsame _)) (hsame _)⟩
    · rw [List.getElem?_concat_length] at hi
      cases hi
      exact ⟨hspares, hkeeps⟩
  · intro k hk
    by_cases hkey : key l = k
    · subst hkey
      have hdone := hk p.clients.length l (by rw [hroll, ← hp.length]; simp) rfl
      rw [Pool.head_concat, if_pos rfl] at hdone
      exact hkeeps.idle hdone
    · refine h.within (hsame k) (hp.idle fun i l' hi hl' => ?_)
      have hstill := hk i l' (by
        rw [hroll, List.getElem?_append_left (by rw [hp.length]; exact hlt hi)]
        exact hi) hl'
      rwa [hhead (hlt hi)] at hstill

theorem PerKey.next_step {i : Nat} (hmet : ∀ c ∈ p.head i, terms.call p.world.1 c)
    (hnext : p.next (sys.watched .roll) (.step i) = some p') : p'.Keyed sys terms key part I := by
  obtain ⟨c, k, hi, hact, rfl⟩ := Pool.next_step hnext
  have hlt : i < p.clients.length := (List.getElem?_eq_some_iff.mp hi).1
  have hwork : p.head i ≠ none := by
    rw [hact]
    exact Option.some_ne_none c
  obtain ⟨l, hl⟩ : ∃ l, p.world.2[i]? = some l :=
    ⟨_, List.getElem?_eq_getElem (by rw [hp.length]; exact hlt)⟩
  obtain ⟨hsat, hkeeps⟩ := hp.clients hi hl (Option.some_ne_none c)
  have hspared := hsat.1 p.world.1
  have hrest := (hkeeps p.world.1 rfl (hmet c hact)).2
  have hhead : ∀ {j}, j ≠ i → (Pool.mk ((sys.watched .roll).exec c p.world).2
      (p.clients.set i (k ((sys.watched .roll).exec c p.world).1))).head j = p.head j := by
    intro j hj
    rw [Pool.head_set hlt, if_neg fun heq => hj heq.symm]
  -- A client of the same key that is at work is this one.
  have hother : ∀ {j l'}, j ≠ i → p.world.2[j]? = some l' → p.head j ≠ none →
      key l' ≠ key l := by
    intro j l' hj hl' hj' heq
    exact hj (hp.alone hl' hl heq hj' hwork)
  refine ⟨?_, ?_, ?_, ?_⟩
  · rw [List.length_set]
    exact hp.length
  · intro j j' l₁ l₂ hj hj' hkey hwj hwj'
    by_cases hji : j = i
    · subst hji
      by_cases hji' : j' = j
      · exact hji'.symm
      · rw [hhead hji'] at hwj'
        have hl₁ : l₁ = l := Option.some.inj (hj.symm.trans hl)
        exact absurd (hl₁ ▸ hkey.symm) (hother hji' hj' hwj')
    · rw [hhead hji] at hwj
      by_cases hji' : j' = i
      · subst hji'
        have hl₂ : l₂ = l := Option.some.inj (hj'.symm.trans hl)
        exact absurd (hl₂ ▸ hkey) (hother hji hj hwj)
      · rw [hhead hji'] at hwj'
        exact hp.alone hj hj' hkey hwj hwj'
  · intro j prog l' hj hl' hwj
    rcases getElem?_set_cases hj with ⟨rfl, rfl⟩ | ⟨hne, hj⟩
    · obtain rfl : l' = l := Option.some.inj (hl'.symm.trans hl)
      exact ⟨hsat.2 _, hrest⟩
    · obtain ⟨hsat', hkeeps'⟩ := hp.clients hj hl' hwj
      have hhj : p.head j ≠ none := by
        unfold Pool.head
        rw [hj]
        exact hwj
      have hsame := hspared (key l') (hother hne hl' hhj)
      exact ⟨hsat', hkeeps'.own_later (h.within hsame) hsame⟩
  · intro k' hk'
    by_cases hkey : key l = k'
    · subst hkey
      have hdone := hk' i l hl rfl
      rw [Pool.head_set hlt, if_pos rfl] at hdone
      exact hrest.idle hdone
    · refine h.within (hspared k' fun heq => hkey heq.symm) (hp.idle fun j l' hj hl' => ?_)
      have hji : j ≠ i := by
        rintro rfl
        exact hkey (Option.some.inj (hl.symm.trans hj) ▸ hl')
      have hstill := hk' j l' hj hl'
      rwa [hhead hji] at hstill

theorem PerKey.next_drift {e : E} (hmet : terms.drift p.world.1 e)
    (hnext : p.next (sys.watched .roll) (.drift e) = some p') : p'.Keyed sys terms key part I := by
  cases hnext
  have hsame := h.drift hmet
  refine ⟨hp.length, hp.alone, fun hi hl hwork => ?_, fun hk => h.within (hsame _) (hp.idle hk)⟩
  obtain ⟨hsat, hkeeps⟩ := hp.clients hi hl hwork
  exact ⟨hsat, hkeeps.own_later (h.within (hsame _)) (hsame _)⟩

/-- **The rule.**  Wherever turns lead that are taken one by one for each key,
what is so of a part is so again whenever no client of the key is at work. -/
theorem PerKey.sound (hr : Reaches (Pool.next (sys.watched .roll)) (Pool.OneByOne key terms) p p') :
    p'.Keyed sys terms key part I := by
  refine hr.invariant hp ?_
  intro q t q' hq hok hnext
  cases t with
  | arrive l => exact h.next_arrive hq hok.1 (hok.2 l rfl) hnext
  | step i => exact h.next_step hq hok.1 hnext
  | drift e => exact h.next_drift hq hok.1 hnext

end

theorem Pool.keyed_start {w : W} (hI : ∀ k, I k w) :
    (Pool.mk (w, []) [] : Pool C R α (W × List L)).Keyed sys terms key part I where
  length := rfl
  alone hi := by simp at hi
  clients hi := by simp at hi
  idle _ := hI _

theorem Pool.Keyed.of_quiet (hp : p.Keyed sys terms key part I) (hquiet : p.Quiet) (k : K) :
    I k p.world.1 :=
  hp.idle fun i _ _ _ => hquiet.head i

end Rule

end FlexiQ.Lib
