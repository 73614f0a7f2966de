/-
# `Lib.Owner` — clients that hold a part of the world

In a pool (`Lib.Pool`) every client takes part in every turn of the others.
What a client may rely on is often not one relation for all of them: the
client that created a thing is the only one to extend it until it is done.
Who created what is not written down anywhere in the world.

Here each client carries a TAG, which nobody sees and no call reads: what it
holds at the moment.  Two clients at work never hold the same (`apart`), a
client relies on what all the others leave alone given their tags (`rely`),
and a call may change the tag of the client that issues it (`retag`).
-/
import FlexiQ.Lib.Solo

namespace FlexiQ.Lib

open List

variable {L E C W T α : Type} {R : C → Type}

/-- What the clients of a pool may take for granted and what they owe, by
their tags. -/
structure Covenant (L C α W T : Type) where
  start : L → T
  retag : T → C → W → T
  inv : W → Prop
  stands : W → T → Prop
  apart : T → T → Prop
  rely : T → W → W → Prop
  asks : T → W → C → Prop
  post : T → α → W → Prop

namespace Covenant

variable (K : Covenant L C α W T)

/-- A call, and the tag after it. -/
def exec (sys : Service L E C R α W) (c : C) (x : W × T) : R c × (W × T) :=
  ((sys.exec c x.1).1, (sys.exec c x.1).2, K.retag x.2 c x.1)

/-- What a client knows between its calls, and owes at each. -/
def guard (terms : Terms L E C W) : Guard C (W × T) where
  env x x' := x'.2 = x.2 ∧ K.rely x.2 x.1 x'.1 ∧ K.inv x'.1 ∧ K.stands x'.1 x'.2
  grants x c := terms.call x.1 c
  owes x c := K.asks x.2 x.1 c

def Delivers (sys : Service L E C R α W) (terms : Terms L E C W) (prog : Prog C R α) (w : W)
    (t : T) : Prop :=
  prog.Keeps (K.exec sys) (K.guard terms) (fun a x => K.post x.2 a x.1) (w, t)

/-- Every turn keeps the invariant and what the others rely on, and every
client that arrives delivers. -/
structure Held (sys : Service L E C R α W) (terms : Terms L E C W) : Prop where
  refl : ∀ t w, K.rely t w w
  trans : ∀ {t w w' w''}, K.rely t w w' → K.rely t w' w'' → K.rely t w w''
  symm : ∀ {t u}, K.apart t u → K.apart u t
  fresh : ∀ l u, K.apart (K.start l) u
  kept : ∀ {t w w'}, K.stands w t → K.rely t w w' → K.stands w' t
  settled : ∀ {t a w w'}, K.post t a w → K.rely t w w' → K.inv w' → K.post t a w'
  arrive : ∀ {w l prog w'}, K.inv w → terms.arrive w l → sys.arrive l w = some (prog, w') →
    K.inv w' ∧ K.stands w' (K.start l) ∧ (∀ u, K.rely u w w') ∧
      K.Delivers sys terms prog w' (K.start l)
  call : ∀ {w c t}, K.inv w → terms.call w c → K.stands w t → K.asks t w c →
    K.inv (sys.exec c w).2 ∧ K.stands (sys.exec c w).2 (K.retag t c w) ∧
      ∀ u, K.stands w u → K.apart t u →
        K.rely u w (sys.exec c w).2 ∧ K.apart (K.retag t c w) u
  drift : ∀ {w e}, K.inv w → terms.drift w e →
    K.inv (sys.drift e w) ∧ ∀ u, K.rely u w (sys.drift e w)

end Covenant

structure Pool.Tagged (sys : Service L E C R α W) (terms : Terms L E C W)
    (K : Covenant L C α W T) (p : Pool C R α W) (tags : List T) : Prop where
  world : K.inv p.world
  length : tags.length = p.clients.length
  stands : ∀ t ∈ tags, K.stands p.world t
  apart : ∀ (i j : Nat) (t u : T), i ≠ j → tags[i]? = some t → tags[j]? = some u → K.apart t u
  clients : ∀ (i : Nat) (prog : Prog C R α) (t : T), p.clients[i]? = some prog → tags[i]? = some t →
    K.Delivers sys terms prog p.world t

def Pool.retag (K : Covenant L C α W T) (p : Pool C R α W) (tags : List T) : Turn L E → List T
  | .arrive l => tags ++ [K.start l]
  | .step i =>
    match p.head i, tags[i]? with
    | some c, some t => tags.set i (K.retag t c p.world)
    | _, _ => tags
  | .drift _ => tags

section Rule

variable {sys : Service L E C R α W} {terms : Terms L E C W} {K : Covenant L C α W T}
  {p p' : Pool C R α W} {tags : List T}

theorem Covenant.Held.later (h : K.Held sys terms) {prog : Prog C R α} {w w' : W} {t : T}
    (hrely : K.rely t w w') (hinv : K.inv w') (hstands : K.stands w' t)
    (hp : K.Delivers sys terms prog w t) : K.Delivers sys terms prog w' t := by
  have henv : (K.guard terms).env (w, t) (w', t) := ⟨rfl, hrely, hinv, hstands⟩
  refine Prog.Keeps.later (g := K.guard terms) ?_ (fun a hpost => ?_) hp henv
  · rintro ⟨w₁, t₁⟩ ⟨w₂, t₂⟩ ⟨w₃, t₃⟩ ⟨rfl, hr₁, -, -⟩ ⟨rfl, hr₂, hinv₃, hs₃⟩
    exact ⟨rfl, h.trans hr₁ hr₂, hinv₃, hs₃⟩
  · exact h.settled hpost hrely hinv

/-- The call of a client is one the covenant knows, and what follows it
delivers. -/
theorem Pool.Tagged.step (hp : p.Tagged sys terms K tags) (h : K.Held sys terms) {i : Nat}
    {c : C} {k : R c → Prog C R α} {t : T} (hi : p.clients[i]? = some (.step c k))
    (ht : tags[i]? = some t) (hcall : terms.call p.world c) :
    K.asks t p.world c ∧ K.Delivers sys terms (k (sys.exec c p.world).1)
      (sys.exec c p.world).2 (K.retag t c p.world) :=
  hp.clients i _ t hi ht (p.world, t)
    ⟨rfl, h.refl t p.world, hp.world, hp.stands t (mem_of_getElem? ht)⟩ hcall

theorem Pool.Tagged.tag_of_client (hp : p.Tagged sys terms K tags) {i : Nat} {prog : Prog C R α}
    (hi : p.clients[i]? = some prog) : ∃ t, tags[i]? = some t := by
  have hlt : i < tags.length := by
    rw [hp.length]
    exact (List.getElem?_eq_some_iff.mp hi).1
  exact ⟨_, List.getElem?_eq_getElem hlt⟩

section

variable (h : K.Held sys terms) (hp : p.Tagged sys terms K tags)
include h hp

/-- A client joins with a tag of its own: it delivers, and the others go on
as they were. -/
theorem Covenant.Held.join {t₀ : T}
    {prog : Prog C R α} {w' : W} (hinv : K.inv w') (hrely : ∀ u, K.rely u p.world w')
    (hstart : K.stands w' t₀) (hapart : ∀ u ∈ tags, K.apart t₀ u)
    (hprog : K.Delivers sys terms prog w' t₀) :
    (Pool.mk w' (p.clients ++ [prog])).Tagged sys terms K (tags ++ [t₀]) := by
  have hold : ∀ {i : Nat} {t : T}, tags[i]? = some t → K.stands w' t := fun ht =>
    h.kept (hp.stands _ (mem_of_getElem? ht)) (hrely _)
  refine ⟨hinv, ?_, fun t ht => ?_, fun i j t u hij hi hj => ?_, fun i q t hi ht => ?_⟩
  · simp only [length_append, length_singleton, hp.length]
  · rcases mem_append.mp ht with ht | ht
    · exact h.kept (hp.stands t ht) (hrely t)
    · rw [mem_singleton.mp ht]
      exact hstart
  · rcases getElem?_concat_cases.mp hi with hold' | ⟨hlast, rfl⟩
    · rcases getElem?_concat_cases.mp hj with hold'' | ⟨-, rfl⟩
      · exact hp.apart i j t u hij hold' hold''
      · exact h.symm (hapart t (mem_of_getElem? hold'))
    · rcases getElem?_concat_cases.mp hj with hold' | ⟨hlast', -⟩
      · exact hapart u (mem_of_getElem? hold')
      · exact absurd (hlast.trans hlast'.symm) hij
  · rcases getElem?_concat_cases.mp hi with hi | ⟨rfl, rfl⟩
    · rcases getElem?_concat_cases.mp ht with ht | ⟨hlen, -⟩
      · exact h.later (hrely t) hinv (hold ht) (hp.clients i q t hi ht)
      · have hlt := (List.getElem?_eq_some_iff.mp hi).1
        rw [hp.length] at hlen
        omega
    · rcases getElem?_concat_cases.mp ht with ht | ⟨-, rfl⟩
      · have hlt := (List.getElem?_eq_some_iff.mp ht).1
        rw [hp.length] at hlt
        omega
      · exact hprog

theorem Covenant.Held.next_arrive {l : L}
    {prog : Prog C R α} {w' : W} (hmet : terms.arrive p.world l)
    (harr : sys.arrive l p.world = some (prog, w')) :
    (Pool.mk w' (p.clients ++ [prog])).Tagged sys terms K (tags ++ [K.start l]) := by
  obtain ⟨hinv, hstart, hrely, hprog⟩ := h.arrive hp.world hmet harr
  exact h.join hp hinv hrely hstart (fun u _ => h.fresh l u) hprog

theorem Covenant.Held.next_step {i : Nat}
    {c : C} {k : R c → Prog C R α} {t : T} (hi : p.clients[i]? = some (.step c k))
    (ht : tags[i]? = some t) (hcall : terms.call p.world c) :
    (Pool.mk (sys.exec c p.world).2 (p.clients.set i (k (sys.exec c p.world).1))).Tagged sys terms
      K (tags.set i (K.retag t c p.world)) := by
  obtain ⟨hasks, hnext⟩ := hp.step h hi ht hcall
  have hstands := hp.stands t (mem_of_getElem? ht)
  obtain ⟨hinv, hstands', hothers⟩ := h.call hp.world hcall hstands hasks
  have hlt : i < p.clients.length := (List.getElem?_eq_some_iff.mp hi).1
  have hlt' : i < tags.length := (List.getElem?_eq_some_iff.mp ht).1
  have hother : ∀ {j : Nat} {u : T}, j ≠ i → tags[j]? = some u →
      K.rely u p.world (sys.exec c p.world).2 ∧ K.apart (K.retag t c p.world) u := by
    intro j u hj hu
    exact hothers u (hp.stands u (mem_of_getElem? hu)) (hp.apart i j t u hj.symm ht hu)
  refine ⟨hinv, ?_, fun u hu => ?_, fun j j' u u' hne hj hj' => ?_, fun j q u hj hu => ?_⟩
  · simp only [length_set, hp.length]
  · obtain ⟨j, hj⟩ := List.getElem?_of_mem hu
    rcases getElem?_set_cases hj with ⟨-, rfl⟩ | ⟨hne, hj⟩
    · exact hstands'
    · exact h.kept (hp.stands u (mem_of_getElem? hj)) (hother hne hj).1
  · rcases getElem?_set_cases hj with ⟨hji, rfl⟩ | ⟨hji, hold⟩
    · rcases getElem?_set_cases hj' with ⟨hji', -⟩ | ⟨hji', hold'⟩
      · exact absurd (hji.trans hji'.symm) hne
      · exact (hother hji' hold').2
    · rcases getElem?_set_cases hj' with ⟨-, rfl⟩ | ⟨-, hold'⟩
      · exact h.symm (hother hji hold).2
      · exact hp.apart j j' u u' hne hold hold'
  · rcases getElem?_set_cases hj with ⟨hji, rfl⟩ | ⟨hji, hold⟩
    · rcases getElem?_set_cases hu with ⟨-, rfl⟩ | ⟨hne, -⟩
      · exact hnext
      · exact absurd hji hne
    · rcases getElem?_set_cases hu with ⟨heq, -⟩ | ⟨-, hu⟩
      · exact absurd heq hji
      · have hrely := (hother hji hu).1
        exact h.later hrely hinv (h.kept (hp.stands u (mem_of_getElem? hu)) hrely)
          (hp.clients j q u hold hu)

theorem Covenant.Held.next {t : Turn L E} (hmet : terms.Met p t) (hnext : p.next sys t = some p') :
    p'.Tagged sys terms K (p.retag K tags t) := by
  cases t with
  | arrive l =>
    obtain ⟨⟨prog, w'⟩, harr, rfl⟩ := Option.map_eq_some_iff.mp hnext
    exact h.next_arrive hp hmet harr
  | step i =>
    obtain ⟨c, k, hi, hhead, rfl⟩ := Pool.next_step hnext
    obtain ⟨t, ht⟩ := hp.tag_of_client hi
    have hset : p.retag K tags (.step i : Turn L E) = tags.set i (K.retag t c p.world) := by
      simp only [Pool.retag, hhead, ht]
    rw [hset]
    exact h.next_step hp hi ht (hmet c hhead)
  | drift e =>
    cases hnext
    obtain ⟨hinv, hrely⟩ := h.drift hp.world hmet
    refine ⟨hinv, hp.length, fun t ht => h.kept (hp.stands t ht) (hrely t), hp.apart,
      fun i q t hi ht => ?_⟩
    exact h.later (hrely t) hinv (h.kept (hp.stands t (mem_of_getElem? ht)) (hrely t))
      (hp.clients i q t hi ht)

/-- **The rule.**  Wherever turns on the terms lead, the clients have tags
with which they are on the covenant. -/
theorem Covenant.Held.sound (hr : Reaches (Pool.next sys) terms.Met p p') :
    ∃ tags', p'.Tagged sys terms K tags' := by
  refine hr.invariant (I := fun q => ∃ tags', q.Tagged sys terms K tags') ⟨tags, hp⟩ ?_
  rintro q t q' ⟨tags', hq⟩ hmet hnext
  exact ⟨_, h.next hq hmet hnext⟩

end

theorem Pool.tagged_start {w : W} (hinv : K.inv w) :
    (Pool.mk w [] : Pool C R α W).Tagged sys terms K [] where
  world := hinv
  length := rfl
  stands t ht := absurd ht not_mem_nil
  apart i j t u _ ht := by simp at ht
  clients i prog t hi := by simp at hi

theorem Pool.Tagged.asked (hp : p.Tagged sys terms K tags) (h : K.Held sys terms) {i : Nat}
    {c : C} (hi : p.head i = some c) (hcall : terms.call p.world c) :
    ∃ t, tags[i]? = some t ∧ K.asks t p.world c := by
  obtain ⟨prog, hprog, hhead⟩ := Option.bind_eq_some_iff.mp hi
  obtain ⟨t, ht⟩ := hp.tag_of_client hprog
  cases prog with
  | ret a => cases hhead
  | step c₀ k =>
    obtain rfl : c₀ = c := Option.some.inj hhead
    exact ⟨t, ht, (hp.step h hprog ht hcall).1⟩

theorem Pool.retag_keeps {V : T → Prop} (hkeeps : ∀ {t}, V t → ∀ c w, V (K.retag t c w)) {i : Nat}
    {t : T} (u : Turn L E) (ht : tags[i]? = some t) (hV : V t) :
    ∃ t', (p.retag K tags u)[i]? = some t' ∧ V t' := by
  cases u with
  | arrive l =>
    have hlt := (List.getElem?_eq_some_iff.mp ht).1
    exact ⟨t, by simpa only [Pool.retag, List.getElem?_append_left hlt] using ht, hV⟩
  | step j =>
    simp only [Pool.retag]
    split
    · next c t' _ ht' =>
      rw [List.getElem?_set]
      split
      · next hji =>
        subst hji
        rw [ht] at ht'
        cases ht'
        rw [if_pos (List.getElem?_eq_some_iff.mp ht).1]
        exact ⟨_, rfl, hkeeps hV c p.world⟩
      · exact ⟨t, ht, hV⟩
    · exact ⟨t, ht, hV⟩
  | drift e => exact ⟨t, ht, hV⟩

theorem Pool.Tagged.returned (hp : p.Tagged sys terms K tags) {i : Nat} {t : T} {a : α}
    (ht : tags[i]? = some t) (ha : p.result i = some a) : K.post t a p.world := by
  obtain ⟨prog, hprog, hresult⟩ := Option.bind_eq_some_iff.mp ha
  cases prog with
  | ret b =>
    obtain rfl : b = a := Option.some.inj hresult
    exact hp.clients _ _ _ hprog ht
  | step c k => cases hresult

/-- **What was asked for is delivered.**  A client that came while the clients
were on the covenant, and has returned, leaves what it owed by the request it
came with. -/
theorem Covenant.Held.delivered (h : K.Held sys terms) (hstays : ∀ t c w, K.retag t c w = t)
    (hp : p.Tagged sys terms K tags) {l : L} {p₁ : Pool C R α W} {a : α}
    (hmet : terms.Met p (.arrive l)) (harr : p.next sys (.arrive l) = some p₁)
    (hr : Reaches (Pool.next sys) terms.Met p₁ p')
    (ha : p'.result p.clients.length = some a) : K.post (K.start l) a p'.world := by
  have hstart : (p.retag K tags (.arrive l : Turn L E))[p.clients.length]? = some (K.start l) := by
    rw [← hp.length]
    simp [Pool.retag]
  obtain ⟨tags', hp', ht⟩ := hr.invariant
    (I := fun q => ∃ tags', q.Tagged sys terms K tags' ∧
      tags'[p.clients.length]? = some (K.start l))
    ⟨_, h.next hp hmet harr, hstart⟩ (by
      rintro q u q' ⟨tags', hq, ht⟩ hmet' hnext
      obtain ⟨t', ht', rfl⟩ := Pool.retag_keeps (p := q) (V := (· = K.start l))
        (by rintro t rfl c w; exact hstays _ c w) u ht rfl
      exact ⟨_, h.next hq hmet' hnext, ht'⟩)
  exact hp'.returned ht ha

end Rule

end FlexiQ.Lib
