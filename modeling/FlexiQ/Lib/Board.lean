/-
# `Lib.Board` — tasks behind dependencies, and the cascade that clears them

The abstract picture of a job store with dependencies, in its own terms.  A
`Board` says in which PHASE each task is, which edges are still recorded, and,
as history, what each task asked to wait for and which tasks ever completed.
A board and the searches under way on it make a `Scene`, and a `Move` is one
thing happening to a scene.

Two invariants.  `Sound` keeps the gate honest: a task that waits for
something not yet completed still has the edge to it, and the other end is
still there to be seen.  `Tended` accounts for tasks whose dependency was
lost: a search that started at that very dependency is still under way, and
what it has read it has read completely.
-/
import FlexiQ.Lib.Bfs
import Mathlib.Logic.Relation

namespace FlexiQ.Lib

open List Search

/-- Where a task is.  `absent` is a task not submitted yet, or erased. -/
inductive Phase
  | absent
  | pending
  | running
  | complete
  | lost
  deriving DecidableEq, Repr

def Phase.Live (p : Phase) : Prop := p = .pending ∨ p = .running

/-- Present and not completed: what a gate can see and refuse. -/
def Phase.Blocks (p : Phase) : Prop := p = .pending ∨ p = .running ∨ p = .lost

theorem Phase.Live.blocks {p : Phase} (h : p.Live) : p.Blocks :=
  h.elim Or.inl fun h => Or.inr (Or.inl h)

theorem Phase.Live.present {p : Phase} (h : p.Live) : p ≠ .absent := by
  rcases h with rfl | rfl <;> decide

/-- The tasks `α`: where each is, and what is on record about it. -/
structure Board (α : Type) where
  phase : α → Phase
  edge : α → α → Prop
  wants : α → α → Prop
  done : α → Prop
  born : α → Prop

namespace Board

variable {α : Type}

/-! ## What can happen -/

/-- The new tasks `new` came in, waiting for what `deps` says. -/
structure Submits (b b' : Board α) (new : α → Prop) (deps : α → α → Prop) : Prop where
  fresh : ∀ a, new a → ¬ b.born a
  start : ∀ a, new a → b'.phase a = .pending
  phase : ∀ a, ¬ new a → b'.phase a = b.phase a
  edge : ∀ a d, b'.edge a d ↔ b.edge a d ∨ (new a ∧ deps a d)
  wants : ∀ a d, b'.wants a d ↔ b.wants a d ∨ (new a ∧ deps a d)
  born : ∀ a, b'.born a ↔ b.born a ∨ new a
  done : ∀ a, b'.done a ↔ b.done a
  valid : ∀ a d, new a → deps a d → new d ∨ (b.phase d).Live ∨ b.phase d = .complete

/-- Nothing changed but the phases. -/
structure Same (b b' : Board α) : Prop where
  edge : ∀ a d, b'.edge a d ↔ b.edge a d
  wants : ∀ a d, b'.wants a d ↔ b.wants a d
  born : ∀ a, b'.born a ↔ b.born a

/-- `a` was started: every dependency the gate could see was complete. -/
structure Starts (b b' : Board α) (a : α) : Prop extends Same b b' where
  done : ∀ x, b'.done x ↔ b.done x
  pending : b.phase a = .pending
  gate : ∀ d, b.edge a d → ¬ (b.phase d).Blocks
  running : b'.phase a = .running
  phase : ∀ x, x ≠ a → b'.phase x = b.phase x

/-- Live tasks went back to pending, or stayed where they were. -/
structure Settles (b b' : Board α) : Prop extends Same b b' where
  done : ∀ x, b'.done x ↔ b.done x
  phase : ∀ x, b'.phase x = b.phase x ∨ ((b.phase x).Live ∧ b'.phase x = .pending)

/-- The tasks `gone` ended, each completed or lost; only a running task
completes. -/
structure Ends (b b' : Board α) (gone : α → Prop) : Prop extends Same b b' where
  live : ∀ a, gone a → (b.phase a).Live
  ended : ∀ a, gone a → b'.phase a = .lost ∨ (b'.phase a = .complete ∧ b.phase a = .running)
  phase : ∀ a, ¬ gone a → b'.phase a = b.phase a
  done : ∀ a, b'.done a ↔ b.done a ∨ (gone a ∧ b'.phase a = .complete)

/-- The ended tasks `old` were erased, with every edge from or to them. -/
structure Erases (b b' : Board α) (old : α → Prop) : Prop where
  ended : ∀ a, old a → ¬ (b.phase a).Live
  erased : ∀ a, old a → b'.phase a = .absent
  phase : ∀ a, ¬ old a → b'.phase a = b.phase a
  edge : ∀ a d, b'.edge a d ↔ b.edge a d ∧ ¬ old a ∧ ¬ old d
  wants : ∀ a d, b'.wants a d ↔ b.wants a d
  born : ∀ a, b'.born a ↔ b.born a
  done : ∀ a, b'.done a ↔ b.done a

/-! ## The gate -/

structure Sound (b : Board α) : Prop where
  edge_wants : ∀ a d, b.edge a d → b.wants a d
  wants_born : ∀ a d, b.wants a d → b.born a ∧ b.born d
  present_born : ∀ a, b.phase a ≠ .absent → b.born a
  complete_done : ∀ a, b.phase a = .complete → b.done a
  waits : ∀ a d, b.wants a d → (b.phase a).Live →
    b.done d ∨ (b.edge a d ∧ (b.phase d).Blocks)
  ran : ∀ a d, b.wants a d → b.phase a = .running → b.done d

variable {b b' : Board α} {gone : α → Prop} {x : α}

theorem Sound.submits {new : α → Prop} {deps : α → α → Prop} (h : b.Sound)
    (hs : b.Submits b' new deps) : b'.Sound := by
  have hold : ∀ a d, b.wants a d → ¬ new a ∧ ¬ new d := by
    intro a d hw
    obtain ⟨ha, hd⟩ := h.wants_born a d hw
    exact ⟨fun hn => hs.fresh a hn ha, fun hn => hs.fresh d hn hd⟩
  -- A dependency of a new task is new, live or complete.
  have hdep : ∀ a d, new a → deps a d → (b'.phase d).Live ∨
      (b'.phase d = .complete ∧ b.done d) := by
    intro a d ha hd
    by_cases hnd : new d
    · exact Or.inl (Or.inl (hs.start d hnd))
    · rw [hs.phase d hnd]
      rcases hs.valid a d ha hd with hn | hl | hc
      · exact absurd hn hnd
      · exact Or.inl hl
      · exact Or.inr ⟨hc, h.complete_done d hc⟩
  refine ⟨?_, ?_, ?_, ?_, ?_, ?_⟩
  · intro a d he
    rw [hs.wants]
    exact ((hs.edge a d).mp he).imp_left (h.edge_wants a d)
  · intro a d hw
    rw [hs.born, hs.born]
    rcases (hs.wants a d).mp hw with hw | ⟨ha, hd⟩
    · obtain ⟨hba, hbd⟩ := h.wants_born a d hw
      exact ⟨Or.inl hba, Or.inl hbd⟩
    · refine ⟨Or.inr ha, ?_⟩
      rcases hs.valid a d ha hd with hn | hl | hc
      · exact Or.inr hn
      · exact Or.inl (h.present_born d hl.present)
      · refine Or.inl (h.present_born d ?_)
        rw [hc]
        decide
  · intro a hp
    rw [hs.born]
    by_cases ha : new a
    · exact Or.inr ha
    · rw [hs.phase a ha] at hp
      exact Or.inl (h.present_born a hp)
  · intro a hp
    by_cases ha : new a
    · rw [hs.start a ha] at hp
      cases hp
    · rw [hs.phase a ha] at hp
      exact (hs.done a).mpr (h.complete_done a hp)
  · intro a d hw hl
    rw [hs.done, hs.edge]
    rcases (hs.wants a d).mp hw with hw | ⟨ha, hd⟩
    · obtain ⟨hna, hnd⟩ := hold a d hw
      rw [hs.phase a hna] at hl
      rw [hs.phase d hnd]
      rcases h.waits a d hw hl with hdone | ⟨he, hb⟩
      · exact Or.inl hdone
      · exact Or.inr ⟨Or.inl he, hb⟩
    · rcases hdep a d ha hd with hlive | ⟨-, hdone⟩
      · exact Or.inr ⟨Or.inr ⟨ha, hd⟩, hlive.blocks⟩
      · exact Or.inl hdone
  · intro a d hw hr
    rcases (hs.wants a d).mp hw with hw | ⟨ha, -⟩
    · rw [hs.phase a (hold a d hw).1] at hr
      exact (hs.done d).mpr (h.ran a d hw hr)
    · rw [hs.start a ha] at hr
      cases hr

inductive Turns (b b' : Board α) (x : α) : Prop
  | stays (phase : b'.phase x = b.phase x)
  | waits (live : (b.phase x).Live) (phase : b'.phase x = .pending)
  | runs (live : (b.phase x).Live) (phase : b'.phase x = .running)
      (gate : ∀ d, b.wants x d → b.done d)
  | fails (live : (b.phase x).Live) (phase : b'.phase x = .lost)
  | completes (live : (b.phase x).Live) (phase : b'.phase x = .complete) (done : b'.done x)

theorem Turns.live (h : b.Turns b' x) (hl : (b'.phase x).Live) : (b.phase x).Live := by
  cases h with
  | stays phase => rwa [phase] at hl
  | waits live | runs live | fails live | completes live => exact live

theorem Sound.same (h : b.Sound) (hs : b.Same b') (hdone : ∀ x, b.done x → b'.done x)
    (hturn : ∀ x, b.Turns b' x) : b'.Sound where
  edge_wants := fun a d he => (hs.wants a d).mpr (h.edge_wants a d ((hs.edge a d).mp he))
  wants_born := by
    intro a d hw
    rw [hs.born, hs.born]
    exact h.wants_born a d ((hs.wants a d).mp hw)
  present_born := by
    intro a hp
    refine (hs.born a).mpr (h.present_born a ?_)
    cases hturn a with
    | stays phase => rwa [phase] at hp
    | waits live | runs live | fails live | completes live => exact live.present
  complete_done := by
    intro a hp
    cases hturn a with
    | stays phase => exact hdone a (h.complete_done a (phase ▸ hp))
    | completes _ _ done => exact done
    | waits _ phase | runs _ phase | fails _ phase =>
      rw [phase] at hp
      cases hp
  waits := by
    intro a d hw hl
    rw [hs.edge]
    rcases h.waits a d ((hs.wants a d).mp hw) ((hturn a).live hl) with hd | ⟨he, hb⟩
    · exact Or.inl (hdone d hd)
    · cases hturn d with
      | stays phase => exact Or.inr ⟨he, by rwa [phase]⟩
      | completes _ _ done => exact Or.inl done
      | waits _ phase | runs _ phase | fails _ phase =>
        exact Or.inr ⟨he, by simp [phase, Phase.Blocks]⟩
  ran := by
    intro a d hw hr
    rw [hs.wants] at hw
    cases hturn a with
    | stays phase => exact hdone d (h.ran a d hw (phase ▸ hr))
    | runs _ _ gate => exact hdone d (gate d hw)
    | waits _ phase | fails _ phase | completes _ phase =>
      rw [phase] at hr
      cases hr

theorem Sound.starts {a : α} (h : b.Sound) (hs : b.Starts b' a) : b'.Sound := by
  refine h.same hs.toSame (fun x => (hs.done x).mpr) fun x => ?_
  by_cases hx : x = a
  · subst hx
    refine .runs (Or.inl hs.pending) hs.running fun d hw => ?_
    rcases h.waits x d hw (Or.inl hs.pending) with hd | ⟨he, hb⟩
    · exact hd
    · exact absurd hb (hs.gate d he)
  · exact .stays (hs.phase x hx)

theorem Settles.live_iff (hs : b.Settles b') (x : α) : (b'.phase x).Live ↔ (b.phase x).Live := by
  rcases hs.phase x with heq | ⟨hl, heq⟩
  · rw [heq]
  · rw [heq]
    exact iff_of_true (Or.inl rfl) hl

theorem Sound.settles (h : b.Sound) (hs : b.Settles b') : b'.Sound := by
  refine h.same hs.toSame (fun x => (hs.done x).mpr) fun x => ?_
  rcases hs.phase x with heq | ⟨hl, heq⟩
  · exact .stays heq
  · exact .waits hl heq

theorem Sound.ends (h : b.Sound) (he : b.Ends b' gone) : b'.Sound := by
  refine h.same he.toSame (fun x hx => (he.done x).mpr (Or.inl hx)) fun x => ?_
  by_cases hg : gone x
  · rcases he.ended x hg with heq | ⟨heq, -⟩
    · exact .fails (he.live x hg) heq
    · exact .completes (he.live x hg) heq ((he.done x).mpr (Or.inr ⟨hg, heq⟩))
  · exact .stays (he.phase x hg)

/-- Nobody alive still waits for a lost task among `old`. -/
def Unneeded (b : Board α) (old : α → Prop) : Prop :=
  ∀ a d, old d → b.phase d = .lost → (b.phase a).Live → ¬ b.edge a d

theorem Erases.live {old : α → Prop} (he : b.Erases b' old) (h : (b'.phase x).Live) :
    ¬ old x ∧ (b.phase x).Live := by
  have hx : ¬ old x := by
    intro ho
    rw [he.erased x ho] at h
    exact h.elim (by intro h; cases h) (by intro h; cases h)
  exact ⟨hx, by rwa [he.phase x hx] at h⟩

theorem Sound.erases {old : α → Prop} (h : b.Sound) (he : b.Erases b' old)
    (hun : b.Unneeded old) : b'.Sound := by
  refine ⟨?_, ?_, ?_, ?_, ?_, ?_⟩
  · intro a d hedge
    exact (he.wants a d).mpr (h.edge_wants a d ((he.edge a d).mp hedge).1)
  · intro a d hw
    rw [he.born, he.born]
    exact h.wants_born a d ((he.wants a d).mp hw)
  · intro a hp
    by_cases ho : old a
    · exact absurd (he.erased a ho) hp
    · rw [he.phase a ho] at hp
      exact (he.born a).mpr (h.present_born a hp)
  · intro a hp
    by_cases ho : old a
    · rw [he.erased a ho] at hp
      cases hp
    · rw [he.phase a ho] at hp
      exact (he.done a).mpr (h.complete_done a hp)
  · intro a d hw hl
    obtain ⟨hoa, hl⟩ := he.live hl
    rw [he.done, he.edge]
    rcases h.waits a d ((he.wants a d).mp hw) hl with hd | ⟨hedge, hb⟩
    · exact Or.inl hd
    · by_cases hod : old d
      · -- An erased task is not live, so it was lost, and then it is needed.
        exfalso
        have hlost : b.phase d = .lost := by
          rcases hb with hb | hb | hb
          · exact absurd (Or.inl hb) (he.ended d hod)
          · exact absurd (Or.inr hb) (he.ended d hod)
          · exact hb
        exact hun a d hod hlost hl hedge
      · exact Or.inr ⟨⟨hedge, hoa, hod⟩, by rwa [he.phase d hod]⟩
  · intro a d hw hr
    obtain ⟨hoa, -⟩ := he.live (Or.inr hr)
    rw [he.phase a hoa] at hr
    exact (he.done d).mpr (h.ran a d ((he.wants a d).mp hw) hr)

/-! ## The cascade -/

/-- Every task whose dependency was lost has a search on its way that began
at that dependency. -/
structure Tended (b : Board α) (searches : List (Search α)) : Prop where
  nodup : ∀ c ∈ searches, c.WellFormed
  born : ∀ c ∈ searches, ∀ x ∈ c.queue, b.born x
  root : ∀ c ∈ searches, ¬ (b.phase c.root).Live
  read : ∀ c ∈ searches, ∀ p ∈ c.queue.take c.idx, ∀ x, b.edge x p → x ∈ c.queue
  tended : ∀ a d, b.wants a d → b.phase a = .pending → ¬ (b.phase d).Live → ¬ b.done d →
    ∃ c ∈ searches, c.root = d

/-- What `Tended` says of one search. -/
structure Knows (b : Board α) (c : Search α) : Prop where
  wellFormed : c.WellFormed
  born : ∀ x ∈ c.queue, b.born x
  root : ¬ (b.phase c.root).Live
  read : ∀ p ∈ c.queue.take c.idx, ∀ x, b.edge x p → x ∈ c.queue

variable {c : Search α} {searches searches' : List (Search α)}

theorem Tended.knows (h : b.Tended searches) (hc : c ∈ searches) : b.Knows c :=
  ⟨h.nodup c hc, h.born c hc, h.root c hc, h.read c hc⟩

theorem Tended.of_knows (h : ∀ c ∈ searches, b.Knows c)
    (htended : ∀ a d, b.wants a d → b.phase a = .pending → ¬ (b.phase d).Live → ¬ b.done d →
      ∃ c ∈ searches, c.root = d) : b.Tended searches :=
  ⟨fun c hc => (h c hc).wellFormed, fun c hc => (h c hc).born, fun c hc => (h c hc).root,
    fun c hc => (h c hc).read, htended⟩

theorem knows_start {r : α} (hborn : b.born r) (hroot : ¬ (b.phase r).Live) :
    b.Knows (start r) where
  wellFormed := start_wellFormed r
  born := forall_mem_singleton.mpr hborn
  root := hroot
  read := fun p hp => by cases hp

theorem Tended.submits {new : α → Prop} {deps : α → α → Prop} (hb : b.Sound)
    (h : b.Tended searches) (hs : b.Submits b' new deps)
    (hjoin : ∀ a d, new a → deps a d → ∀ c ∈ searches, d ∉ c.queue.take c.idx) :
    b'.Tended searches := by
  have hold : ∀ x, b.born x → ¬ new x := fun x hx hn => hs.fresh x hn hx
  have hroot : ∀ c ∈ searches, c.root ∈ c.queue := fun c hc =>
    mem_of_mem_head? (h.nodup c hc).head
  refine ⟨h.nodup, ?_, ?_, ?_, ?_⟩
  · intro c hc x hx
    exact (hs.born x).mpr (Or.inl (h.born c hc x hx))
  · intro c hc
    rw [hs.phase c.root (hold _ (h.born c hc _ (hroot c hc)))]
    exact h.root c hc
  · intro c hc p hp x hx
    rcases (hs.edge x p).mp hx with hx | ⟨hn, hd⟩
    · exact h.read c hc p hp x hx
    · exact absurd hp (hjoin x p hn hd c hc)
  · intro a d hw ha hl hd
    rw [hs.done] at hd
    rcases (hs.wants a d).mp hw with hw | ⟨hn, hdep⟩
    · obtain ⟨hba, hbd⟩ := hb.wants_born a d hw
      rw [hs.phase a (hold a hba)] at ha
      rw [hs.phase d (hold d hbd)] at hl
      exact h.tended a d hw ha hl hd
    · -- A dependency was accepted because it is new, live or complete.
      exfalso
      by_cases hnd : new d
      · exact hl (Or.inl (hs.start d hnd))
      · rw [hs.phase d hnd] at hl
        rcases hs.valid a d hn hdep with hn | hlive | hc
        · exact hnd hn
        · exact hl hlive
        · exact hd (hb.complete_done d hc)

theorem Tended.same (hb : b.Sound) (h : b.Tended searches) (hs : b.Same b')
    (hdone : ∀ x, b'.done x ↔ b.done x) (hlive : ∀ x, (b'.phase x).Live ↔ (b.phase x).Live) :
    b'.Tended searches := by
  refine ⟨h.nodup, ?_, ?_, ?_, ?_⟩
  · exact fun c hc x hx => (hs.born x).mpr (h.born c hc x hx)
  · exact fun c hc hl => h.root c hc ((hlive _).mp hl)
  · exact fun c hc p hp x hx => h.read c hc p hp x ((hs.edge x p).mp hx)
  · intro x d hw hx hl hd
    rw [hs.wants] at hw
    rw [hlive] at hl
    rw [hdone] at hd
    rcases (hlive x).mp (Or.inl hx) with hp | hr
    · exact h.tended x d hw hp hl hd
    · -- Whoever ran waits for nothing that is not done.
      exact absurd (hb.ran x d hw hr) hd

theorem Starts.live_iff {a : α} (hs : b.Starts b' a) (x : α) :
    (b'.phase x).Live ↔ (b.phase x).Live := by
  by_cases hxa : x = a
  · rw [hxa, hs.pending, hs.running]
    exact iff_of_true (Or.inr rfl) (Or.inl rfl)
  · rw [hs.phase x hxa]

theorem Ends.not_live (he : b.Ends b' gone) (h : ¬ (b.phase x).Live) : ¬ (b'.phase x).Live := by
  have hx : ¬ gone x := fun hg => h (he.live x hg)
  rwa [he.phase x hx]

theorem Ends.gone_not_live (he : b.Ends b' gone) (hg : gone x) : ¬ (b'.phase x).Live := by
  rintro (hl | hl) <;> rcases he.ended x hg with heq | ⟨heq, -⟩ <;>
    · rw [heq] at hl
      cases hl

theorem Knows.ends (h : b.Knows c) (he : b.Ends b' gone) : b'.Knows c where
  wellFormed := h.wellFormed
  born := fun x hx => (he.born x).mpr (h.born x hx)
  root := he.not_live h.root
  read := fun p hp x hx => h.read p hp x ((he.edge x p).mp hx)

theorem Tended.ends_searches (h : b.Tended searches) (he : b.Ends b' gone)
    (htended : ∀ a d, b'.wants a d → b'.phase a = .pending → ¬ (b'.phase d).Live →
      ¬ b'.done d → ∃ c ∈ searches', c.root = d)
    (hsub : ∀ c ∈ searches', c ∈ searches ∨ ∃ r, gone r ∧ b.born r ∧ c = start r) :
    b'.Tended searches' := by
  refine .of_knows (fun c hc => ?_) htended
  rcases hsub c hc with hc | ⟨r, hr, hborn, rfl⟩
  · exact (h.knows hc).ends he
  · exact knows_start ((he.born r).mpr hborn) (he.gone_not_live hr)

theorem Sound.left_waiting {a d : α} (hb : b.Sound) (he : b.Ends b' gone) (hw : b'.wants a d)
    (ha : b'.phase a = .pending) (hd : ¬ b'.done d) :
    ¬ gone a ∧ b.phase a = .pending ∧ ¬ b.done d ∧ b.edge a d := by
  have hga : ¬ gone a := fun hg => he.gone_not_live hg (Or.inl ha)
  rw [he.phase a hga] at ha
  have hd' : ¬ b.done d := fun hdone => hd ((he.done d).mpr (Or.inl hdone))
  rcases hb.waits a d ((he.wants a d).mp hw) (Or.inl ha) with hdone | ⟨hedge, -⟩
  · exact absurd hdone hd'
  · exact ⟨hga, ha, hd', hedge⟩

/-- **Tasks that end**, each of them completed, waited for by nobody pending,
or the root of a search that begins here. -/
theorem Tended.ends {roots : List α} (hb : b.Sound) (h : b.Tended searches) (he : b.Ends b' gone)
    (hroots : ∀ r ∈ roots, gone r)
    (hcover : ∀ a d, gone d → b'.phase d = .lost → ¬ gone a → b.phase a = .pending →
      b.edge a d → d ∈ roots) : b'.Tended (roots.map start ++ searches) := by
  refine h.ends_searches he ?_ ?_
  · intro a d hw ha hl hd
    obtain ⟨hga, ha, hd', hedge⟩ := hb.left_waiting he hw ha hd
    by_cases hg : gone d
    · have hlost : b'.phase d = .lost := by
        rcases he.ended d hg with heq | ⟨heq, -⟩
        · exact heq
        · exact absurd ((he.done d).mpr (Or.inr ⟨hg, heq⟩)) hd
      refine ⟨start d, ?_, rfl⟩
      exact mem_append_left _ (mem_map_of_mem (hcover a d hg hlost hga ha hedge))
    · rw [he.phase d hg] at hl
      obtain ⟨c, hc, hr⟩ := h.tended a d ((he.wants a d).mp hw) ha hl hd'
      exact ⟨c, mem_append_right _ hc, hr⟩
  · intro c hc
    rcases mem_append.mp hc with hc | hc
    · obtain ⟨r, hr, rfl⟩ := mem_map.mp hc
      exact Or.inr ⟨r, hroots r hr, hb.present_born r (he.live r (hroots r hr)).present, rfl⟩
    · exact Or.inl hc

/-- **A search that has read everything it queued** may end: whatever was
pending among its finds is lost with it. -/
theorem Tended.finish (hb : b.Sound) (h : b.Tended searches) (hc : c ∈ searches)
    (hread : c.idx = c.queue.length) (he : b.Ends b' gone)
    (hgone : ∀ x ∈ c.found, b.phase x = .pending → gone x) (honly : ∀ x, gone x → x ∈ c.found)
    (hsub : ∀ c' ∈ searches', c' ∈ searches) (hsup : ∀ c' ∈ searches, c' ∈ searches' ∨ c' = c) :
    b'.Tended searches' := by
  have hwf := h.nodup c hc
  -- The queue is closed: all of it has been read.
  have hclosed : ∀ p ∈ c.queue, ∀ x, b.edge x p → x ∈ c.queue := by
    intro p hp
    refine h.read c hc p ?_
    rwa [hread, take_length]
  have hfound : ∀ x ∈ c.queue, b.phase x = .pending → gone x := by
    intro x hx hpend
    refine hgone x (hwf.mem_found.mpr ⟨hx, ?_⟩) hpend
    rintro rfl
    exact h.root c hc (Or.inl hpend)
  refine h.ends_searches he ?_ fun c' hc' => Or.inl (hsub c' hc')
  intro a d hw ha hl hd
  obtain ⟨hga, ha, hd', hedge⟩ := hb.left_waiting he hw ha hd
  have hout : d ∉ c.queue := fun hin => hga (hfound a (hclosed d hin a hedge) ha)
  have hgd : ¬ gone d := fun hg => hout (mem_of_mem_tail (honly d hg))
  rw [he.phase d hgd] at hl
  obtain ⟨c', hc', hr⟩ := h.tended a d ((he.wants a d).mp hw) ha hl hd'
  rcases hsup c' hc' with hc' | rfl
  · exact ⟨c', hc', hr⟩
  · exact absurd (hr ▸ mem_of_mem_head? hwf.head) hout

theorem Tended.begin {r : α} (h : b.Tended searches) (hborn : b.born r)
    (hroot : ¬ (b.phase r).Live) : b.Tended (start r :: searches) := by
  refine .of_knows (forall_mem_cons.mpr ⟨knows_start hborn hroot, fun c => h.knows⟩) ?_
  intro a d hw ha hl hd
  obtain ⟨c, hc, hr⟩ := h.tended a d hw ha hl hd
  exact ⟨c, mem_cons_of_mem _ hc, hr⟩

theorem Tended.expand [DecidableEq α] {next : α → List α} (hb : b.Sound)
    (h : b.Tended searches) (hc : c ∈ searches) (hnext : ∀ p x, x ∈ next p ↔ b.edge x p)
    (hsub : ∀ c' ∈ searches', c' ∈ searches ∨ c' = c.expand next)
    (hsup : ∀ c' ∈ searches, c' ∈ searches' ∨ c' = c)
    (hin : c.expand next ∈ searches') : b.Tended searches' := by
  have hknows := h.knows hc
  have hread : b.Knows (c.expand next) := by
    refine ⟨hknows.wellFormed.expand next, fun x hx => ?_, ?_, fun p hp x hx => ?_⟩
    · rcases mem_expand hx with hx | ⟨p, -, hx⟩
      · exact hknows.born x hx
      · exact (hb.wants_born x p (hb.edge_wants x p ((hnext p x).mp hx))).1
    · rw [expand_root]
      exact hknows.root
    · exact read_expand hp (fun hold => hknows.read p hold x hx) ((hnext p x).mpr hx)
  refine .of_knows (fun c' hc' => ?_) ?_
  · rcases hsub c' hc' with hc' | rfl
    · exact h.knows hc'
    · exact hread
  · intro a d hw ha hl hd
    obtain ⟨c', hc', hr⟩ := h.tended a d hw ha hl hd
    rcases hsup c' hc' with hc' | rfl
    · exact ⟨c', hc', hr⟩
    · exact ⟨_, hin, (expand_root next c').trans hr⟩

theorem Tended.erases {old : α → Prop} (h : b.Tended searches) (he : b.Erases b' old) :
    b'.Tended searches := by
  refine ⟨h.nodup, ?_, ?_, ?_, ?_⟩
  · exact fun c hc x hx => (he.born x).mpr (h.born c hc x hx)
  · exact fun c hc hl => h.root c hc (he.live hl).2
  · exact fun c hc p hp x hx => h.read c hc p hp x ((he.edge x p).mp hx).1
  · intro a d hw ha hl hd
    obtain ⟨hoa, hlive⟩ := he.live (Or.inl ha)
    have hw' := (he.wants a d).mp hw
    have hd' : ¬ b.done d := fun hdone => hd ((he.done d).mpr hdone)
    rw [he.phase a hoa] at ha
    refine h.tended a d hw' ha ?_ hd'
    intro hlive'
    by_cases hod : old d
    · exact he.ended d hod hlive'
    · exact hl (by rwa [he.phase d hod])

end Board

/-! ## The machine -/

/-- A board and the searches under way on it. -/
structure Scene (α : Type) where
  board : Board α
  searches : List (Search α)

/-- One move.  Every move keeps the gate; what it takes to leave nobody
stranded as well is asked for only if the machine is to be `tidy`. -/
inductive Move {α : Type} [DecidableEq α] (tidy : Prop) (x y : Scene α) : Prop
  | submits {new : α → Prop} {deps : α → α → Prop}
      (moved : x.board.Submits y.board new deps) (searches : y.searches = x.searches)
      (joins : tidy → ∀ a d, new a → deps a d → ∀ c ∈ x.searches, d ∉ c.queue.take c.idx)
  | starts {a : α} (moved : x.board.Starts y.board a) (searches : y.searches = x.searches)
  | settles (moved : x.board.Settles y.board) (searches : y.searches = x.searches)
  | ends {gone : α → Prop} {roots : List α} (moved : x.board.Ends y.board gone)
      (roots_gone : ∀ r ∈ roots, gone r)
      (searches : y.searches = roots.map Search.start ++ x.searches)
      (cover : tidy → ∀ a d, gone d → y.board.phase d = .lost → ¬ gone a →
        x.board.phase a = .pending → x.board.edge a d → d ∈ roots)
  | begins {r : α} (board : y.board = x.board) (born : x.board.born r)
      (ended : ¬ (x.board.phase r).Live) (searches : y.searches = Search.start r :: x.searches)
  | reads {c : Search α} {next : α → List α} (board : y.board = x.board) (mem : c ∈ x.searches)
      (edges : ∀ p a, a ∈ next p ↔ x.board.edge a p)
      (sub : ∀ c' ∈ y.searches, c' ∈ x.searches ∨ c' = c.expand next)
      (sup : ∀ c' ∈ x.searches, c' ∈ y.searches ∨ c' = c)
      (read : c.expand next ∈ y.searches)
  | finishes {c : Search α} {gone : α → Prop} (moved : x.board.Ends y.board gone)
      (mem : c ∈ x.searches) (finished : c.idx = c.queue.length)
      (all : ∀ a ∈ c.found, x.board.phase a = .pending → gone a)
      (only : ∀ a, gone a → a ∈ c.found)
      (sub : ∀ c' ∈ y.searches, c' ∈ x.searches)
      (sup : ∀ c' ∈ x.searches, c' ∈ y.searches ∨ c' = c)
  | erases {old : α → Prop} (moved : x.board.Erases y.board old)
      (unneeded : x.board.Unneeded old) (searches : y.searches = x.searches)

def Moves {α : Type} [DecidableEq α] (tidy : Prop) : Scene α → Scene α → Prop :=
  Relation.ReflTransGen (Move tidy)

section Machine

variable {α : Type} [DecidableEq α] {tidy : Prop} {x y z : Scene α}

theorem Move.sound (h : Move tidy x y) (hx : x.board.Sound) : y.board.Sound := by
  cases h with
  | submits moved => exact hx.submits moved
  | starts moved => exact hx.starts moved
  | settles moved => exact hx.settles moved
  | ends moved | finishes moved => exact hx.ends moved
  | begins board | reads board => exact board ▸ hx
  | erases moved unneeded => exact hx.erases moved unneeded

theorem Move.tended (h : Move True x y) (hx : x.board.Sound)
    (ht : x.board.Tended x.searches) : y.board.Tended y.searches := by
  cases h with
  | submits moved searches joins => exact searches ▸ ht.submits hx moved (joins trivial)
  | starts moved searches | settles moved searches =>
    exact searches ▸ ht.same hx moved.toSame moved.done moved.live_iff
  | ends moved roots_gone searches cover =>
    exact searches ▸ ht.ends hx moved roots_gone (cover trivial)
  | begins board born ended searches =>
    rw [board, searches]
    exact ht.begin born ended
  | reads board mem edges sub sup read =>
    rw [board]
    exact ht.expand hx mem edges sub sup read
  | finishes moved mem finished all only sub sup =>
    exact ht.finish hx mem finished moved all only sub sup
  | erases moved unneeded searches => exact searches ▸ ht.erases moved

/-- **The gate holds in every run of the machine.** -/
theorem Moves.sound (h : Moves tidy x y) (hx : x.board.Sound) : y.board.Sound := by
  induction h with
  | refl => exact hx
  | tail _ hlast ih => exact hlast.sound ih

/-- **A tidy machine strands nobody.** -/
theorem Moves.tended (h : Moves True x y) (hx : x.board.Sound)
    (ht : x.board.Tended x.searches) : y.board.Tended y.searches := by
  induction h with
  | refl => exact ht
  | tail hinit hlast ih => exact hlast.tended (Moves.sound hinit hx) ih

theorem Move.over {a : α} (h : Move tidy x y) (hborn : x.board.born a)
    (hover : ¬ (x.board.phase a).Live) : y.board.born a ∧
      (y.board.phase a = x.board.phase a ∨ y.board.phase a = .absent) := by
  cases h with
  | submits moved =>
    exact ⟨(moved.born a).mpr (Or.inl hborn),
      Or.inl (moved.phase a fun hnew => moved.fresh a hnew hborn)⟩
  | starts moved =>
    refine ⟨(moved.born a).mpr hborn, Or.inl (moved.phase a ?_)⟩
    rintro rfl
    exact hover (Or.inl moved.pending)
  | settles moved =>
    exact ⟨(moved.born a).mpr hborn, Or.inl ((moved.phase a).resolve_right fun h => hover h.1)⟩
  | ends moved | finishes moved =>
    exact ⟨(moved.born a).mpr hborn, Or.inl (moved.phase a fun hgone => hover (moved.live a hgone))⟩
  | begins board | reads board =>
    rw [board]
    exact ⟨hborn, Or.inl rfl⟩
  | @erases old moved =>
    refine ⟨(moved.born a).mpr hborn, ?_⟩
    by_cases hold : old a
    · exact Or.inr (moved.erased a hold)
    · exact Or.inl (moved.phase a hold)

/-- **What is over stays over.** -/
theorem Moves.over {a : α} (h : Moves tidy x y) (hborn : x.board.born a)
    (hover : ¬ (x.board.phase a).Live) : y.board.born a ∧ ¬ (y.board.phase a).Live ∧
      (y.board.phase a = x.board.phase a ∨ y.board.phase a = .absent) := by
  induction h with
  | refl => exact ⟨hborn, hover, Or.inl rfl⟩
  | tail _ hlast ih =>
    obtain ⟨hborn, hover, hsince⟩ := ih
    obtain ⟨hborn, hphase⟩ := hlast.over hborn hover
    rcases hphase with hphase | hphase
    · exact ⟨hborn, hphase ▸ hover, hphase ▸ hsince⟩
    · exact ⟨hborn, by simp [hphase, Phase.Live], Or.inr hphase⟩

theorem Moves.refl (x : Scene α) : Moves tidy x x := Relation.ReflTransGen.refl

theorem Moves.single (h : Move tidy x y) : Moves tidy x y := Relation.ReflTransGen.single h

theorem Moves.trans (h : Moves tidy x y) (h' : Moves tidy y z) : Moves tidy x z :=
  Relation.ReflTransGen.trans h h'

theorem Moves.stillborn {a : α} (hfresh : ¬ x.board.born a)
    (hlost : y.board.phase a = .lost) (hphase : ∀ p, p ≠ a → y.board.phase p = x.board.phase p)
    (hedge : ∀ p d, y.board.edge p d ↔ x.board.edge p d) (hfree : ∀ p, ¬ x.board.edge p a)
    (hwants : ∀ p d, y.board.wants p d ↔ x.board.wants p d)
    (hborn : ∀ p, y.board.born p ↔ x.board.born p ∨ p = a)
    (hdone : ∀ p, y.board.done p ↔ x.board.done p) (hsearch : y.searches = x.searches) :
    Moves tidy x y := by
  -- Between the two the task is pending, waits for nothing and nobody waits for it.
  let mid : Scene α :=
    { board := { y.board with phase := fun p => if p = a then .pending else y.board.phase p }
      searches := x.searches }
  have hmid : ∀ p, p ≠ a → mid.board.phase p = y.board.phase p := fun p hp => if_neg hp
  have hstart : mid.board.phase a = .pending := if_pos rfl
  have hin : x.board.Submits mid.board (fun p => p = a) (fun _ _ => False) := by
    refine ⟨?_, ?_, ?_, ?_, ?_, hborn, hdone, ?_⟩
    · rintro p rfl
      exact hfresh
    · rintro p rfl
      exact hstart
    · intro p hp
      exact (hmid p hp).trans (hphase p hp)
    · simpa using hedge
    · simpa using hwants
    · intro p d _ hd
      exact hd.elim
  have hout : mid.board.Ends y.board (fun p => p = a) := by
    refine ⟨⟨fun _ _ => Iff.rfl, fun _ _ => Iff.rfl, fun _ => Iff.rfl⟩, ?_, ?_, ?_, ?_⟩
    · rintro p rfl
      exact Or.inl hstart
    · rintro p rfl
      exact Or.inl hlost
    · exact fun p hp => (hmid p hp).symm
    · intro p
      refine ⟨Or.inl, fun h => h.elim id ?_⟩
      rintro ⟨rfl, hc⟩
      rw [hlost] at hc
      cases hc
  have hnone : ∀ r ∈ ([] : List α), r = a := fun r hr => by cases hr
  refine Moves.trans (.single (.submits hin rfl ?_)) (.single (.ends hout hnone hsearch ?_))
  · exact fun _ _ _ _ hd => hd.elim
  · rintro - p d rfl - - - he
    exact absurd ((hedge p d).mp he) (hfree p)

end Machine

end FlexiQ.Lib
