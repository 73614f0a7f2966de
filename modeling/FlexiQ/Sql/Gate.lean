/-
# `Sql.Gate` — the dependency gate, and the dependents left behind it

What a whole history keeps.  The gate: a dequeue hands out a job only if
everything it was enqueued to wait for has completed, in every history whose
purges spare what is still waited for.  `deps_satisfied` takes a missing row
for a finished one, and `delete_job_relations` deletes the very edges it
reads; a purge of a cancelled parent opens the gate.

The cascade: between two operations nobody pending waits for a job that will
never complete, in every history whose acts are polite.
-/
import FlexiQ.Sql.Histories

namespace FlexiQ.Sql

open FlexiQ.Lib FlexiQ.Step

theorem sound_start : Timeline.start.scene.board.Sound := by
  have hnone : ∀ a d, ¬ Timeline.start.scene.board.wants a d := by
    rintro a d ⟨b, hb, -⟩
    cases hb
  have habsent : ∀ a, Timeline.start.scene.board.phase a = .absent := fun _ => rfl
  refine ⟨?_, ?_, ?_, ?_, ?_, ?_⟩
  · intro a d he
    cases he
  · exact fun a d hw => absurd hw (hnone a d)
  · exact fun a hp => absurd (habsent a) hp
  · intro a hp
    rw [habsent a] at hp
    cases hp
  · exact fun a d hw => absurd hw (hnone a d)
  · exact fun a d hw => absurd hw (hnone a d)

variable {serde : Serde} {t : Timeline}

/-- Histories whose purges spare what is needed keep the books, and a sound
board. -/
theorem sound_of_reaches (h : Reaches (Timeline.next serde) Spares .start t) :
    Ledger t ∧ t.scene.board.Sound := by
  refine h.invariant (I := fun t => Ledger t ∧ t.scene.board.Sound) ⟨.start, sound_start⟩ ?_
  rintro t label t' ⟨hl, hsound⟩ hspares hnext
  have hstep : Advances False t t' := next_advances hl hsound hspares (fun h => h.elim) hnext
  exact ⟨hstep.1, hstep.2.sound hsound⟩

def noJson : Serde := ⟨fun _ => none, fun _ => ""⟩

def plainJob (dependsOn : List String) : NewJob :=
  ⟨"q", "task", [], 0, 0, 3, 1000, none, none, none, dependsOn, none, none, none, none, none⟩

def dequeueOne : Dequeue := ⟨"q", none, .fifo, none⟩

def completedParent : List (Int × Act) :=
  [(0, .enqueue (plainJob []) "parent"), (0, .enqueue (plainJob ["parent"]) "child"),
    (10, .dequeue dequeueOne), (20, .complete "parent" none none), (200, .purge (.globalTtl 100))]

def cancelledChain : List (Int × Act) :=
  [(0, .enqueue (plainJob []) "head"), (0, .enqueue (plainJob ["head"]) "middle"),
    (0, .enqueue (plainJob ["middle"]) "tail"), (0, .enqueue (plainJob []) "other"),
    (0, .enqueue (plainJob ["other"]) "waiting"), (10, .cancelJob "head" none),
    (11, .cascadeRead 0), (12, .cascadeRead 0), (13, .cascadeRead 0), (14, .cascadeWrite 0)]

/-- **A cascade is reachability**, in any graph of dependencies. -/
theorem cascade_is_reachability {s : Store} (hsep : Separate s) (root reason : String)
    (scope : Scope) (now : Int) :
    ∃ rows s', cascadeCancel s root reason scope now = .ok (rows, s') ∧ Archives s s' rows ∧
      ∀ r, r ∈ rows ↔ ∃ row ∈ s.jobs.rows,
        (row.status = .pending ∧ visibleIn scope row.namespace = true) ∧
        (Relation.ReflTransGen (fun p a => (⟨a, p⟩ : Edge) ∈ s.edges) root row.id ∧ row.id ≠ root) ∧
        r = row.finish .cancelled now (some (reason ++ ": " ++ root)) := by
  have hfound := fun a => @Search.mem_found_iff String _ (dependentsOf s) root a
    (s.edges.map Edge.jobId) (fun p b hb => List.mem_map.mpr ⟨_, mem_dependentsOf.mp hb, rfl⟩)
    (s.edges.length + 1) (by simp)
  simp only [mem_dependentsOf] at hfound
  unfold cascadeCancel
  dsimp only
  split
  · next hnone =>
    refine ⟨[], s, rfl, .nil s, fun r => ⟨nofun, ?_⟩⟩
    rintro ⟨row, -, -, hreach, -⟩
    have hin := (hfound row.id).mpr hreach
    rw [List.isEmpty_iff.mp hnone] at hin
    cases hin
  · obtain ⟨rows, s', hrun⟩ := cascadeArchive_isOk hsep _ reason root scope now
    refine ⟨rows, s', hrun, (cascadeArchive_ok hrun).1, fun r => ?_⟩
    obtain ⟨s₁, -, hrows⟩ := bind_eq_ok.mp hrun
    cases hrows
    simp only [List.mem_map, List.mem_filter, Bool.and_eq_true, decide_eq_true_eq, hfound]
    constructor
    · rintro ⟨row, ⟨hmem, ⟨hreach, hpend⟩, hvis⟩, rfl⟩
      exact ⟨row, hmem, ⟨hpend, hvis⟩, hreach, rfl⟩
    · rintro ⟨row, hmem, ⟨hpend, hvis⟩, hreach, rfl⟩
      exact ⟨row, ⟨hmem, ⟨hreach, hpend⟩, hvis⟩, rfl⟩

theorem chain_in_reach : ∃ t, Reaches (Timeline.next noJson) Spares .start t ∧
    t.store.edges = [⟨"middle", "head"⟩, ⟨"tail", "middle"⟩, ⟨"waiting", "other"⟩] ∧
    ∃ rows s', cascadeCancel t.store "head" "gone" none 10 = .ok (rows, s') ∧
      Archives t.store s' rows := by
  refine exists_reached_and (cancelledChain.take 5) fun t h _ => ?_
  obtain ⟨rows, s', hrun, harch, -⟩ := cascade_is_reachability
    (sound_of_reaches h).1.books.separate "head" "gone" none 10
  exact ⟨rows, s', hrun, harch⟩

/-! ## The end of a job -/

/-- **The end of a job is final.** -/
theorem end_is_final {t' : Timeline} (h : Reaches (Timeline.next serde) Spares .start t)
    (h' : Reaches (Timeline.next serde) Spares t t') {id : String}
    (hborn : id ∈ t.births.map Birth.id) (hout : t.store.jobs.find id = none) :
    t'.store.jobs.find id = none ∧
      (phaseOf t'.store id = phaseOf t.store id ∨ phaseOf t'.store id = .absent) := by
  have hstart := sound_of_reaches h
  obtain ⟨-, -, hmoves⟩ := h'.invariant
    (I := fun t' => Ledger t' ∧ t'.scene.board.Sound ∧ Moves False t.scene t'.scene)
    ⟨hstart.1, hstart.2, .refl _⟩ (by
      rintro t₁ label t₂ ⟨hl, hsound, hmoves⟩ hspares hnext
      have hstep : Advances False t₁ t₂ := next_advances hl hsound hspares (fun h => h.elim) hnext
      exact ⟨hstep.1, hstep.2.sound hsound, hmoves.trans hstep.2⟩)
  obtain ⟨-, hover, hphase⟩ := hmoves.over hborn fun hlive => by
    obtain ⟨row, hrow⟩ := live_phaseOf.mp hlive
    cases hout.symm.trans hrow
  refine ⟨?_, hphase⟩
  exact Option.eq_none_iff_forall_ne_some.mpr fun row hrow => hover (live_phaseOf.mpr ⟨row, hrow⟩)

theorem parent_stays_out : ∃ t, Reaches (Timeline.next noJson) Spares .start t ∧
    "parent" ∈ t.births.map Birth.id ∧ ∀ t', Reaches (Timeline.next noJson) Spares t t' →
      t'.store.jobs.find "parent" = none := by
  refine exists_reached_imp (P := fun t => "parent" ∈ t.births.map Birth.id ∧
    t.store.jobs.find "parent" = none) completedParent fun t h hP => ?_
  exact ⟨hP.1, fun t' h' => (end_is_final h h' hP.1 hP.2).1⟩

end FlexiQ.Sql
