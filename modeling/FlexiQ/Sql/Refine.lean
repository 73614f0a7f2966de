/-
# `Sql.Refine` — a history of the store is a run of the board

The abstraction: a live row is pending or running, an archived one is
complete or lost, `job_dependencies` is the edges, and the births and
completions of the history are the rest of the board.  `Ledger` is what the
tables and the history keep about each other whatever happens.

Under it each act of a history IS a number of moves of the board's machine.
-/
import FlexiQ.Sql.Timeline

namespace FlexiQ.Sql

open List FlexiQ.Lib FlexiQ.Step

/-! ## The abstraction -/

def phaseOf (s : Store) (id : String) : Phase :=
  match s.jobs.find id with
  | some row => if row.status = .pending then .pending else .running
  | none =>
    match s.archived.find id with
    | some row => if row.status = .complete then .complete else .lost
    | none => .absent

theorem phaseOf_live {s : Store} {id : String} {row : Job} (h : s.jobs.find id = some row) :
    phaseOf s id = if row.status = .pending then .pending else .running := by
  rw [phaseOf, h]

theorem phaseOf_archived {s : Store} {id : String} {row : Job} (h : s.jobs.find id = none)
    (ha : s.archived.find id = some row) :
    phaseOf s id = if row.status = .complete then .complete else .lost := by
  rw [phaseOf, h]
  simp only [ha]

theorem phaseOf_congr {s s' : Store} {id : String} (h : s'.jobs.find id = s.jobs.find id)
    (ha : s'.archived.find id = s.archived.find id) : phaseOf s' id = phaseOf s id := by
  rw [phaseOf, phaseOf, h, ha]

theorem live_phaseOf {s : Store} {id : String} :
    (phaseOf s id).Live ↔ ∃ row, s.jobs.find id = some row := by
  unfold phaseOf
  cases s.jobs.find id with
  | some row =>
    dsimp only
    split <;> simp [Phase.Live]
  | none =>
    cases s.archived.find id with
    | none => simp [Phase.Live]
    | some row =>
      dsimp only
      split <;> simp [Phase.Live]

theorem pending_phaseOf {s : Store} {id : String} (h : phaseOf s id = .pending) :
    ∃ row, s.jobs.find id = some row ∧ row.status = .pending := by
  obtain ⟨row, hrow⟩ := live_phaseOf.mp (Or.inl h)
  refine ⟨row, hrow, ?_⟩
  rw [phaseOf_live hrow] at h
  by_contra hne
  rw [if_neg hne] at h
  cases h

/-- The store as a board, given its past. -/
def boardOf (births : List Birth) (completed : List String) (s : Store) : Board String where
  phase := phaseOf s
  edge a d := (⟨a, d⟩ : Edge) ∈ s.edges
  wants a d := ∃ b ∈ births, b.id = a ∧ d ∈ b.dependsOn
  done d := d ∈ completed
  born a := a ∈ births.map Birth.id

/-- The history as a scene: the cascades are the searches. -/
def Timeline.scene (t : Timeline) : Scene String :=
  ⟨boardOf t.births t.completed t.store, t.cascades.map Cascade.search⟩

/-- What the tables keep about the jobs that were ever enqueued. -/
structure Books (births : List Birth) (s : Store) : Prop where
  ids : (births.map Birth.id).Nodup
  live : ∀ id row, s.jobs.find id = some row → (row.status = .pending ∨ row.status = .running) ∧
    ∃ b ∈ births, b.id = id ∧ b.namespace = row.namespace ∧ row.hasDeps = !b.dependsOn.isEmpty
  archived : ∀ id row, s.archived.find id = some row →
    ∃ b ∈ births, b.id = id ∧ b.namespace = row.namespace
  edges : ∀ e ∈ s.edges, ∃ b ∈ births, ∃ d ∈ births, b.id = e.jobId ∧ d.id = e.dependsOnJobId ∧
    d.id ∈ b.dependsOn ∧ b.namespace = d.namespace
  separate : Separate s

/-- The books, and: a cascade only ever meets jobs its caller may see. -/
structure Ledger (t : Timeline) : Prop where
  books : Books t.births t.store
  sees : ∀ c ∈ t.cascades, ∀ x ∈ c.search.queue,
    ∃ b ∈ t.births, b.id = x ∧ visibleIn c.scope b.namespace = true

theorem Ledger.start : Ledger .start where
  books :=
    { ids := nodup_nil
      live := fun _ _ h => by cases h
      archived := fun _ _ h => by cases h
      edges := fun _ h => by cases h
      separate := fun _ _ h => by cases h }
  sees := fun _ h => by cases h

namespace Books

variable {births : List Birth} {s s' : Store}

theorem unique (h : Books births s) {b b' : Birth} (hb : b ∈ births) (hb' : b' ∈ births)
    (hid : b.id = b'.id) : b = b' :=
  inj_on_of_nodup_map h.ids hb hb' hid

theorem hasDeps_of_edge (h : Books births s) {id dep : String} {row : Job}
    (hrow : s.jobs.find id = some row) (he : (⟨id, dep⟩ : Edge) ∈ s.edges) :
    row.hasDeps = true := by
  obtain ⟨-, b, hb, hid, -, hdeps⟩ := h.live id row hrow
  obtain ⟨b', hb', d, -, hid', -, hmem, -⟩ := h.edges _ he
  rw [h.unique hb hb' (hid.trans hid'.symm)] at hdeps
  rw [hdeps]
  cases hlist : b'.dependsOn with
  | nil =>
    rw [hlist] at hmem
    cases hmem
  | cons _ _ => rfl

theorem born_of_edge (h : Books births s) {a d : String} (he : (⟨a, d⟩ : Edge) ∈ s.edges) :
    a ∈ births.map Birth.id ∧ d ∈ births.map Birth.id := by
  obtain ⟨b, hb, b', hb', hid, hid', -⟩ := h.edges _ he
  exact ⟨mem_map.mpr ⟨b, hb, hid⟩, mem_map.mpr ⟨b', hb', hid'⟩⟩

end Books

/-! ## What a transaction does to the books and to the board -/

/-- A change of the claims, the steps and the dead letters only. -/
structure Untouched (s s' : Store) : Prop where
  jobs : s'.jobs = s.jobs
  archived : s'.archived = s.archived
  edges : s'.edges = s.edges

section Tables

variable {births : List Birth} {completed : List String} {s s' : Store} {id dep : String}
  {row row' : Job} {rows : List Job}

theorem Books.untouched (h : Books births s) (hu : Untouched s s') : Books births s' where
  ids := h.ids
  live := fun id row hrow => h.live id row (hu.jobs ▸ hrow)
  archived := fun id row hrow => h.archived id row (hu.archived ▸ hrow)
  edges := fun e he => h.edges e (hu.edges ▸ he)
  separate := by
    intro k row hrow
    rw [hu.archived]
    exact h.separate k row (hu.jobs ▸ hrow)

theorem same_of_edges {completed' : List String} (h : s'.edges = s.edges) :
    (boardOf births completed s).Same (boardOf births completed' s') := by
  refine ⟨fun a d => ?_, fun _ _ => Iff.rfl, fun _ => Iff.rfl⟩
  show _ ∈ s'.edges ↔ _ ∈ s.edges
  rw [h]

theorem settles_untouched (hu : Untouched s s') :
    (boardOf births completed s).Settles (boardOf births completed s') :=
  ⟨same_of_edges hu.edges, fun _ => Iff.rfl,
    fun _ => Or.inl (phaseOf_congr (by rw [hu.jobs]) (by rw [hu.archived]))⟩

def LeavingFrom (s : Store) (rows : List Job) : Prop :=
  ∀ r ∈ rows, ∃ row, s.jobs.find r.id = some row ∧ r.namespace = row.namespace ∧
    (r.status = .complete → row.status = .running)

theorem CancelledFrom.not_complete (h : CancelledFrom s rows) :
    ∀ r ∈ rows, r.status ≠ .complete := by
  intro r hr hc
  obtain ⟨-, -, -, hstatus, -⟩ := h r hr
  rw [hstatus] at hc
  cases hc

theorem CancelledFrom.leaving (h : CancelledFrom s rows) : LeavingFrom s rows := by
  intro r hr
  obtain ⟨row, hrow, -, -, hns⟩ := h r hr
  exact ⟨row, hrow, hns, fun hc => absurd hc (h.not_complete r hr)⟩

theorem Books.archives (h : Books births s) (ha : Archives s s' rows) (hfrom : LeavingFrom s rows) :
    Books births s' where
  ids := h.ids
  live := by
    intro id row hrow
    rw [ha.jobs] at hrow
    split at hrow
    · cases hrow
    · exact h.live id row hrow
  archived := by
    intro id row hrow
    by_cases hid : id ∈ rows.map Job.id
    · obtain ⟨r, hr, rfl⟩ := mem_map.mp hid
      rw [ha.moved r hr] at hrow
      cases hrow
      obtain ⟨row, hlive, hns, -⟩ := hfrom r hr
      obtain ⟨-, b, hb, hbid, hbns, -⟩ := h.live _ _ hlive
      exact ⟨b, hb, hbid, hbns.trans hns.symm⟩
    · rw [ha.archived id hid] at hrow
      exact h.archived id row hrow
  edges := fun e he => h.edges e (ha.edges ▸ he)
  separate := by
    intro k row hrow
    rw [ha.jobs] at hrow
    split at hrow
    · cases hrow
    · next hk =>
      rw [ha.archived k hk]
      exact h.separate k row hrow

theorem phaseOf_archives (ha : Archives s s' rows) {r : Job} (hr : r ∈ rows) :
    phaseOf s' r.id = if r.status = .complete then .complete else .lost := by
  have hgone : s'.jobs.find r.id = none := by
    rw [ha.jobs, if_pos (mem_map_of_mem hr)]
  rw [phaseOf_archived hgone (ha.moved r hr)]
  rfl

/-- **Archiving ends jobs**: the complete ones are done, the others lost. -/
theorem ends_archives {completed' : List String} (ha : Archives s s' rows)
    (hfrom : LeavingFrom s rows) (hdone : ∀ k, k ∈ completed' ↔
      k ∈ completed ∨ ∃ r ∈ rows, r.id = k ∧ r.status = .complete) :
    (boardOf births completed s).Ends (boardOf births completed' s') (· ∈ rows.map Job.id) := by
  refine ⟨same_of_edges ha.edges, ?_, ?_, ?_, ?_⟩
  · intro a hmem
    obtain ⟨r, hr, rfl⟩ := mem_map.mp hmem
    obtain ⟨row, hrow, -⟩ := hfrom r hr
    exact live_phaseOf.mpr ⟨row, hrow⟩
  · intro a hmem
    obtain ⟨r, hr, rfl⟩ := mem_map.mp hmem
    obtain ⟨row, hrow, -, hrun⟩ := hfrom r hr
    show phaseOf s' r.id = _ ∨ phaseOf s' r.id = _ ∧ phaseOf s r.id = _
    rw [phaseOf_archives ha hr]
    by_cases hc : r.status = .complete
    · right
      rw [if_pos hc, phaseOf_live hrow, hrun hc]
      exact ⟨rfl, rfl⟩
    · left
      rw [if_neg hc]
  · intro a hmem
    refine phaseOf_congr ?_ (ha.archived a hmem)
    rw [ha.jobs, if_neg hmem]
  · intro a
    show a ∈ completed' ↔ a ∈ completed ∨ _ ∧ phaseOf s' a = _
    rw [hdone]
    refine or_congr_right ⟨?_, ?_⟩
    · rintro ⟨r, hr, rfl, hc⟩
      refine ⟨mem_map_of_mem hr, ?_⟩
      rw [phaseOf_archives ha hr, if_pos hc]
    · rintro ⟨hmem, hphase⟩
      obtain ⟨r, hr, rfl⟩ := mem_map.mp hmem
      refine ⟨r, hr, rfl, ?_⟩
      rw [phaseOf_archives ha hr] at hphase
      by_contra hc
      rw [if_neg hc] at hphase
      cases hphase

/-- `row'` is `row` at another point of its life. -/
def SameJob (row row' : Job) : Prop :=
  row'.namespace = row.namespace ∧ row'.hasDeps = row.hasDeps

theorem Books.rewrites (h : Books births s) (hw : Rewrites s s' id row')
    (hrow : s.jobs.find id = some row) (hsame : SameJob row row')
    (hstatus : row'.status = .pending ∨ row'.status = .running) : Books births s' where
  ids := h.ids
  live := by
    intro k r hr
    rw [hw.jobs] at hr
    split at hr
    · next hk =>
      cases hr
      obtain ⟨-, b, hb, hbid, hbns, hbdeps⟩ := h.live id row hrow
      exact ⟨hstatus, b, hb, hbid.trans hk.symm, hbns.trans hsame.1.symm, hsame.2.trans hbdeps⟩
    · exact h.live k r hr
  archived := fun k r hr => h.archived k r (hw.archived ▸ hr)
  edges := fun e he => h.edges e (hw.edges ▸ he)
  separate := by
    intro k r hr
    rw [hw.archived]
    rw [hw.jobs] at hr
    split at hr
    · next hk => exact h.separate k row (hk ▸ hrow)
    · exact h.separate k r hr

theorem Rewrites.phaseOf_ne {k : String} (hw : Rewrites s s' id row') (hk : k ≠ id) :
    phaseOf s' k = phaseOf s k :=
  phaseOf_congr (by rw [hw.jobs, if_neg hk]) (by rw [hw.archived])

theorem settles_rewrites (hw : Rewrites s s' id row') (hrow : s.jobs.find id = some row)
    (hstatus : row'.status = .pending ∨ row'.status = row.status) :
    (boardOf births completed s).Settles (boardOf births completed s') := by
  refine ⟨same_of_edges hw.edges, fun _ => Iff.rfl, fun k => ?_⟩
  show phaseOf s' k = phaseOf s k ∨ (phaseOf s k).Live ∧ phaseOf s' k = .pending
  by_cases hk : k = id
  · subst hk
    have hrow' : s'.jobs.find k = some row' := by rw [hw.jobs, if_pos rfl]
    rw [phaseOf_live hrow']
    rcases hstatus with hp | hsame
    · right
      exact ⟨live_phaseOf.mpr ⟨row, hrow⟩, if_pos hp⟩
    · left
      rw [phaseOf_live hrow, hsame]
  · exact Or.inl (hw.phaseOf_ne hk)

/-- A job whose gate is open has nothing unfinished on the board to wait
for. -/
theorem Books.gate_open (h : Books births s) (hgate : depsSatisfied s id = true) {d : String}
    (he : (⟨id, d⟩ : Edge) ∈ s.edges) : ¬ (phaseOf s d).Blocks := by
  obtain ⟨hlive, harch⟩ := depsSatisfied_iff.mp hgate d he
  cases hrow : s.jobs.find d with
  | some row =>
    exfalso
    have hc := hlive row hrow
    rcases (h.live d row hrow).1 with hs | hs <;> rw [hs] at hc <;> cases hc
  | none =>
    cases hrow' : s.archived.find d with
    | some row =>
      rw [phaseOf_archived hrow hrow', if_pos (harch row hrow')]
      rintro (hb | hb | hb) <;> cases hb
    | none =>
      rw [phaseOf, hrow]
      simp only [hrow']
      rintro (hb | hb | hb) <;> cases hb

/-- **A dequeue starts a job whose gate is open.** -/
theorem starts_rewrites {now : Int} (h : Books births s) (hw : Rewrites s s' id (row.startedBy now))
    (hrow : s.jobs.find id = some row) (hpend : row.status = .pending)
    (hgate : row.hasDeps = true → depsSatisfied s id = true) :
    (boardOf births completed s).Starts (boardOf births completed s') id := by
  refine ⟨same_of_edges hw.edges, fun _ => Iff.rfl, ?_, ?_, ?_, fun k hk => hw.phaseOf_ne hk⟩
  · show phaseOf s id = _
    rw [phaseOf_live hrow, if_pos hpend]
  · intro d he
    exact h.gate_open (hgate (h.hasDeps_of_edge hrow he)) he
  · show phaseOf s' id = _
    have hrow' : s'.jobs.find id = some (row.startedBy now) := by rw [hw.jobs, if_pos rfl]
    rw [phaseOf_live hrow']
    rfl

/-! ## Enqueueing -/

def birthOf (m : Job × List String) : Birth := ⟨m.1.id, m.1.namespace, m.2⟩

structure Valid (s : Store) (members : List (Job × List String)) : Prop where
  pending : ∀ m ∈ members, m.1.status = .pending
  hasDeps : ∀ m ∈ members, m.1.hasDeps = !m.2.isEmpty
  deps : ∀ m ∈ members, ∀ dep ∈ m.2,
    (∃ m' ∈ members, m'.1.id = dep ∧ m'.1.namespace = m.1.namespace) ∨
      validateDependency s dep m.1.namespace = true

theorem validateDependency_eq_true {ns : Scope} (h : validateDependency s dep ns = true) :
    (∃ row, s.jobs.find dep = some row ∧ row.namespace = ns) ∨
      (s.jobs.find dep = none ∧
        ∃ row, s.archived.find dep = some row ∧ row.status = .complete ∧ row.namespace = ns) := by
  unfold validateDependency at h
  cases hrow : s.jobs.find dep with
  | some row =>
    simp only [hrow, Bool.not_eq_true', Bool.or_eq_false_iff, decide_eq_false_iff_not,
      not_not] at h
    exact Or.inl ⟨row, rfl, h.2⟩
  | none =>
    cases harch : s.archived.find dep with
    | some row =>
      simp only [hrow, harch, Bool.and_eq_true, decide_eq_true_eq] at h
      exact Or.inr ⟨rfl, row, rfl, h⟩
    | none =>
      simp only [hrow, harch] at h
      cases h

theorem Books.valid_birth (h : Books births s) {ns : Scope}
    (hv : validateDependency s dep ns = true) : ∃ b ∈ births, b.id = dep ∧ b.namespace = ns := by
  rcases validateDependency_eq_true hv with ⟨row, hrow, hns⟩ | ⟨-, row, hrow, -, hns⟩
  · obtain ⟨-, b, hb, hbid, hbns, -⟩ := h.live dep row hrow
    exact ⟨b, hb, hbid, hbns.trans hns⟩
  · obtain ⟨b, hb, hbid, hbns⟩ := h.archived dep row hrow
    exact ⟨b, hb, hbid, hbns.trans hns⟩

variable {members : List (Job × List String)}

theorem Books.inserts (h : Books births s) (hi : Inserts s s' members) (hv : Valid s members)
    (hids : ((births ++ members.map birthOf).map Birth.id).Nodup) :
    Books (births ++ members.map birthOf) s' := by
  have hold : ∀ {b}, b ∈ births → b ∈ births ++ members.map birthOf :=
    fun hb => mem_append_left _ hb
  have hnew : ∀ {m}, m ∈ members → birthOf m ∈ births ++ members.map birthOf :=
    fun hm => mem_append_right _ (mem_map_of_mem hm)
  have hfresh : ∀ m ∈ members, ∀ b ∈ births, b.id ≠ m.1.id := by
    intro m hm b hb heq
    rw [map_append, nodup_append'] at hids
    exact hids.2.2 (mem_map_of_mem hb)
      (mem_map.mpr ⟨birthOf m, mem_map_of_mem hm, heq.symm⟩)
  refine ⟨hids, ?_, ?_, ?_, ?_⟩
  · intro id row hrow
    by_cases hid : id ∈ members.map (fun m => m.1.id)
    · obtain ⟨m, hm, rfl⟩ := mem_map.mp hid
      rw [hi.added m hm] at hrow
      cases hrow
      exact ⟨Or.inl (hv.pending m hm), birthOf m, hnew hm, rfl, rfl, hv.hasDeps m hm⟩
    · rw [hi.jobs id hid] at hrow
      obtain ⟨hs, b, hb, hrest⟩ := h.live id row hrow
      exact ⟨hs, b, hold hb, hrest⟩
  · intro id row hrow
    rw [hi.archived] at hrow
    obtain ⟨b, hb, hrest⟩ := h.archived id row hrow
    exact ⟨b, hold hb, hrest⟩
  · intro e he
    rw [hi.edges, mem_append, mem_flatMap] at he
    rcases he with he | ⟨m, hm, he⟩
    · obtain ⟨b, hb, d, hd, hrest⟩ := h.edges e he
      exact ⟨b, hold hb, d, hold hd, hrest⟩
    · obtain ⟨dep, hdep, rfl⟩ := mem_map.mp he
      rcases hv.deps m hm dep hdep with ⟨m', hm', rfl, hns⟩ | hvalid
      · exact ⟨birthOf m, hnew hm, birthOf m', hnew hm', rfl, rfl, hdep, hns.symm⟩
      · obtain ⟨b, hb, rfl, hns⟩ := h.valid_birth hvalid
        exact ⟨birthOf m, hnew hm, b, hold hb, rfl, rfl, hdep, hns.symm⟩
  · intro k row hrow
    rw [hi.archived]
    by_cases hk : k ∈ members.map (fun m => m.1.id)
    · -- Whatever is archived was born before, and a new id was not.
      obtain ⟨m, hm, rfl⟩ := mem_map.mp hk
      cases harch : s.archived.find m.1.id with
      | none => rfl
      | some old =>
        obtain ⟨b, hb, hbid, -⟩ := h.archived _ _ harch
        exact absurd hbid (hfresh m hm b hb)
    · rw [hi.jobs k hk] at hrow
      exact h.separate k row hrow

/-- **Enqueueing submits jobs** behind what they asked for. -/
theorem submits_inserts (hi : Inserts s s' members) (hv : Valid s members)
    (hids : ((births ++ members.map birthOf).map Birth.id).Nodup) :
    (boardOf births completed s).Submits
      (boardOf (births ++ members.map birthOf) completed s')
      (· ∈ members.map (fun m => m.1.id)) (fun a d => ∃ m ∈ members, m.1.id = a ∧ d ∈ m.2) := by
  rw [map_append, nodup_append'] at hids
  have hbirth : ∀ a, a ∈ (members.map birthOf).map Birth.id ↔
      a ∈ members.map (fun m => m.1.id) := by
    intro a
    rw [map_map]
    rfl
  refine ⟨?_, ?_, ?_, ?_, ?_, ?_, fun _ => Iff.rfl, ?_⟩
  · intro a hnew hborn
    exact hids.2.2 hborn ((hbirth a).mpr hnew)
  · intro a hnew
    obtain ⟨m, hm, rfl⟩ := mem_map.mp hnew
    show phaseOf s' m.1.id = _
    rw [phaseOf_live (hi.added m hm), if_pos (hv.pending m hm)]
  · intro a hnew
    exact phaseOf_congr (hi.jobs a hnew) (by rw [hi.archived])
  · intro a d
    show _ ∈ s'.edges ↔ _ ∈ s.edges ∨ _
    rw [hi.edges, mem_append, mem_flatMap]
    refine or_congr_right ⟨?_, ?_⟩
    · rintro ⟨m, hm, he⟩
      obtain ⟨dep, hdep, heq⟩ := mem_map.mp he
      cases heq
      exact ⟨mem_map_of_mem hm, m, hm, rfl, hdep⟩
    · rintro ⟨-, m, hm, rfl, hd⟩
      exact ⟨m, hm, mem_map.mpr ⟨d, hd, rfl⟩⟩
  · intro a d
    constructor
    · rintro ⟨b, hb, hid, hd⟩
      rcases mem_append.mp hb with hb | hb
      · exact Or.inl ⟨b, hb, hid, hd⟩
      · obtain ⟨m, hm, rfl⟩ := mem_map.mp hb
        exact Or.inr ⟨mem_map.mpr ⟨m, hm, hid⟩, m, hm, hid, hd⟩
    · rintro (⟨b, hb, hid, hd⟩ | ⟨-, m, hm, hid, hd⟩)
      · exact ⟨b, mem_append_left _ hb, hid, hd⟩
      · exact ⟨birthOf m, mem_append_right _ (mem_map_of_mem hm), hid, hd⟩
  · intro a
    show a ∈ (births ++ members.map birthOf).map Birth.id ↔ _
    rw [map_append, mem_append, hbirth]
    rfl
  · intro a d hnew hdep
    obtain ⟨m, hm, rfl, hd⟩ := hdep
    rcases hv.deps m hm d hd with ⟨m', hm', rfl, -⟩ | hvalid
    · exact Or.inl (mem_map_of_mem hm')
    · right
      show (phaseOf s d).Live ∨ phaseOf s d = .complete
      rcases validateDependency_eq_true hvalid with ⟨row, hrow, -⟩ | ⟨hnone, row, hrow, hc, -⟩
      · exact Or.inl (live_phaseOf.mpr ⟨row, hrow⟩)
      · right
        rw [phaseOf_archived hnone hrow, if_pos hc]

/-! ## Purging -/

/-- Some live job still waits for `id`. -/
def awaited (s : Store) (id : String) : Bool :=
  (dependentsOf s id).any fun dep => (s.jobs.find dep).isSome

theorem Books.purges (h : Books births s) (ids : List String) :
    Books births (purgeArchivedIdBatch s ids) where
  ids := h.ids
  live := h.live
  archived := by
    intro id row hrow
    have hfind : (s.archived.delete (fun row => row.id ∈ ids)).find id = some row := hrow
    rw [Table.find_delete, Option.filter_eq_some_iff] at hfind
    exact h.archived id row hfind.1
  edges := fun e he => h.edges e (mem_of_mem_filter he)
  separate := by
    intro k row hrow
    show (s.archived.delete (fun row => row.id ∈ ids)).find k = none
    rw [Table.find_delete, h.separate k row hrow]
    rfl

/-- **A purge erases** ended jobs, with their edges. -/
theorem erases_purge (h : Books births s) {ids : List String}
    (hids : ∀ id ∈ ids, ∃ row, s.archived.find id = some row) :
    (boardOf births completed s).Erases
      (boardOf births completed (purgeArchivedIdBatch s ids)) (· ∈ ids) := by
  have hdead : ∀ id ∈ ids, s.jobs.find id = none := by
    intro id hid
    obtain ⟨row, hrow⟩ := hids id hid
    cases hlive : s.jobs.find id with
    | none => rfl
    | some live =>
      rw [h.separate id live hlive] at hrow
      cases hrow
  have hfind : ∀ id, (purgeArchivedIdBatch s ids).archived.find id =
      (s.archived.find id).filter (fun row => !decide (row.id ∈ ids)) :=
    fun id => Table.find_delete s.archived _ id
  refine ⟨?_, ?_, ?_, ?_, fun _ _ => Iff.rfl, fun _ => Iff.rfl, fun _ => Iff.rfl⟩
  · intro id hid hlive
    obtain ⟨row, hrow⟩ := live_phaseOf.mp hlive
    rw [hdead id hid] at hrow
    cases hrow
  · intro id hid
    show phaseOf (purgeArchivedIdBatch s ids) id = .absent
    obtain ⟨row, hrow⟩ := hids id hid
    have hnone : (purgeArchivedIdBatch s ids).archived.find id = none := by
      rw [hfind, hrow]
      simp [Option.filter, Table.key_of_find hrow, hid]
    have hgone : (purgeArchivedIdBatch s ids).jobs.find id = none := hdead id hid
    rw [phaseOf, hgone]
    simp only [hnone]
  · intro id hid
    refine phaseOf_congr rfl ?_
    rw [hfind]
    cases hrow : s.archived.find id with
    | none => rfl
    | some row => simp [Option.filter, Table.key_of_find hrow, hid]
  · intro a d
    show _ ∈ List.filter _ s.edges ↔ _ ∈ s.edges ∧ _
    simp [mem_filter]

end Tables

end FlexiQ.Sql
