/-
# `Workflow.Snapshot` — runs, rows and jobs, and how they move

What a run of a workflow is, without the stores it lives in: the state of each
run and the graph it was submitted with, the status of each node's row, the
jobs that name a node, and the node of each run that failed FIRST.  The last
is in no store; it is what the argument about fail-fast turns on.

`Move` lists what submissions and reports do to a snapshot.  A client that is
submitting a run holds it (the tag): nobody else adds a row or a job to it.
-/
import FlexiQ.Workflow.Jobs

namespace FlexiQ.Workflow

open Option

open Function (update update_apply update_self update_of_ne)

/-- The workflow tables and the job store, as far as a run's completion goes
by them. -/
@[ext] structure Snapshot where
  state : String → Option WorkflowState
  graph : String → Option (List TopologicalNode)
  row : String × String → Option WorkflowNodeStatus
  job : String → Option ((String × String) × JobStatus)
  first : String → Option String

namespace Snapshot

/-- The submission of the run is over. -/
def Open (s : Snapshot) (r : String) : Prop := ∃ st, s.state r = some st ∧ st ≠ .pending

/-- Every job of the node succeeded. -/
def Fine (s : Snapshot) (k : String × String) : Prop :=
  ∀ id st, s.job id = some (k, st) → st = .complete

/-- A job of the node is over, and did not succeed. -/
def Lost (s : Snapshot) (k : String × String) : Prop :=
  ∃ id st, s.job id = some (k, st) ∧ st.finished = true ∧ st ≠ .complete

/-- Every node of the run's graph has a row. -/
def Rowed (s : Snapshot) (r : String) : Prop :=
  ∃ g, s.graph r = some g ∧ ∀ topo ∈ g, s.row (r, topo.name) ≠ none

/-- The jobs of a run belong to nodes with rows. -/
def Homed (s : Snapshot) (r : String) : Prop :=
  ∀ id n st, s.job id = some ((r, n), st) → s.row (r, n) ≠ none

/-- The statuses of rows as submissions and reports write them. -/
def plain : WorkflowNodeStatus → Bool
  | .pending | .completed | .failed | .skipped | .cacheHit => true
  | _ => false

structure Sane (s : Snapshot) : Prop where
  unique : ∀ {id id' k st st'}, s.job id = some (k, st) → s.job id' = some (k, st') → id = id'
  owned : ∀ {id r n st}, s.job id = some ((r, n), st) → s.state r ≠ none
  homed : ∀ {r}, s.Open r → s.Homed r
  rooted : ∀ {r n}, s.row (r, n) ≠ none → s.state r ≠ none
  done : ∀ {k st}, s.row k = some st → st = .completed ∨ st = .cacheHit → s.Fine k
  rowed : ∀ {r}, s.Open r → s.Rowed r
  plain : ∀ {k st}, s.row k = some st → plain st = true
  unfailed : ∀ {r n st}, s.first r = none → s.row (r, n) = some st →
    st ≠ .skipped ∧ st ≠ .failed
  first : ∀ {r f}, s.first r = some f → s.row (r, f) = some .failed ∧ s.Lost (r, f)

/-- What a client relies on, while it holds the run `t` or none. -/
structure Rely (t : Option String) (s s' : Snapshot) : Prop where
  opened : ∀ {r}, s.Open r → s'.Open r
  graph : ∀ {r g}, s.graph r = some g → s'.graph r = some g
  rows : ∀ {k}, s.row k ≠ none → s'.row k ≠ none
  ended : ∀ {k st}, s.row k = some st → st.isTerminal = true →
    ∃ st', s'.row k = some st' ∧ st'.isTerminal = true
  jobs : ∀ {id k st}, s.job id = some (k, st) →
    ∃ st', s'.job id = some (k, st') ∧ (st.finished = true → st' = st)
  norow : ∀ {r n}, s.Open r ∨ t = some r → s.row (r, n) = none → s'.row (r, n) = none
  nojob : ∀ {r id n st'}, s.Open r ∨ t = some r → s'.job id = some ((r, n), st') →
    ∃ st, s.job id = some ((r, n), st)
  own : ∀ {r}, t = some r → s.state r = some .pending → s'.state r = some .pending
  first : ∀ {r f}, s.first r = some f → s'.first r = some f

/-- The run a client holds is one that is being submitted. -/
def Stands (s : Snapshot) (t : Option String) : Prop :=
  ∀ r, t = some r → s.state r = some .pending

/-- Two clients do not hold the same run. -/
def Apart (t u : Option String) : Prop := ∀ r, t = some r → u ≠ some r

section Rely

variable {t : Option String} {s s₁ s' : Snapshot}

theorem Rely.refl (t : Option String) (s : Snapshot) : Rely t s s where
  opened h := h
  graph h := h
  rows h := h
  ended h hend := ⟨_, h, hend⟩
  jobs h := ⟨_, h, fun _ => rfl⟩
  norow _ h := h
  nojob _ h := ⟨_, h⟩
  own _ h := h
  first h := h

theorem Rely.stands (h : Rely t s s') (hs : s.Stands t) : s'.Stands t :=
  fun r hr => h.own hr (hs r hr)

theorem Rely.shut (h : Rely t s s') {r : String} (hr : s.Open r ∨ t = some r) :
    s'.Open r ∨ t = some r := hr.imp_left h.opened

theorem Rely.trans (h : Rely t s s₁) (h' : Rely t s₁ s') : Rely t s s' where
  opened hr := h'.opened (h.opened hr)
  graph hg := h'.graph (h.graph hg)
  rows hk := h'.rows (h.rows hk)
  ended hk hend := by
    obtain ⟨st₁, hk₁, hend₁⟩ := h.ended hk hend
    exact h'.ended hk₁ hend₁
  jobs hid := by
    obtain ⟨st₁, hid₁, hsame₁⟩ := h.jobs hid
    obtain ⟨st', hid', hsame'⟩ := h'.jobs hid₁
    refine ⟨st', hid', fun hover => ?_⟩
    obtain rfl := hsame₁ hover
    exact hsame' hover
  norow hr hk := h'.norow (h.shut hr) (h.norow hr hk)
  nojob hr hid := by
    obtain ⟨st₁, hid₁⟩ := h'.nojob (h.shut hr) hid
    exact h.nojob hr hid₁
  own hr hpending := h'.own hr (h.own hr hpending)
  first hf := h'.first (h.first hf)

theorem Rely.fine (h : Rely t s s') {r n : String} (hopen : s.Open r) (hfine : s.Fine (r, n)) :
    s'.Fine (r, n) := by
  intro id st' hid'
  obtain ⟨st, hid⟩ := h.nojob (Or.inl hopen) hid'
  obtain ⟨st'', hid'', hsame⟩ := h.jobs hid
  have hst := hfine id st hid
  rw [hid'] at hid''
  cases hid''
  rw [hsame (by rw [hst]; rfl), hst]

end Rely

/-! ## Moves -/

structure Works (s s' : Snapshot) : Prop where
  state : s'.state = s.state
  graph : s'.graph = s.graph
  row : s'.row = s.row
  first : s'.first = s.first
  jobs : ∀ {id k st}, s.job id = some (k, st) →
    ∃ st', s'.job id = some (k, st') ∧ (st.finished = true → st' = st)
  old : ∀ {id k st'}, s'.job id = some (k, st') → ∃ st, s.job id = some (k, st)

/-- One change, by a client that holds `t` before it and `t'` after. -/
inductive Move (t : Option String) (s : Snapshot) : Snapshot → Option String → Prop
  | idle : Move t s s t
  | work {s' : Snapshot} : Works s s' → Move t s s' t
  | create (r : String) (g : Option (List TopologicalNode)) : t = none → s.state r = none →
      s.graph r = none → Move t s { s with
        state := Function.update s.state r (some .pending)
        graph := Function.update s.graph r g } (some r)
  | enqueue (id r n : String) (st : JobStatus) : t = some r → s.job id = none →
      (∀ id' st', s.job id' ≠ some ((r, n), st')) → s.row (r, n) = none →
      Move t s { s with job := Function.update s.job id (some ((r, n), st)) } t
  | insert (r n : String) (st : WorkflowNodeStatus) : t = some r → s.row (r, n) = none →
      st = .pending ∨ st = .cacheHit ∧ s.Fine (r, n) →
      Move t s { s with row := Function.update s.row (r, n) (some st) } t
  | launch (r : String) : t = some r → s.Rowed r → s.Homed r →
      Move t s { s with state := Function.update s.state r (some .running) } none
  | finish (r : String) (st : WorkflowState) : s.Open r → st ≠ .pending →
      Move t s { s with state := Function.update s.state r (some st) } t
  | complete (r n : String) : s.Open r → s.row (r, n) ≠ none → s.Fine (r, n) →
      (∃ id, s.job id = some ((r, n), .complete)) →
      Move t s { s with row := Function.update s.row (r, n) (some .completed) } t
  | fail (r n : String) : s.Open r → s.row (r, n) ≠ none → s.Lost (r, n) →
      Move t s { s with
        row := Function.update s.row (r, n) (some .failed)
        first := Function.update s.first r (s.first r <|> some n) } t
  | skip (r n f : String) : s.Open r → s.row (r, n) ≠ none → s.first r = some f → f ≠ n →
      Move t s { s with row := Function.update s.row (r, n) (some .skipped) } t

/-! ## What a move keeps -/

section Keeps

variable {t t' u : Option String} {s s' : Snapshot} {r n : String} {st : WorkflowNodeStatus}

theorem update_ne_none {α β : Type} [DecidableEq α] {f : α → Option β} {a : α} (a' : α) (b : β)
    (h : f a ≠ none) : update f a' (some b) a ≠ none := by
  rw [update_apply]
  split
  · exact some_ne_none b
  · exact h

theorem ne_of_none {α β : Type} {f : α → Option β} {a a' : α} {b : β} (hnew : f a = none)
    (h : f a' = some b) : a' ≠ a := by
  rintro rfl
  rw [hnew] at h
  cases h

def write (s : Snapshot) (k : String × String) (st : WorkflowNodeStatus) : Snapshot :=
  { s with row := Function.update s.row k (some st) }

theorem write_row (s : Snapshot) (k k' : String × String) (st : WorkflowNodeStatus) :
    (s.write k st).row k' = if k' = k then some st else s.row k' := by
  unfold write
  dsimp only
  rw [update_apply]

theorem write_ne_none {k k' : String × String} (st : WorkflowNodeStatus)
    (hk : s.row k' ≠ none) : (s.write k st).row k' ≠ none :=
  update_ne_none k st hk

/-- A written row leaves a sane snapshot, if it is in order and what is known
of the first failures is. -/
theorem Sane.write (h : s.Sane) (hrun : s.state r ≠ none) (hplain : Snapshot.plain st = true)
    (hdone : st = .completed ∨ st = .cacheHit → s.Fine (r, n)) (first : String → Option String)
    (hunfailed : ∀ {r' n' st'}, first r' = none → (s.write (r, n) st).row (r', n') = some st' →
      st' ≠ .skipped ∧ st' ≠ .failed) (hfirst : ∀ {r' f}, first r' = some f →
      (s.write (r, n) st).row (r', f) = some .failed ∧ s.Lost (r', f)) :
    Sane { s.write (r, n) st with first := first } where
  __ := h
  homed hopen id n' st' hid := write_ne_none st (h.homed hopen id n' st' hid)
  rooted {r' n'} hk := by
    have hrow : (s.write (r, n) st).row (r', n') ≠ none := hk
    rw [write_row] at hrow
    split at hrow
    · next heq =>
      cases heq
      exact hrun
    · exact h.rooted hrow
  done {k st'} hk hover := by
    have hrow : (s.write (r, n) st).row k = some st' := hk
    rw [write_row] at hrow
    split at hrow
    · next heq =>
      rw [heq]
      exact hdone (Option.some.inj hrow ▸ hover)
    · exact h.done hrow hover
  rowed hopen := by
    obtain ⟨g, hg, hall⟩ := h.rowed hopen
    exact ⟨g, hg, fun topo htopo => write_ne_none st (hall topo htopo)⟩
  plain {k st'} hk := by
    have hrow : (s.write (r, n) st).row k = some st' := hk
    rw [write_row] at hrow
    split at hrow
    · exact Option.some.inj hrow ▸ hplain
    · exact h.plain hrow
  unfailed := hunfailed
  first := hfirst

theorem rely_write (first : String → Option String)
    (hnew : s.row (r, n) = none → ¬ (s.Open r ∨ u = some r))
    (hend : s.row (r, n) ≠ none → st.isTerminal = true)
    (hfirst : ∀ {r' f}, s.first r' = some f → first r' = some f) :
    Rely u s { s.write (r, n) st with first := first } where
  __ := Rely.refl u s
  rows h := write_ne_none st h
  ended {k st'} hk hover := by
    rw [write_row]
    split
    · next heq =>
      subst heq
      exact ⟨st, rfl, hend (by rw [hk]; exact some_ne_none st')⟩
    · exact ⟨st', hk, hover⟩
  norow {r' n'} hr hk := by
    rw [write_row]
    split
    · next heq =>
      cases heq
      exact absurd hr (hnew hk)
    · exact hk
  first := hfirst

theorem Sane.advance (h : s.Sane) {st : WorkflowState} (hrowed : s.Rowed r) (hhomed : s.Homed r) :
    Sane { s with state := update s.state r (some st) } := by
  have hback : ∀ {r'}, Open { s with state := update s.state r (some st) } r' →
      r' ≠ r → s.Open r' := by
    rintro r' ⟨st', hst', hne⟩ heq
    exact ⟨st', (update_of_ne heq ..).symm.trans hst', hne⟩
  refine { h with
    owned := fun hid => update_ne_none r st (h.owned hid)
    homed := fun {r'} hopen => ?_
    rooted := fun hk => update_ne_none r st (h.rooted hk)
    rowed := fun {r'} hopen => ?_ }
  · by_cases heq : r' = r
    · subst heq
      exact hhomed
    · exact h.homed (hback hopen heq)
  · by_cases heq : r' = r
    · subst heq
      exact hrowed
    · exact h.rowed (hback hopen heq)

theorem rely_advance {st : WorkflowState} (hst : st ≠ .pending) (hown : u ≠ some r) :
    Rely u s { s with state := update s.state r (some st) } where
  __ := Rely.refl u s
  opened {r'} hopen := by
    by_cases heq : r' = r
    · subst heq
      exact ⟨st, update_self .., hst⟩
    · obtain ⟨st', hst', hne⟩ := hopen
      exact ⟨st', (update_of_ne heq ..).trans hst', hne⟩
  own {r'} hr hpending := by
    have hne : r' ≠ r := by
      rintro rfl
      exact hown hr
    exact (update_of_ne hne ..).trans hpending

theorem Lost.not_fine {k : String × String} (hlost : s.Lost k) (hfine : s.Fine k) : False := by
  obtain ⟨id, st, hid, -, hne⟩ := hlost
  exact hne (hfine id st hid)

theorem Works.eq (hw : Works s s') : s' = { s with job := s'.job } := by
  cases s'
  rw [Snapshot.mk.injEq]
  exact ⟨hw.state, hw.graph, hw.row, rfl, hw.first⟩

theorem Sane.works (h : s.Sane) (hw : Works s s') : s'.Sane := by
  have hjobs := @hw.jobs
  have hold := @hw.old
  rw [hw.eq]
  exact
    { h with
      unique := by
        intro id id' k st st' hid hid'
        obtain ⟨_, hold₁⟩ := hold hid
        obtain ⟨_, hold₂⟩ := hold hid'
        exact h.unique hold₁ hold₂
      owned := by
        intro id r n st hid
        obtain ⟨_, hid⟩ := hold hid
        exact h.owned hid
      homed := by
        intro r hr id n st hid
        obtain ⟨_, hid⟩ := hold hid
        exact h.homed hr id n _ hid
      done := by
        intro k st hk hover id st' hid
        obtain ⟨st₀, hold⟩ := hold hid
        have hcomplete := h.done hk hover id st₀ hold
        obtain ⟨st'', hid'', hsame⟩ := hjobs hold
        cases hid.symm.trans hid''
        rw [hsame (by rw [hcomplete]; rfl), hcomplete]
      first := by
        intro r f hf
        obtain ⟨hk, id, st, hid, hover, hne⟩ := h.first hf
        obtain ⟨st', hid', hsame⟩ := hjobs hid
        obtain rfl := hsame hover
        exact ⟨hk, id, st', hid', hover, hne⟩ }

theorem rely_works (hw : Works s s') : Rely u s s' := by
  have hjobs := @hw.jobs
  have hold := @hw.old
  rw [hw.eq]
  exact { Rely.refl u s with jobs := hjobs, nojob := fun _ hid => hold hid }

theorem Sane.create (h : s.Sane) (r : String) (g : Option (List TopologicalNode)) : Sane { s with
      state := update s.state r (some .pending)
      graph := update s.graph r g } := by
  have hopen : ∀ {r'}, Open { s with
      state := update s.state r (some .pending)
      graph := update s.graph r g } r' → s.Open r' ∧ r' ≠ r := by
    rintro r' ⟨st, hst, hne⟩
    have hst : update s.state r (some WorkflowState.pending) r' = some st := hst
    rw [update_apply] at hst
    split at hst
    · cases hst
      exact absurd rfl hne
    · next hr' => exact ⟨⟨st, hst, hne⟩, hr'⟩
  refine ⟨h.unique, fun hid => update_ne_none r _ (h.owned hid), fun hr => h.homed (hopen hr).1,
    fun hk => update_ne_none r _ (h.rooted hk), h.done, fun hr => ?_, h.plain, h.unfailed, h.first⟩
  obtain ⟨hold, hne⟩ := hopen hr
  obtain ⟨g', hg', hall⟩ := h.rowed hold
  exact ⟨g', (update_of_ne hne ..).trans hg', hall⟩

theorem rely_create (g : Option (List TopologicalNode)) (hnew : s.state r = none)
    (hgraph : s.graph r = none) :
    Rely u s { s with
      state := update s.state r (some .pending)
      graph := update s.graph r g } where
  __ := Rely.refl u s
  opened {r'} hopen := by
    obtain ⟨st, hst, hne⟩ := hopen
    exact ⟨st, (update_of_ne (ne_of_none hnew hst) ..).trans hst, hne⟩
  graph hg := (update_of_ne (ne_of_none hgraph hg) ..).trans hg
  own {r'} _ hpending := by
    show update s.state r (some .pending) r' = _
    rw [update_apply]
    split
    · rfl
    · exact hpending

theorem Sane.enqueue (h : s.Sane) {id : String} (st : JobStatus) (hrun : s.state r = some .pending)
    (hid : s.job id = none) (hnew : ∀ id' st', s.job id' ≠ some ((r, n), st'))
    (hrow : s.row (r, n) = none) :
    Sane { s with job := update s.job id (some ((r, n), st)) } := by
  have hcase : ∀ {id' k st'}, update s.job id (some ((r, n), st)) id' = some (k, st') →
      id' = id ∧ k = (r, n) ∨ s.job id' = some (k, st') := by
    intro id' k st' hid'
    rw [update_apply] at hid'
    split at hid'
    · next heq =>
      cases hid'
      exact Or.inl ⟨heq, rfl⟩
    · exact Or.inr hid'
  refine ⟨?_, ?_, ?_, h.rooted, ?_, h.rowed, h.plain, h.unfailed, ?_⟩
  · intro id₁ id₂ k st₁ st₂ h₁ h₂
    rcases hcase h₁ with ⟨rfl, rfl⟩ | hold₁
    · rcases hcase h₂ with ⟨rfl, -⟩ | hold₂
      · rfl
      · exact absurd hold₂ (hnew id₂ st₂)
    · rcases hcase h₂ with ⟨rfl, rfl⟩ | hold₂
      · exact absurd hold₁ (hnew id₁ st₁)
      · exact h.unique hold₁ hold₂
  · intro id' r' n' st' hid'
    rcases hcase hid' with ⟨-, hk⟩ | hid'
    · cases hk
      rw [hrun]
      exact some_ne_none _
    · exact h.owned hid'
  · rintro r' ⟨st₀, hst₀, hne⟩ id' n' st' hid'
    rcases hcase hid' with ⟨-, hk⟩ | hid'
    · cases hk
      have hst₀ : s.state r = some st₀ := hst₀
      rw [hrun] at hst₀
      cases hst₀
      exact absurd rfl hne
    · exact h.homed ⟨st₀, hst₀, hne⟩ id' n' st' hid'
  · intro k st' hk hover id' st'' hid'
    rcases hcase hid' with ⟨-, rfl⟩ | hid'
    · have hk : s.row (r, n) = some st' := hk
      rw [hrow] at hk
      cases hk
    · exact h.done hk hover id' st'' hid'
  · intro r' f hf
    obtain ⟨hk, id', st', hid', hover, hne⟩ := h.first hf
    exact ⟨hk, id', st', (update_of_ne (ne_of_none hid hid') ..).trans hid', hover, hne⟩

theorem rely_enqueue {id : String} (st : JobStatus) (hid : s.job id = none)
    (hshut : ¬ (s.Open r ∨ u = some r)) :
    Rely u s { s with job := update s.job id (some ((r, n), st)) } where
  __ := Rely.refl u s
  jobs hid' := ⟨_, (update_of_ne (ne_of_none hid hid') ..).trans hid', fun _ => rfl⟩
  nojob {r' id' n' st'} hr hid' := by
    have hid' : update s.job id (some ((r, n), st)) id' = some ((r', n'), st') := hid'
    rw [update_apply] at hid'
    split at hid'
    · cases hid'
      exact absurd hr hshut
    · exact ⟨st', hid'⟩

theorem Open.not_held (hopen : s.Open r) (hs : s.Stands u) : u ≠ some r := by
  rintro rfl
  obtain ⟨st, hst, hne⟩ := hopen
  rw [hs r rfl] at hst
  cases hst
  exact hne rfl

theorem Stands.held (hs : s.Stands t) (ht : t = some r) (hapart : Apart t u) :
    ¬ (s.Open r ∨ u = some r) := by
  rintro (hopen | hu)
  · exact hopen.not_held hs ht
  · exact hapart r ht hu

theorem Open.state_ne (hopen : s.Open r) : s.state r ≠ none := by
  obtain ⟨st, hst, -⟩ := hopen
  rw [hst]
  exact some_ne_none st

/-- A written row leaves the first failures alone, if the first failed one's
is written as failed at most. -/
theorem first_write (h : s.Sane) (hne : ∀ f, s.first r = some f → f = n → st = .failed)
    {r' f : String} (hf : s.first r' = some f) :
    (s.write (r, n) st).row (r', f) = some .failed ∧ s.Lost (r', f) := by
  obtain ⟨hrow, hlost⟩ := h.first hf
  refine ⟨?_, hlost⟩
  rw [write_row]
  split
  · next heq =>
    obtain ⟨rfl, rfl⟩ := Prod.mk.inj heq
    rw [hne _ hf rfl]
  · exact hrow

theorem unfailed_write (h : s.Sane) (hst : s.first r = none → st ≠ .skipped ∧ st ≠ .failed)
    {r' n' : String} {st' : WorkflowNodeStatus} (hf : s.first r' = none)
    (hrow : (s.write (r, n) st).row (r', n') = some st') : st' ≠ .skipped ∧ st' ≠ .failed := by
  rw [write_row] at hrow
  split at hrow
  · next heq =>
    cases heq
    cases hrow
    exact hst hf
  · exact h.unfailed hf hrow

/-- **A move keeps a snapshot sane.** -/
theorem Move.sane (h : s.Sane) (hs : s.Stands t) (hm : Move t s s' t') : s'.Sane := by
  cases hm with
  | idle => exact h
  | work hw => exact h.works hw
  | create r g => exact h.create r g
  | enqueue id r n st ht hid hnew hrow => exact h.enqueue st (hs r ht) hid hnew hrow
  | insert r n st ht hrow hst =>
    have hrun : s.state r ≠ none := by
      rw [hs r ht]
      exact some_ne_none _
    refine h.write hrun ?_ ?_ s.first ?_ ?_
    · rcases hst with rfl | ⟨rfl, -⟩ <;> rfl
    · rcases hst with rfl | ⟨rfl, hfine⟩
      · rintro (hst | hst) <;> cases hst
      · exact fun _ => hfine
    · refine unfailed_write h fun _ => ?_
      rcases hst with rfl | ⟨rfl, -⟩ <;> decide
    · refine first_write h fun f hf => ?_
      rintro rfl
      rw [(h.first hf).1] at hrow
      cases hrow
  | launch r ht hrowed hhomed => exact h.advance hrowed hhomed
  | finish r st hopen => exact h.advance (h.rowed hopen) (h.homed hopen)
  | complete r n hopen hrow hfine =>
    refine h.write hopen.state_ne rfl (fun _ => hfine) s.first ?_ ?_
    · exact unfailed_write h fun _ => by decide
    · refine first_write h fun f hf => ?_
      rintro rfl
      exact ((h.first hf).2.not_fine hfine).elim
  | fail r n hopen hrow hlost =>
    refine h.write hopen.state_ne rfl (fun hst => absurd hst (by decide)) _ ?_ ?_
    · intro r' n' st' hf hrow'
      rw [update_apply] at hf
      split at hf
      · cases hold : s.first r with
        | none | some =>
          rw [hold] at hf
          cases hf
      · next hr' =>
        rw [write_row, if_neg] at hrow'
        · exact h.unfailed hf hrow'
        · intro heq
          cases heq
          exact hr' rfl
    · intro r' f hf
      rw [update_apply] at hf
      split at hf
      · next hr' =>
        subst hr'
        cases hold : s.first r' with
        | none =>
          rw [hold] at hf
          cases hf
          exact ⟨by rw [write_row, if_pos rfl], hlost⟩
        | some =>
          rw [hold] at hf
          cases hf
          exact first_write h (fun _ _ _ => rfl) hold
      · exact first_write h (fun _ _ _ => rfl) hf
  | skip r n f hopen hrow hf hne =>
    refine h.write hopen.state_ne rfl (fun hst => absurd hst (by decide)) s.first ?_ ?_
    · refine unfailed_write h fun hnone => ?_
      rw [hf] at hnone
      cases hnone
    · refine first_write h fun f' hf' => ?_
      rw [hf] at hf'
      cases hf'
      exact fun heq => absurd heq hne

/-- **A move keeps what the others rely on.** -/
theorem Move.rely (hs : s.Stands t) (hm : Move t s s' t') (hu : s.Stands u) (hapart : Apart t u) :
    Rely u s s' := by
  cases hm with
  | idle => exact .refl u s
  | work hw => exact rely_works hw
  | create r g ht hnew hgraph => exact rely_create g hnew hgraph
  | enqueue id r n st ht hid => exact rely_enqueue st hid (hs.held ht hapart)
  | insert r n st ht hrow =>
    exact rely_write s.first (fun _ => hs.held ht hapart) (fun hne => absurd hrow hne) id
  | launch r ht =>
    exact rely_advance (by decide) fun hu' => hs.held ht hapart (Or.inr hu')
  | finish r st hopen hst => exact rely_advance hst (hopen.not_held hu)
  | complete _ _ _ hrow | skip _ _ _ _ hrow =>
    exact rely_write s.first (fun hnone => absurd hnone hrow) (fun _ => rfl) id
  | fail r n hopen hrow =>
    refine rely_write _ (fun hnone => absurd hnone hrow) (fun _ => rfl) ?_
    intro r' f hf
    rw [update_apply]
    split
    · next hr' =>
      subst hr'
      rw [hf]
      rfl
    · exact hf

/-- After a move its client holds what it should, and the others hold
something else. -/
theorem Move.held (hs : s.Stands t) (hm : Move t s s' t') :
    s'.Stands t' ∧ ∀ u, s.Stands u → Apart t u → Apart t' u := by
  have hnone : ∀ {s : Snapshot}, s.Stands none := fun r hr => nomatch hr
  cases hm with
  | idle | enqueue | insert | complete | fail | skip => exact ⟨hs, fun _ _ h => h⟩
  | work hw =>
    refine ⟨fun r hr => ?_, fun _ _ h => h⟩
    rw [hw.state]
    exact hs r hr
  | create r g ht hnew =>
    refine ⟨fun r' hr' => ?_, fun u hu _ r' hr' hu' => ?_⟩
    · cases hr'
      exact update_self ..
    · cases hr'
      rw [hu r hu'] at hnew
      cases hnew
  | launch => exact ⟨hnone, fun _ _ _ r' hr' => nomatch hr'⟩
  | finish r st hopen =>
    refine ⟨fun r' hr' => ?_, fun _ _ h => h⟩
    have hne : r' ≠ r := by
      rintro rfl
      exact hopen.not_held hs hr'
    exact (update_of_ne hne ..).trans (hs r' hr')

end Keeps

/-! ## Reading the rows -/

/-- Every node of the graph has a row, no row is open, and no job. -/
structure Whole (s : Snapshot) (r : String) : Prop where
  rowed : s.Rowed r
  ended : ∀ {n st}, s.row (r, n) = some st → st.isTerminal = true
  jobs : ∀ {id n st}, s.job id = some ((r, n), st) → st = .complete

/-- What is known of a node whose row has been read, however long ago.  `known`
is the run's first failure, if that was known before. -/
structure Noted (s : Snapshot) (r : String) (known : Option String) (n : String)
    (st : WorkflowNodeStatus) : Prop where
  ended : st.isTerminal = true → ∃ st', s.row (r, n) = some st' ∧ st'.isTerminal = true
  fine : st = .completed ∨ st = .cacheHit → s.Fine (r, n)
  skipped : st = .skipped → ∃ f, s.first r = some f ∧ f ≠ n
  plain : Snapshot.plain st = true
  known : ∀ f, known = some f → st ≠ .failed → n ≠ f

section Reading

variable {t : Option String} {s s' : Snapshot} {r n : String} {known : Option String}
  {st : WorkflowNodeStatus}

theorem Sane.noted (h : s.Sane) (hrow : s.row (r, n) = some st)
    (hknown : ∀ f, known = some f → s.first r = some f) : s.Noted r known n st where
  ended hend := ⟨st, hrow, hend⟩
  fine := h.done hrow
  skipped hst := by
    cases hfirst : s.first r with
    | none => exact absurd hst (h.unfailed hfirst hrow).1
    | some f =>
      refine ⟨f, rfl, ?_⟩
      rintro rfl
      rw [(h.first hfirst).1] at hrow
      cases hrow
      cases hst
  plain := h.plain hrow
  known f hf hst := by
    rintro rfl
    rw [(h.first (hknown n hf)).1] at hrow
    cases hrow
    exact hst rfl

theorem Noted.later (hn : s.Noted r known n st) (hrely : Rely t s s') (hopen : s.Open r) :
    s'.Noted r known n st where
  ended hend := by
    obtain ⟨st₁, hrow₁, hend₁⟩ := hn.ended hend
    exact hrely.ended hrow₁ hend₁
  fine hst := hrely.fine hopen (hn.fine hst)
  skipped hst := by
    obtain ⟨f, hf, hne⟩ := hn.skipped hst
    exact ⟨f, hrely.first hf, hne⟩
  plain := hn.plain
  known := hn.known

/-- **Completion is whole.**  If every row of a run has been read, at whatever
time, as done and not failed, every job of the run succeeded. -/
theorem whole_of_noted (known : Option String) (h : s.Sane) (hopen : s.Open r)
    (hread : ∀ n, s.row (r, n) ≠ none →
      ∃ st, s.Noted r known n st ∧ st.isTerminal = true ∧ st ≠ .failed) : s.Whole r := by
  have hfirst : s.first r = none := by
    by_contra hne
    obtain ⟨f, hf⟩ := ne_none_iff_exists'.mp hne
    obtain ⟨hrow, hlost⟩ := h.first hf
    obtain ⟨st, hn, hend, hst⟩ := hread f (by rw [hrow]; exact some_ne_none _)
    have hplain := hn.plain
    cases st with
    | completed => exact hlost.not_fine (hn.fine (Or.inl rfl))
    | cacheHit => exact hlost.not_fine (hn.fine (Or.inr rfl))
    | skipped =>
      obtain ⟨f', hf', hne'⟩ := hn.skipped rfl
      rw [hf] at hf'
      exact hne' (Option.some.inj hf').symm
    | failed => exact hst rfl
    | pending => cases hend
    | _ => cases hplain
  refine ⟨h.rowed hopen, fun {n st} hrow => ?_, fun {id n st} hid => ?_⟩
  · obtain ⟨st₁, hn, hend, -⟩ := hread n (by rw [hrow]; exact some_ne_none _)
    obtain ⟨st', hrow', hend'⟩ := hn.ended hend
    rw [hrow] at hrow'
    cases hrow'
    exact hend'
  · obtain ⟨st₁, hn, hend, hst⟩ := hread n (h.homed hopen id n st hid)
    have hplain := hn.plain
    cases st₁ with
    | completed => exact hn.fine (Or.inl rfl) id st hid
    | cacheHit => exact hn.fine (Or.inr rfl) id st hid
    | skipped =>
      obtain ⟨f', hf', -⟩ := hn.skipped rfl
      rw [hfirst] at hf'
      cases hf'
    | failed => exact absurd rfl hst
    | pending => cases hend
    | _ => cases hplain

end Reading

end Snapshot

end FlexiQ.Workflow
