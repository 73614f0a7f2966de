/-
# `Sql.Histories` — every act is a number of moves

One lemma per kind of act, `Advances`: the books are kept and the scene
moved.  The conditions `Spares` and `Polite` are about the state an act is
taken in, never about what it returns.
-/
import FlexiQ.Sql.Refine

namespace FlexiQ.Sql

open List FlexiQ.Lib FlexiQ.Step Table

variable {s s' : Store} {id deadId : String} {row job : Job} {now : Int}
  {scope metadata : Option String} {new : NewJob} {out : Dequeued} {i : Nat} {c : Cascade}
  {d : Dequeue} {serde : Serde}

/-! ## The conditions -/

def Purge.ids (s : Store) (now : Int) : Purge → List String
  | .completed olderThanMs => archivedIds s (completedBefore olderThanMs)
  | .globalTtl cutoff => archivedIds s (pastGlobalTtl cutoff)
  | .perEntryTtl => archivedIds s (pastOwnTtl now)
  | .trim ns limit => oldestArchivedIds s ns limit

theorem Purge.run_eq (s : Store) (now : Int) (p : Purge) :
    p.run s now = purgeArchivedIdBatch s (p.ids s now) := by
  cases p <;> rfl

/-- A purge deletes nothing that a live job still waits for, the completed
apart. -/
def Spares (t : Timeline) (label : Int × Act) : Prop :=
  match label.2 with
  | .purge p => ∀ id ∈ p.ids t.store label.1, awaited t.store id = true →
      (t.store.archived.find id).all (fun row => row.status = .complete) = true
  | _ => True

instance (t : Timeline) (label : Int × Act) : Decidable (Spares t label) := by
  delta Spares
  cases label.2 <;> infer_instance

def Sweep.rows (s : Store) (now : Int) (w : Sweep) : List Job :=
  (s.jobs.rows.filter (fun row => row.status = .pending && w.hits now row)).take massArchiveBatch

/-- The jobs an act may archive without completing them and without a
cascade. -/
def Act.drops (s : Store) (now : Int) : Act → List String
  | .fail id _ => ((s.jobs.find id).filter fun row => row.status = .running).toList.map Job.id
  | .markCancelled id scope =>
    ((s.jobs.find id).filter fun row => visibleIn scope row.namespace).toList.map Job.id
  | .sweep w => (w.rows s now).map Job.id
  | .dequeue d => ((d.window s now).filter fun row => row.expiredAt now).map Job.id
  | _ => []

def pendingDependents (s : Store) (id : String) : List String :=
  (dependentsOf s id).filter fun dep => (s.jobs.find dep).any fun row => row.status = .pending

def Act.dependsOn : Act → List String
  | .enqueue new _ | .enqueueUnique new _ | .enqueueDebounced new _ _ => new.dependsOn
  | .enqueueBatch new | .enqueueUniqueBatch new => new.flatMap fun e => e.1.dependsOn
  | _ => []

/-- A sweep takes its dependents along if they are in the same batch. -/
def Act.takes (s : Store) (now : Int) : Act → List String
  | .sweep w => (w.rows s now).map Job.id
  | _ => []

/-- Besides what `Spares` asks: whatever is dropped leaves no pending job
waiting for it, and nobody enqueues behind a node a cascade has already
read. -/
@[mk_iff] structure Polite (t : Timeline) (label : Int × Act) : Prop where
  spares : Spares t label
  drops : ∀ id ∈ label.2.drops t.store label.1, ∀ dep ∈ pendingDependents t.store id,
    dep ∈ label.2.takes t.store label.1
  joins : ∀ dep ∈ label.2.dependsOn, ∀ c ∈ t.cascades, dep ∉ c.search.queue.take c.search.idx

instance (t : Timeline) (label : Int × Act) : Decidable (Polite t label) :=
  decidable_of_iff' _ (polite_iff t label)

theorem mem_pendingDependents {dep : String}
    (he : (⟨dep, id⟩ : Edge) ∈ s.edges) (hrow : s.jobs.find dep = some row)
    (hpend : row.status = .pending) : dep ∈ pendingDependents s id := by
  rw [pendingDependents, mem_filter]
  exact ⟨mem_dependentsOf.mpr he, by simp [hrow, hpend]⟩

/-! ## One lemma per kind of act -/

/-- The books are kept, and the scene moved. -/
def Advances (tidy : Prop) (t t' : Timeline) : Prop := Ledger t' ∧ Moves tidy t.scene t'.scene

section Kinds

variable {tidy : Prop} {t t' t₁ : Timeline}

theorem Advances.refl (h : Ledger t) : Advances tidy t t := ⟨h, .refl _⟩

theorem Advances.trans (h : Advances tidy t t₁) (h' : Advances tidy t₁ t') : Advances tidy t t' :=
  ⟨h'.1, h.2.trans h'.2⟩

theorem advances_untouched (hl : Ledger t) (hu : Untouched t.store s') :
    Advances tidy t { t with store := s' } :=
  ⟨⟨hl.books.untouched hu, hl.sees⟩, .single (.settles (settles_untouched hu) rfl)⟩

theorem advances_rewrites {row' : Job} (hl : Ledger t) (hw : Rewrites t.store s' id row')
    (hrow : t.store.jobs.find id = some row) (hsame : SameJob row row')
    (hstatus : row'.status = .pending ∨ row'.status = row.status) :
    Advances tidy t { t with store := s' } := by
  have hlive : row'.status = .pending ∨ row'.status = .running := by
    rcases hstatus with hp | hs
    · exact Or.inl hp
    · rw [hs]
      exact (hl.books.live id row hrow).1
  exact ⟨⟨hl.books.rewrites hw hrow hsame hlive, hl.sees⟩,
    .single (.settles (settles_rewrites hw hrow hstatus) rfl)⟩

theorem advances_starts (hl : Ledger t) (hw : Rewrites t.store s' id (row.startedBy now))
    (hrow : t.store.jobs.find id = some row) (hpend : row.status = .pending)
    (hgate : row.hasDeps = true → depsSatisfied t.store id = true) :
    Advances tidy t { t with store := s' } :=
  ⟨⟨hl.books.rewrites hw hrow ⟨rfl, rfl⟩ (Or.inr rfl), hl.sees⟩,
    .single (.starts (starts_rewrites hl.books hw hrow hpend hgate) rfl)⟩

theorem ends_lost {births : List Birth} {completed : List String}
    {rows : List Job} (ha : Archives s s' rows) (hfrom : LeavingFrom s rows)
    (hnot : ∀ r ∈ rows, r.status ≠ .complete) :
    (boardOf births completed s).Ends (boardOf births completed s') (· ∈ rows.map Job.id) := by
  refine ends_archives ha hfrom fun k => ⟨Or.inl, fun h => h.elim id ?_⟩
  rintro ⟨r, hr, -, hc⟩
  exact absurd hc (hnot r hr)

theorem advances_drops {rows : List Job} (hl : Ledger t) (ha : Archives t.store s' rows)
    (hfrom : LeavingFrom t.store rows) (hnot : ∀ r ∈ rows, r.status ≠ .complete)
    (hcover : tidy → ∀ r ∈ rows, ∀ dep ∈ pendingDependents t.store r.id,
      dep ∈ rows.map Job.id) : Advances tidy t { t with store := s' } := by
  have hnone : ∀ r ∈ ([] : List String), r ∈ rows.map Job.id := fun r hr => by cases hr
  refine ⟨⟨hl.books.archives ha hfrom, hl.sees⟩,
    .single (.ends (ends_lost ha hfrom hnot) hnone rfl ?_)⟩
  intro htidy a d hd _ hga hpend he
  obtain ⟨r, hr, rfl⟩ := mem_map.mp hd
  obtain ⟨row, hrow, hstatus⟩ := pending_phaseOf hpend
  exact absurd (hcover htidy r hr a (mem_pendingDependents he hrow hstatus)) hga

theorem leavingFrom_one (hrow : s.jobs.find id = some row)
    (status : JobStatus) (now : Int) (error : Option String) (hnot : status ≠ .complete) :
    LeavingFrom s [row.finish status now error] :=
  forall_mem_singleton.mpr
    ⟨row, key_of_find hrow ▸ hrow, rfl, fun hc => absurd hc hnot⟩

theorem advances_drop_one {status : JobStatus}
    {error : Option String} (hl : Ledger t) (hrow : t.store.jobs.find id = some row)
    (ha : Archives t.store s' [row.finish status now error]) (hnot : status ≠ .complete)
    (hfree : tidy → pendingDependents t.store id = []) :
    Advances tidy t { t with store := s' } := by
  refine advances_drops hl ha (leavingFrom_one hrow status now error hnot)
    (forall_mem_singleton.mpr hnot) fun htidy => forall_mem_singleton.mpr ?_
  have hkey : row.id = id := key_of_find hrow
  have hid : (row.finish status now error).id = id := hkey
  rw [hid, hfree htidy]
  exact forall_mem_nil _

theorem Ledger.begin {root reason : String} (hl : Ledger t)
    (hb : ∃ b ∈ t.births, b.id = root ∧ visibleIn scope b.namespace = true) :
    Ledger (t.begin root reason scope) where
  books := hl.books
  sees := by
    intro c hc x hx
    rcases mem_cons.mp hc with rfl | hc
    · rw [mem_singleton.mp hx]
      exact hb
    · exact hl.sees c hc x hx

theorem advances_loses {gone : Job} {reason : String}
    (hl : Ledger t) (ha : Archives t.store s' [gone]) (hfrom : LeavingFrom t.store [gone])
    (hnot : gone.status ≠ .complete) (hvis : visibleIn scope gone.namespace = true) :
    Advances tidy t (({ t with store := s' } : Timeline).begin gone.id reason scope) := by
  have hbooks := hl.books.archives ha hfrom
  have hledger : Ledger { t with store := s' } := ⟨hbooks, hl.sees⟩
  have hends : t.scene.board.Ends (boardOf t.births t.completed s') (· ∈ [gone].map Job.id) :=
    ends_lost ha hfrom (forall_mem_singleton.mpr hnot)
  have hroots : ∀ r ∈ [gone.id], r ∈ [gone].map Job.id := fun r hr => hr
  refine ⟨hledger.begin ?_, .single (.ends hends hroots rfl ?_)⟩
  · have harch := ha.moved gone (mem_singleton_self _)
    obtain ⟨b, hb, hid, hns⟩ := hbooks.archived _ _ harch
    exact ⟨b, hb, hid, by rw [hns]; exact hvis⟩
  · intro _ a d hd _ _ _ _
    exact hd

theorem advances_completes {gone : Job} (hl : Ledger t)
    (ha : Archives t.store s' [gone]) (hfrom : LeavingFrom t.store [gone])
    (hc : gone.status = .complete) :
    Advances tidy t { t with store := s', completed := gone.id :: t.completed } := by
  have hends : t.scene.board.Ends (boardOf t.births (gone.id :: t.completed) s')
      (· ∈ [gone].map Job.id) := by
    refine ends_archives ha hfrom fun k => ?_
    simp only [mem_cons, not_mem_nil, or_false, exists_eq_left, hc, and_true]
    exact ⟨fun h => h.symm.imp_right Eq.symm, fun h => h.symm.imp_left Eq.symm⟩
  have hnone : ∀ r ∈ ([] : List String), r ∈ [gone].map Job.id := fun r hr => by cases hr
  refine ⟨⟨hl.books.archives ha hfrom, hl.sees⟩, .single (.ends hends hnone rfl ?_)⟩
  intro _ a d hd hlost _ _ _
  have hphase := phaseOf_archives ha (mem_singleton_self gone)
  rw [if_pos hc, ← mem_singleton.mp hd] at hphase
  rw [show phaseOf s' d = .lost from hlost] at hphase
  cases hphase

theorem advances_inserts {members : List (Job × List String)} (hl : Ledger t)
    (hi : Inserts t.store t'.store members) (hv : Valid t.store members)
    (hids : ((t.births ++ members.map birthOf).map Birth.id).Nodup)
    (hbirths : t'.births = t.births ++ members.map birthOf)
    (hcompleted : t'.completed = t.completed) (hcascades : t'.cascades = t.cascades)
    (hjoin : tidy → ∀ m ∈ members, ∀ dep ∈ m.2, ∀ c ∈ t.cascades,
      dep ∉ c.search.queue.take c.search.idx) : Advances tidy t t' := by
  have hboard : t'.scene.board =
      boardOf (t.births ++ members.map birthOf) t.completed t'.store := by
    rw [Timeline.scene, hbirths, hcompleted]
  have hsubmits : t.scene.board.Submits t'.scene.board (· ∈ members.map (fun m => m.1.id))
      (fun a d => ∃ m ∈ members, m.1.id = a ∧ d ∈ m.2) := by
    rw [hboard]
    exact submits_inserts hi hv hids
  refine ⟨⟨?_, ?_⟩, .single (.submits hsubmits ?_ ?_)⟩
  · rw [hbirths]
    exact hl.books.inserts hi hv hids
  · rw [hcascades, hbirths]
    intro c hc x hx
    obtain ⟨b, hb, hrest⟩ := hl.sees c hc x hx
    exact ⟨b, mem_append_left _ hb, hrest⟩
  · rw [Timeline.scene, Timeline.scene, hcascades]
  · rintro htidy a d - ⟨m, hm, -, hd⟩ c hc
    obtain ⟨c', hc', rfl⟩ := mem_map.mp hc
    exact hjoin htidy m hm d hd c' hc'

/-! ## Enqueues -/

/-- None of these dependencies has been read by a cascade under way. -/
abbrev Joins (tidy : Prop) (t : Timeline) (deps : List String) : Prop :=
  tidy → ∀ dep ∈ deps, ∀ c ∈ t.cascades, dep ∉ c.search.queue.take c.search.idx

/-- `job` is the row an enqueue of `e` writes. -/
structure RowOf (e : Draft) (job : Job) : Prop where
  id : job.id = e.2
  «namespace» : job.namespace = e.1.namespace
  pending : job.status = .pending
  hasDeps : job.hasDeps = !e.1.dependsOn.isEmpty

theorem rowOf_intoJob (e : Draft) (now : Int) : RowOf e (e.1.intoJob e.2 now) :=
  ⟨rfl, rfl, rfl, rfl⟩

theorem rowOf_intoWindow (e : Draft) (options : DebounceOptions) (now : Int) :
    RowOf e (e.1.intoWindow options e.2 now) :=
  ⟨rfl, rfl, rfl, rfl⟩

theorem advances_admitted {new : List Draft} {row : Draft → Job}
    (hl : Ledger t) (hrow : ∀ e, RowOf e (row e))
    (hi : Inserts t.store s' (new.map fun e => (row e, e.1.dependsOn)))
    (hdeps : ∀ e ∈ new, ∀ dep ∈ e.1.dependsOn,
      (∃ e' ∈ new, e'.2 = dep ∧ e'.1.namespace = e.1.namespace) ∨
        validateDependency t.store dep e.1.namespace = true)
    (hids : (t.births.map Birth.id ++ new.map Prod.snd).Nodup)
    (hjoin : Joins tidy t (new.flatMap fun e => e.1.dependsOn)) :
    Advances tidy t (t.admitted s' new) := by
  have hbirth : (new.map fun e => (row e, e.1.dependsOn)).map birthOf =
      new.map fun e => ⟨e.2, e.1.namespace, e.1.dependsOn⟩ := by
    rw [map_map]
    refine map_congr_left fun e _ => ?_
    simp [birthOf, (hrow e).id, (hrow e).namespace]
  have hlive : new.filter (fun e => (s'.jobs.find e.2).isSome) = new := by
    refine filter_eq_self.mpr fun e he => ?_
    have hadded := hi.added _ (mem_map.mpr ⟨e, he, rfl⟩)
    rw [(hrow e).id] at hadded
    rw [hadded]
    rfl
  refine advances_inserts hl hi ⟨?_, ?_, ?_⟩ ?_ ?_ rfl rfl ?_
  · intro m hm
    obtain ⟨e, -, rfl⟩ := mem_map.mp hm
    exact (hrow e).pending
  · intro m hm
    obtain ⟨e, -, rfl⟩ := mem_map.mp hm
    exact (hrow e).hasDeps
  · intro m hm dep hdep
    obtain ⟨e, he, rfl⟩ := mem_map.mp hm
    rw [(hrow e).namespace]
    refine (hdeps e he dep hdep).imp_left ?_
    rintro ⟨e', he', hid, hns⟩
    exact ⟨_, mem_map.mpr ⟨e', he', rfl⟩, (hrow e').id.trans hid,
      (hrow e').namespace.trans hns⟩
  · rw [hbirth, map_append, map_map]
    exact hids
  · rw [hbirth, Timeline.admitted, hlive]
  · intro htidy m hm dep hdep
    obtain ⟨e, he, rfl⟩ := mem_map.mp hm
    exact hjoin htidy dep (mem_flatMap.mpr ⟨e, he, hdep⟩)

theorem admit_none (h : s'.jobs.find id = none) :
    t.admitted s' [(new, id)] = { t with store := s' } := by
  simp [Timeline.admitted, h]

theorem Ledger.fresh (hl : Ledger t) (hids : (t.births.map Birth.id ++ [id]).Nodup) :
    t.store.jobs.find id = none := by
  have h : id ∉ t.births.map Birth.id := fun hmem =>
    (nodup_append'.mp hids).2.2 hmem (mem_singleton_self id)
  cases hrow : t.store.jobs.find id with
  | none => rfl
  | some row =>
    obtain ⟨-, b, hb, hbid, -⟩ := hl.books.live id row hrow
    exact absurd (mem_map.mpr ⟨b, hb, hbid⟩) h

theorem advances_insert_one
    {row : Draft → Job} (hl : Ledger t) (hrow : ∀ e, RowOf e (row e))
    (hins : insertJobWithDeps t.store (row (new, id)) new.dependsOn = .ok s')
    (hdeps : ∀ dep ∈ new.dependsOn, validateDependency t.store dep new.namespace = true)
    (hids : (t.births.map Birth.id ++ [id]).Nodup) (hjoin : Joins tidy t new.dependsOn) :
    Advances tidy t (t.admitted s' [(new, id)]) := by
  refine advances_admitted hl hrow (inserts_one hins) ?_ hids (by simpa using hjoin)
  exact forall_mem_singleton.mpr fun dep hdep => Or.inr (hdeps dep hdep)

theorem advances_enqueue (hl : Ledger t) (h : enqueue t.store new id now = .ok (job, s'))
    (hids : (t.births.map Birth.id ++ [id]).Nodup) (hjoin : Joins tidy t new.dependsOn) :
    Advances tidy t (t.admitted s' [(new, id)]) := by
  obtain ⟨-, hdeps, hins⟩ := enqueue_ok h
  exact advances_insert_one hl (fun e => rowOf_intoJob e now) hins hdeps hids hjoin

theorem advances_enqueueBatch {new : List Draft}
    {jobs : List Job} (hl : Ledger t) (h : enqueueBatch t.store new now = .ok (jobs, s'))
    (hids : (t.births.map Birth.id ++ new.map Prod.snd).Nodup)
    (hjoin : Joins tidy t (new.flatMap fun e => e.1.dependsOn)) :
    Advances tidy t (t.admitted s' new) := by
  obtain ⟨hins, hdeps⟩ := enqueueBatch_ok h
  exact advances_admitted hl (fun e => rowOf_intoJob e now) (insertBatch_ok hins) hdeps hids hjoin

theorem advances_enqueueUnique
    {out : Job × Bool} (hl : Ledger t) (h : enqueueUnique t.store new id now = .ok (out, s'))
    (hids : (t.births.map Birth.id ++ [id]).Nodup) (hjoin : Joins tidy t new.dependsOn) :
    Advances tidy t (t.admitted s' [(new, id)]) := by
  rcases enqueueUnique_ok h with rfl | ⟨job, henq⟩
  · rw [admit_none (hl.fresh hids)]
    exact .refl hl
  · exact advances_enqueue hl henq hids hjoin

theorem enqueueUnique_find {k : String}
    {out : Job × Bool} (h : enqueueUnique s new id now = .ok (out, s')) (hk : k ≠ id) :
    s'.jobs.find k = s.jobs.find k := by
  rcases enqueueUnique_ok h with rfl | ⟨job, henq⟩
  · rfl
  · obtain ⟨-, -, hins⟩ := enqueue_ok henq
    exact (inserts_one hins).jobs k (by simpa [NewJob.intoJob] using hk)

theorem enqueueUniqueBatch_find : ∀ {new : List Draft} {s s' : Store} {now : Int}
    {out : List (Job × Bool)} {k : String}, enqueueUniqueBatch s now new = .ok (out, s') →
    k ∉ new.map Prod.snd → s'.jobs.find k = s.jobs.find k
  | [], s, s', now, out, k, h, _ => by
    cases h
    rfl
  | (new, id) :: rest, s, s', now, out, k, h, hk => by
    obtain ⟨⟨first, s₁⟩, h₁, h⟩ := bind_eq_ok.mp h
    obtain ⟨⟨others, s₂⟩, h₂, h⟩ := bind_eq_ok.mp h
    cases h
    simp only [map_cons, mem_cons, not_or] at hk
    rw [enqueueUniqueBatch_find h₂ hk.2, enqueueUnique_find h₁ hk.1]

theorem advances_enqueueUniqueBatch : ∀ {new : List Draft} {t : Timeline}
    {s' : Store} {now : Int} {out : List (Job × Bool)}, Ledger t →
    enqueueUniqueBatch t.store now new = .ok (out, s') →
    (t.births.map Birth.id ++ new.map Prod.snd).Nodup →
    Joins tidy t (new.flatMap fun e => e.1.dependsOn) → Advances tidy t (t.admitted s' new)
  | [], t, s', now, out, hl, h, _, _ => by
    cases h
    have hsame : t.admitted t.store [] = t := by simp [Timeline.admitted]
    rw [hsame]
    exact .refl hl
  | (new, id) :: rest, t, s', now, out, hl, h, hids, hjoin => by
    obtain ⟨⟨first, s₁⟩, h₁, h⟩ := bind_eq_ok.mp h
    obtain ⟨⟨others, s₂⟩, h₂, h⟩ := bind_eq_ok.mp h
    cases h
    have hsplit : ((t.births.map Birth.id ++ [id]) ++ rest.map Prod.snd).Nodup := by
      simpa using hids
    obtain ⟨hfirst, -, hdisj⟩ := nodup_append'.mp hsplit
    have hstep := advances_enqueueUnique hl h₁ hfirst fun htidy dep hdep =>
      hjoin htidy dep (mem_append_left _ hdep)
    have hout : id ∉ rest.map Prod.snd := hdisj (by simp)
    -- The rest of the batch does not decide whether the first job is there.
    have hkeep : s'.jobs.find id = s₁.jobs.find id := enqueueUniqueBatch_find h₂ hout
    have hadmits : (t.admitted s₁ [(new, id)]).admitted s' rest =
        t.admitted s' ((new, id) :: rest) := by
      by_cases hin : (s₁.jobs.find id).isSome = true <;>
        simp [Timeline.admitted, hkeep, hin]
    rw [← hadmits]
    refine hstep.trans (advances_enqueueUniqueBatch hstep.1 h₂ ?_ ?_)
    · refine hsplit.sublist (List.Sublist.append_right ?_ _)
      by_cases hin : (s₁.jobs.find id).isSome = true <;> simp [Timeline.admitted, hin]
    · exact fun htidy dep hdep => hjoin htidy dep (mem_append_right _ hdep)

theorem advances_enqueueDebounced {options : DebounceOptions} (hl : Ledger t)
    (h : enqueueDebounced t.store new options id now = .ok (job, s'))
    (hids : (t.births.map Birth.id ++ [id]).Nodup) (hjoin : Joins tidy t new.dependsOn) :
    Advances tidy t (t.admitted s' [(new, id)]) := by
  rcases enqueueDebounced_ok h with ⟨target, hlive, -, -, hw⟩ | ⟨hdeps, hins⟩
  · have hfresh := hl.fresh hids
    have hne : id ≠ target.id := by
      rintro rfl
      rw [hfresh] at hlive
      cases hlive
    rw [admit_none (((hw.jobs id).trans (if_neg hne)).trans hfresh)]
    exact advances_rewrites hl hw hlive ⟨rfl, rfl⟩ (Or.inr rfl)
  · exact advances_insert_one hl (fun e => rowOf_intoWindow e options now) hins hdeps hids hjoin

/-! ## Purges -/

theorem Purge.archived_of_mem {p : Purge}
    (h : id ∈ p.ids s now) : ∃ row, s.archived.find id = some row := by
  have hrow : ∃ row ∈ s.archived.rows, row.id = id := by
    cases p with
    | trim =>
      obtain ⟨row, hrow, rfl⟩ := mem_map.mp h
      have hmem := mem_of_mem_take hrow
      rw [mem_insertionSort] at hmem
      exact ⟨row, mem_of_mem_filter hmem, rfl⟩
    | completed _ | globalTtl _ | perEntryTtl =>
      obtain ⟨row, hrow, rfl⟩ := mem_map.mp h
      exact ⟨row, mem_of_mem_filter (mem_of_mem_take hrow), rfl⟩
  obtain ⟨row, hmem, rfl⟩ := hrow
  exact ⟨row, find_of_mem hmem⟩

theorem advances_purge {p : Purge} (hl : Ledger t) (hspares : Spares t (now, .purge p)) :
    Advances tidy t { t with store := p.run t.store now } := by
  rw [Purge.run_eq]
  have herases : t.scene.board.Erases
      (boardOf t.births t.completed (purgeArchivedIdBatch t.store (p.ids t.store now)))
      (· ∈ p.ids t.store now) :=
    erases_purge hl.books fun id hid => Purge.archived_of_mem hid
  refine ⟨⟨hl.books.purges _, hl.sees⟩, .single (.erases herases ?_ rfl)⟩
  intro a d hd hlost hlive hedge
  obtain ⟨row, hrow⟩ := live_phaseOf.mp hlive
  obtain ⟨old, hold⟩ := Purge.archived_of_mem hd
  have hawaited : awaited t.store d = true := by
    rw [awaited, any_eq_true]
    exact ⟨a, mem_dependentsOf.mpr hedge, by rw [hrow]; rfl⟩
  have hcomplete : old.status = .complete := by simpa [hold] using hspares d hd hawaited
  have hgone : t.store.jobs.find d = none := by
    cases hfind : t.store.jobs.find d with
    | none => rfl
    | some live =>
      rw [hl.books.separate d live hfind] at hold
      cases hold
  have hphase := phaseOf_archived hgone hold
  rw [if_pos hcomplete, show phaseOf t.store d = .lost from hlost] at hphase
  cases hphase

/-! ## Cascades -/

theorem advances_read (hl : Ledger t) (hc : t.cascades[i]? = some c) : Advances tidy t
      { t with
        cascades := t.cascades.set i
          ⟨c.search.expand (dependentsOf t.store), c.reason, c.scope⟩ } := by
  obtain ⟨hlt, hget⟩ := List.getElem?_eq_some_iff.mp hc
  have hmem : c ∈ t.cascades := mem_of_getElem? hc
  refine ⟨⟨hl.books, ?_⟩, .single (.reads (c := c.search) rfl (mem_map_of_mem hmem)
    (fun p a => mem_dependentsOf) ?_ ?_ ?_)⟩
  · intro c' hc' x hx
    rcases mem_or_eq_of_mem_set hc' with hc' | rfl
    · exact hl.sees c' hc' x hx
    · rcases Search.mem_expand hx with hx | ⟨p, hp, hx⟩
      · exact hl.sees c hmem x hx
      · -- A dependent lives in the namespace of what it depends on.
        obtain ⟨b, hb, d, hd, hbid, hdid, -, hns⟩ := hl.books.edges _ (mem_dependentsOf.mp hx)
        obtain ⟨d', hd', hdid', hvis⟩ := hl.sees c hmem p hp
        have heq : d = d' := hl.books.unique hd hd' (hdid.trans hdid'.symm)
        exact ⟨b, hb, hbid, by rw [hns, heq]; exact hvis⟩
  · intro c' hc'
    obtain ⟨k, hk, rfl⟩ := mem_map.mp hc'
    rcases mem_or_eq_of_mem_set hk with hk | rfl
    · exact Or.inl (mem_map_of_mem hk)
    · exact Or.inr rfl
  · intro c' hc'
    obtain ⟨k, hk, rfl⟩ := mem_map.mp hc'
    obtain ⟨j, hj, rfl⟩ := mem_iff_getElem.mp hk
    by_cases hij : i = j
    · right
      subst hij
      rw [hget]
    · left
      refine mem_map_of_mem (mem_iff_getElem.mpr ⟨j, by simpa using hj, ?_⟩)
      rw [getElem_set_ne hij]
  · exact mem_map_of_mem (mem_set hlt _)

theorem mem_map_of_mem_eraseIdx (hc : t.cascades[i]? = some c) :
    (∀ k ∈ (t.cascades.eraseIdx i).map Cascade.search, k ∈ t.cascades.map Cascade.search) ∧
      ∀ k ∈ t.cascades.map Cascade.search,
        k ∈ (t.cascades.eraseIdx i).map Cascade.search ∨ k = c.search := by
  constructor
  · intro k hk
    obtain ⟨c', hc', rfl⟩ := mem_map.mp hk
    exact mem_map_of_mem (mem_of_mem_eraseIdx hc')
  · intro k hk
    obtain ⟨c', hc', rfl⟩ := mem_map.mp hk
    obtain ⟨j, hj⟩ := mem_iff_getElem?.mp hc'
    by_cases hij : j = i
    · right
      rw [hij, hc] at hj
      cases hj
      rfl
    · left
      exact mem_map_of_mem (mem_eraseIdx_iff_getElem?.mpr ⟨j, hij, hj⟩)

theorem advances_finish {rows : List Job} (hl : Ledger t)
    (hc : t.cascades[i]? = some c) (hidx : c.search.idx = c.search.queue.length)
    (ha : Archives t.store s' rows) (hfrom : CancelledFrom t.store rows)
    (honly : ∀ r ∈ rows, r.id ∈ c.search.found)
    (hall : ∀ id ∈ c.search.found, ∀ row, t.store.jobs.find id = some row →
      row.status = .pending → visibleIn c.scope row.namespace = true → id ∈ rows.map Job.id) :
    Advances tidy t { t with store := s', cascades := t.cascades.eraseIdx i } := by
  have hmem : c ∈ t.cascades := mem_of_getElem? hc
  obtain ⟨hsub, hsup⟩ := mem_map_of_mem_eraseIdx hc
  have hends : t.scene.board.Ends (boardOf t.births t.completed s') (· ∈ rows.map Job.id) :=
    ends_lost ha hfrom.leaving hfrom.not_complete
  refine ⟨⟨hl.books.archives ha hfrom.leaving, ?_⟩,
    .single (.finishes hends (mem_map_of_mem hmem) hidx ?_ ?_ hsub hsup)⟩
  · exact fun c' hc' => hl.sees c' (mem_of_mem_eraseIdx hc')
  · intro id hid hpend
    obtain ⟨row, hrow, hstatus⟩ := pending_phaseOf hpend
    refine hall id hid row hrow hstatus ?_
    -- The cascade met the job, so its caller may see it.
    obtain ⟨b, hb, hbid, hvis⟩ := hl.sees c hmem id (mem_of_mem_tail hid)
    obtain ⟨-, b', hb', hbid', hns, -⟩ := hl.books.live id row hrow
    rw [← hns, hl.books.unique hb' hb (hbid'.trans hbid.symm)]
    exact hvis
  · intro id hid
    obtain ⟨r, hr, rfl⟩ := mem_map.mp hid
    exact honly r hr

/-! ## Dequeues -/

theorem Dequeue.run_ok (h : d.run s now = .ok (out, s')) : (out = ⟨[], []⟩ ∧ s' = s) ∨
      ∃ max, claimLoop max now s ⟨[], []⟩ (d.window s now) = .ok (out, s') := by
  obtain ⟨queue, ns, order, max⟩ := d
  cases max with
  | none => exact Or.inr ⟨1, h⟩
  | some max =>
    unfold Dequeue.run dequeueBatchOrdered at h
    simp only [] at h
    split at h
    · cases h
      exact Or.inl ⟨rfl, rfl⟩
    · exact Or.inr ⟨max, h⟩

theorem Dequeue.live_of_mem_window (h : row ∈ d.window s now) : s.jobs.find row.id = some row := by
  have hmem := mem_of_mem_take h
  rw [orderedCandidates, mem_insertionSort] at hmem
  exact find_of_mem (mem_of_mem_filter hmem)

structure Dequeuing (tidy : Prop) (t : Timeline) (s : Store) (out : Dequeued) : Prop where
  advances : Advances tidy t { t with store := s }
  edges : s.edges = t.store.edges
  pending : ∀ k row, s.jobs.find k = some row → row.status = .pending →
    ∃ row₀, t.store.jobs.find k = some row₀ ∧ row₀.status = .pending
  claimed : ∀ job ∈ out.claimed, ∃ b ∈ t.births, b.id = job.id ∧
    ∀ dep ∈ b.dependsOn, dep ∈ t.completed

theorem Dequeuing.expires
    (h : Dequeuing tidy t s out) (harch : archiveExpiredCandidate s id now = .ok (job, s'))
    (hfree : tidy → pendingDependents t.store id = []) :
    Dequeuing tidy t s' { out with expired := out.expired ++ [job] } := by
  obtain ⟨row, hrow, rfl, ha⟩ := archiveExpiredCandidate_ok harch
  let t₁ : Timeline := { t with store := s }
  have hstep : Advances tidy t₁ { t with store := s' } := by
    refine advances_drop_one h.advances.1 hrow ha (by decide) fun htidy => ?_
    refine eq_nil_iff_forall_not_mem.mpr fun dep hdep => ?_
    -- A pending dependent was one before the call.
    obtain ⟨hmem, hpend⟩ := mem_filter.mp hdep
    obtain ⟨r', hr', hstatus⟩ := (Option.any_eq_true _ _).mp hpend
    obtain ⟨r₀, hr₀, hpend₀⟩ := h.pending dep r' hr' (by simpa using hstatus)
    have hedge := mem_dependentsOf.mp hmem
    rw [show t₁.store.edges = t.store.edges from h.edges] at hedge
    have hin := mem_pendingDependents hedge hr₀ hpend₀
    rw [hfree htidy] at hin
    cases hin
  refine ⟨h.advances.trans hstep, ha.edges.trans h.edges, ?_, h.claimed⟩
  intro k r hr hpend
  rw [ha.jobs] at hr
  split at hr
  · cases hr
  · exact h.pending k r hr hpend

theorem Dequeuing.claims (hbooks : Books t.births t.store) (hsound : t.scene.board.Sound)
    (h : Dequeuing tidy t s out) (hcand : t.store.jobs.find row.id = some row)
    (hgate : row.hasDeps = true → depsSatisfied s row.id = true)
    (hclaim : claimPending s row.id now = (some job, s')) :
    Dequeuing tidy t s' { out with claimed := out.claimed ++ [job] } := by
  rcases claimPending_spec s row.id now with hsame | ⟨row₀, s₁, hsome, hrow₀, hpend, hw, -⟩
  · rw [hsame] at hclaim
    cases hclaim
  rw [hsome] at hclaim
  cases hclaim
  let t₁ : Timeline := { t with store := s }
  have hid : row₀.id = row.id := key_of_find hrow₀
  obtain ⟨-, b, hb, hbid, -, hdeps⟩ := hbooks.live _ _ hcand
  have hgate₀ : row₀.hasDeps = true → depsSatisfied s row.id = true := by
    obtain ⟨-, b₀, hb₀, hbid₀, -, hdeps₀⟩ := h.advances.1.books.live _ _ hrow₀
    have heq : b₀ = b := hbooks.unique hb₀ hb (hbid₀.trans hbid.symm)
    rw [hdeps₀, heq, ← hdeps]
    exact hgate
  have hstep : Advances tidy t₁ { t with store := s' } :=
    advances_starts h.advances.1 hw hrow₀ hpend hgate₀
  have hall := h.advances.trans hstep
  refine ⟨hall, hw.edges.trans h.edges, ?_, ?_⟩
  · intro k r hr hp
    rw [hw.jobs] at hr
    split at hr
    · cases hr
      cases hp
    · exact h.pending k r hr hp
  · intro j hj
    rcases mem_append.mp hj with hj | hj
    · exact h.claimed j hj
    · rw [mem_singleton.mp hj]
      refine ⟨b, hb, hbid.trans hid.symm, fun dep hdep => ?_⟩
      -- It runs now, and whoever runs waits for nothing that is not done.
      refine (hall.2.sound hsound).ran row.id dep ⟨b, hb, hbid, hdep⟩ ?_
      show phaseOf s' row.id = .running
      have hrow' : s'.jobs.find row.id = some (row₀.startedBy now) := by rw [hw.jobs, if_pos rfl]
      rw [phaseOf_live hrow']
      rfl

/-- **A dequeue** moves the scene, and hands out only jobs whose
dependencies have all completed. -/
theorem dequeuing_run (hl : Ledger t)
    (hsound : t.scene.board.Sound) (h : d.run t.store now = .ok (out, s'))
    (hfree : tidy → ∀ row ∈ d.window t.store now, row.expiredAt now = true →
      pendingDependents t.store row.id = []) : Dequeuing tidy t s' out := by
  have hstart : Dequeuing tidy t t.store ⟨[], []⟩ :=
    ⟨.refl hl, rfl, fun k row hrow hp => ⟨row, hrow, hp⟩, fun job hjob => by cases hjob⟩
  rcases Dequeue.run_ok h with ⟨rfl, rfl⟩ | ⟨max, hloop⟩
  · exact hstart
  · refine claimLoop_invariant (P := Dequeuing tidy t) ?_ ?_ (List.Subset.refl _) hloop hstart
    · intro s out row job s₁ hP hrow _ hexp harch
      exact hP.expires harch fun htidy => hfree htidy row hrow hexp
    · intro s out row job s₁ hP hrow _ hgate hclaim
      exact hP.claims hl.books hsound (Dequeue.live_of_mem_window hrow) hgate hclaim

/-! ## Completions, failures and dead letters -/

theorem advances_complete {result : Option Bytes} (hl : Ledger t)
    (h : complete t.store id result scope now = .ok s') :
    Advances tidy t { t with store := s', completed := id :: t.completed } := by
  obtain ⟨row, hrow, hrun, ha⟩ := complete_ok h
  obtain rfl : row.id = id := key_of_find hrow
  have hfrom : LeavingFrom t.store
      [{ row.finish .complete now row.error with result := result }] :=
    forall_mem_singleton.mpr ⟨row, hrow, rfl, fun _ => hrun⟩
  have hstep : Advances tidy t _ := advances_completes hl ha hfrom rfl
  exact hstep

theorem advances_completeBatch : ∀ {completions : List (String × Option Bytes)} {t : Timeline}
    {s' : Store} {scope : Scope} {now : Int}, Ledger t →
    completeBatch t.store scope now completions = .ok s' →
    Advances tidy t
      { t with store := s', completed := (completions.map Prod.fst).reverse ++ t.completed }
  | [], t, s', scope, now, hl, h => by
    cases h
    exact .refl hl
  | (id, result) :: rest, t, s', scope, now, hl, h => by
    obtain ⟨s₁, h₁, h₂⟩ := bind_eq_ok.mp h
    have hstep : Advances tidy t { t with store := s₁, completed := id :: t.completed } :=
      advances_complete hl h₁
    have hrest := hstep.trans (advances_completeBatch hstep.1 h₂)
    simpa using hrest

/-- `dead_letter`: the job is lost, or it was gone already; its cascade sets
out either way. -/
theorem advances_deadLetter {error : String} {shed : Bool} (hl : Ledger t)
    (h : deadLetterIn serde t.store job error metadata shed deadId now = .ok s')
    (hborn : ∃ b ∈ t.births, b.id = job.id ∧ b.namespace = job.namespace) (reason : String) :
    Advances tidy t (({ t with store := s' } : Timeline).begin job.id reason job.namespace) := by
  have hvis := visibleIn_self job.namespace
  obtain ⟨b, hb, hbid, hbns⟩ := hborn
  obtain ⟨dead, -, hdead⟩ := deadLetterIn_ok h
  -- The entry itself touches neither table.
  have hpre : Advances tidy t { t with store := { t.store with dead := dead } } :=
    advances_untouched hl ⟨rfl, rfl, rfl⟩
  rcases hdead with ⟨row, hrow, ha⟩ | ⟨hnone, rfl⟩
  · have hid : row.id = job.id := key_of_find hrow
    have hns : row.namespace = job.namespace := by
      obtain ⟨-, b', hb', hbid', hbns', -⟩ := hl.books.live _ _ hrow
      rw [← hbns', hl.books.unique hb' hb (hbid'.trans hbid.symm), hbns]
    have hfrom : LeavingFrom { t.store with dead := dead } [row.finish .dead now (some error)] :=
      leavingFrom_one hrow .dead now (some error) (by decide)
    have hsees : visibleIn job.namespace (row.finish .dead now (some error)).namespace = true := by
      show visibleIn job.namespace row.namespace = true
      rw [hns]
      exact hvis
    have hstep : Advances tidy _ (Timeline.begin _ (row.finish .dead now (some error)).id reason
        job.namespace) :=
      advances_loses hpre.1 ha hfrom (by simp [Job.finish]) hsees
    rw [← hid]
    exact hpre.trans hstep
  · refine ⟨hpre.1.begin ⟨b, hb, hbid, hbns ▸ hvis⟩, hpre.2.trans (.single ?_)⟩
    refine .begins rfl (mem_map.mpr ⟨b, hb, hbid⟩) ?_ rfl
    intro hlive
    obtain ⟨row, hrow⟩ := live_phaseOf.mp hlive
    rw [show ({ t.store with dead := dead } : Store).jobs.find job.id = none from hnone] at hrow
    cases hrow

/-- One job inserted and dead-lettered in one transaction: it was never
there to be seen. -/
theorem advances_shed_one {s₁ : Store} {error : String} (hl : Ledger t)
    (hins : insertJob t.store job = .ok s₁)
    (hdead : deadLetterIn serde s₁ job error metadata true deadId now = .ok s')
    (hfresh : job.id ∉ t.births.map Birth.id) :
    Advances tidy t
      { t with store := s', births := t.births ++ [⟨job.id, job.namespace, []⟩] } := by
  obtain ⟨hnone, hjobs, harch, -, -, hedges⟩ := insertJob_ok hins
  have hlive₁ : s₁.jobs.find job.id = some job := by rw [hjobs, if_pos rfl]
  -- Together: one more archived row, and nothing else.
  obtain ⟨dead, -, ⟨row, hrow, ha⟩ | ⟨hgone, -⟩⟩ := deadLetterIn_ok hdead
  swap
  · rw [hlive₁] at hgone
    cases hgone
  rw [hlive₁] at hrow
  cases hrow
  have hjobs' : ∀ k, s'.jobs.find k = t.store.jobs.find k := by
    intro k
    rw [ha.jobs]
    by_cases hk : k = job.id
    · rw [if_pos (by simp [hk, Job.finish]), hk, hnone]
    · rw [if_neg (by simpa [Job.finish] using hk)]
      exact (hjobs k).trans (if_neg hk)
  have harch' : ∀ k, k ≠ job.id → s'.archived.find k = t.store.archived.find k := by
    intro k hk
    rw [ha.archived k (by simpa [Job.finish] using hk)]
    exact congrArg (fun a => Table.find a k) harch
  have hmoved : s'.archived.find job.id = some (job.finish .dead now (some error)).archived :=
    ha.moved _ (mem_singleton_self _)
  have hedges' : s'.edges = t.store.edges := ha.edges.trans hedges
  have hlost : phaseOf s' job.id = .lost := by
    rw [phaseOf_archived ((hjobs' job.id).trans hnone) hmoved]
    rfl
  have hold : ∀ {b}, b ∈ t.births → b ∈ t.births ++ [⟨job.id, job.namespace, []⟩] :=
    fun hb => mem_append_left _ hb
  refine ⟨⟨⟨?_, ?_, ?_, ?_, ?_⟩, ?_⟩, ?_⟩
  · rw [map_append, nodup_append']
    refine ⟨hl.books.ids, nodup_singleton _, fun x hx hx' => ?_⟩
    rw [show x = job.id from mem_singleton.mp hx'] at hx
    exact hfresh hx
  · intro k r hr
    obtain ⟨hs, b, hb, hrest⟩ := hl.books.live k r ((hjobs' k).symm.trans hr)
    exact ⟨hs, b, hold hb, hrest⟩
  · intro k r hr
    by_cases hk : k = job.id
    · subst hk
      have hrow := hmoved.symm.trans hr
      cases hrow
      exact ⟨_, mem_append_right _ (mem_singleton_self _), rfl, rfl⟩
    · obtain ⟨b, hb, hrest⟩ := hl.books.archived k r ((harch' k hk).symm.trans hr)
      exact ⟨b, hold hb, hrest⟩
  · intro e he
    obtain ⟨b, hb, d, hd, hrest⟩ := hl.books.edges e (hedges' ▸ he)
    exact ⟨b, hold hb, d, hold hd, hrest⟩
  · intro k r hr
    have hr₀ := (hjobs' k).symm.trans hr
    have hk : k ≠ job.id := by
      rintro rfl
      rw [hnone] at hr₀
      cases hr₀
    exact (harch' k hk).trans (hl.books.separate k r hr₀)
  · intro c hc x hx
    obtain ⟨b, hb, hrest⟩ := hl.sees c hc x hx
    exact ⟨b, hold hb, hrest⟩
  · refine Moves.stillborn hfresh hlost ?_ ?_ ?_ ?_ ?_ (fun _ => Iff.rfl) rfl
    · exact fun k hk => phaseOf_congr (hjobs' k) (harch' k hk)
    · intro a d
      show _ ∈ s'.edges ↔ _ ∈ t.store.edges
      rw [hedges']
    · exact fun a he => hfresh (hl.books.born_of_edge he).2
    · intro a d
      show (∃ b ∈ t.births ++ _, _) ↔ ∃ b ∈ t.births, _
      simp
    · intro a
      show a ∈ List.map Birth.id (t.births ++ [_]) ↔ a ∈ List.map Birth.id t.births ∨ a = job.id
      simp

theorem advances_shedNewJobs :
    ∀ {jobs : List (Job × String × String)} {t : Timeline} {s' : Store}, Ledger t →
    shedNewJobs serde t.store metadata now jobs = .ok s' →
    (t.births.map Birth.id ++ jobs.map fun e => e.1.id).Nodup →
    Advances tidy t
      { t with
        store := s'
        births := t.births ++ jobs.map fun e => ⟨e.1.id, e.1.namespace, []⟩ }
  | [], t, s', hl, h, _ => by
    cases h
    simpa using Advances.refl hl
  | (job, error, deadId) :: rest, t, s', hl, h, hids => by
    obtain ⟨s₁, h₁, h⟩ := bind_eq_ok.mp h
    obtain ⟨s₂, h₂, h⟩ := bind_eq_ok.mp h
    have hsplit : ((t.births.map Birth.id ++ [job.id]) ++ rest.map fun e => e.1.id).Nodup := by
      simpa using hids
    have hfresh : job.id ∉ t.births.map Birth.id := fun hmem =>
      (nodup_append'.mp (nodup_append'.mp hsplit).1).2.2 hmem
        (mem_singleton_self _)
    have hstep : Advances tidy t _ := advances_shed_one hl h₁ h₂ hfresh
    have hrest := hstep.trans (advances_shedNewJobs hstep.1 h (by simpa using hsplit))
    simpa using hrest

theorem advances_retryDead {newId : String} (hl : Ledger t)
    (h : retryDead serde t.store deadId scope newId now = .ok (job, s'))
    (hids : (t.births.map Birth.id ++ [newId]).Nodup) :
    Advances tidy t
      { t with store := s', births := t.births ++ [⟨job.id, job.namespace, []⟩] } := by
  obtain ⟨dead, s₁, -, -, rfl, hins, rfl⟩ := retryDead_ok h
  have hone := inserts_bare hins
  exact advances_inserts hl ⟨hone.added, hone.jobs, hone.archived, hone.edges⟩
    ⟨forall_mem_singleton.mpr rfl, forall_mem_singleton.mpr rfl, forall_mem_singleton.mpr nofun⟩
    (by simpa [birthOf, NewJob.intoJob] using hids) rfl rfl rfl
    fun _ => forall_mem_singleton.mpr nofun

theorem advances_sweep {w : Sweep} {rows : List Job} (hl : Ledger t)
    (h : w.run t.store now = .ok (rows, s'))
    (hfree : tidy → ∀ id ∈ (w.rows t.store now).map Job.id,
      ∀ dep ∈ pendingDependents t.store id, dep ∈ (w.rows t.store now).map Job.id) :
    Advances tidy t { t with store := s' } := by
  have hids : ∀ {p : Job → Bool} {error : String},
      archivePending t.store p now error = .ok (rows, s') →
      rows.map Job.id = (((t.store.jobs.rows.filter fun row =>
        row.status = .pending && p row).take massArchiveBatch).map Job.id) := by
    intro p error hrun
    obtain ⟨s₁, -, hrun⟩ := bind_eq_ok.mp hrun
    cases hrun
    exact map_map
  obtain ⟨ha, hfrom, hrows⟩ : Archives t.store s' rows ∧ CancelledFrom t.store rows ∧
      rows.map Job.id = (w.rows t.store now).map Job.id := by
    cases w with
    | expire | byQueue _ | byTask _ =>
      obtain ⟨ha, hfrom, -⟩ := archivePending_ok h
      exact ⟨ha, hfrom, hids h⟩
  refine advances_drops hl ha hfrom.leaving hfrom.not_complete fun htidy r hr dep hdep => ?_
  rw [hrows]
  exact hfree htidy r.id (hrows ▸ mem_map_of_mem hr) dep hdep

/-- **Every act is a number of moves**, if it spares what is needed; of tidy
ones, if it is polite. -/
theorem call_advances {a : Act} (hl : Ledger t)
    (hsound : t.scene.board.Sound) (hproper : a.Proper t) (hspares : Spares t (now, a))
    (hpolite : tidy → Polite t (now, a)) (h : t.call serde now a = .ok t') :
    Advances tidy t t' := by
  have hjoin : Joins tidy t a.dependsOn := fun htidy => (hpolite htidy).joins
  have hdrop : tidy → ∀ id ∈ a.drops t.store now, ∀ dep ∈ pendingDependents t.store id,
      dep ∈ a.takes t.store now := fun htidy => (hpolite htidy).drops
  have halone : ∀ {id}, id ∈ a.drops t.store now → a.takes t.store now = [] → tidy →
      pendingDependents t.store id = [] := by
    intro id hid htakes htidy
    refine eq_nil_iff_forall_not_mem.mpr fun dep hdep => ?_
    have htaken := hdrop htidy id hid dep hdep
    rw [htakes] at htaken
    cases htaken
  cases a with
  | enqueue =>
    obtain ⟨⟨job, s'⟩, hrun, h⟩ := bind_eq_ok.mp h
    cases h
    exact advances_enqueue hl hrun hproper.1 hjoin
  | enqueueBatch =>
    obtain ⟨⟨jobs, s'⟩, hrun, h⟩ := bind_eq_ok.mp h
    cases h
    exact advances_enqueueBatch hl hrun hproper.1 hjoin
  | enqueueUnique =>
    obtain ⟨⟨out, s'⟩, hrun, h⟩ := bind_eq_ok.mp h
    cases h
    exact advances_enqueueUnique hl hrun hproper.1 hjoin
  | enqueueUniqueBatch =>
    obtain ⟨⟨out, s'⟩, hrun, h⟩ := bind_eq_ok.mp h
    cases h
    exact advances_enqueueUniqueBatch hl hrun hproper.1 hjoin
  | enqueueDebounced =>
    obtain ⟨⟨job, s'⟩, hrun, h⟩ := bind_eq_ok.mp h
    cases h
    exact advances_enqueueDebounced hl hrun hproper.1 hjoin
  | dequeue =>
    obtain ⟨⟨out, s'⟩, hrun, h⟩ := bind_eq_ok.mp h
    cases h
    refine (dequeuing_run hl hsound hrun fun htidy row hrow hexp => ?_).advances
    exact halone (mem_map.mpr ⟨row, mem_filter.mpr ⟨hrow, hexp⟩, rfl⟩) rfl htidy
  | complete =>
    obtain ⟨s', hrun, h⟩ := bind_eq_ok.mp h
    cases h
    exact advances_complete hl hrun
  | completeBatch =>
    obtain ⟨s', hrun, h⟩ := bind_eq_ok.mp h
    cases h
    exact advances_completeBatch hl hrun
  | fail id =>
    obtain ⟨s', hrun, h⟩ := bind_eq_ok.mp h
    cases h
    obtain ⟨row, hrow, hstatus, ha⟩ := fail_ok hrun
    have hkey : row.id = id := key_of_find hrow
    refine advances_drop_one hl hrow ha (by decide) (halone ?_ rfl)
    simp [Act.drops, hrow, Option.filter, hstatus, hkey]
  | markCancelled id =>
    obtain ⟨s', hrun, h⟩ := bind_eq_ok.mp h
    cases h
    rcases markCancelled_ok hrun with rfl | ⟨row, hrow, hvis, ha⟩
    · exact .refl hl
    · have hkey : row.id = id := key_of_find hrow
      refine advances_drop_one hl hrow ha (by decide) (halone ?_ rfl)
      simp [Act.drops, hrow, Option.filter, hvis, hkey]
  | cancelJob id scope =>
    obtain ⟨⟨cancelled, s'⟩, hrun, h⟩ := bind_eq_ok.mp h
    cases h
    rcases cancelJobRow_ok hrun with ⟨rfl, rfl⟩ | ⟨rfl, row, hrow, -, hvis, ha⟩
    · exact .refl hl
    · obtain rfl : row.id = id := key_of_find hrow
      have hfrom := leavingFrom_one hrow .cancelled now row.error (by decide)
      have hstep : Advances tidy t (Timeline.begin _ (row.finish .cancelled now row.error).id
          dependencyCancelled scope) :=
        advances_loses hl ha hfrom (by simp [Job.finish]) hvis
      exact hstep
  | deadLetter =>
    obtain ⟨s', hrun, h⟩ := bind_eq_ok.mp h
    cases h
    exact advances_deadLetter hl hrun hproper.2 dependencyFailed
  | shedNewJobs =>
    obtain ⟨s', hrun, h⟩ := bind_eq_ok.mp h
    cases h
    exact advances_shedNewJobs hl hrun hproper.1
  | retryDead =>
    obtain ⟨⟨job, s'⟩, hrun, h⟩ := bind_eq_ok.mp h
    cases h
    exact advances_retryDead hl hrun hproper.1
  | sweep =>
    obtain ⟨⟨rows, s'⟩, hrun, h⟩ := bind_eq_ok.mp h
    cases h
    exact advances_sweep hl hrun hdrop
  | cascadeRead =>
    simp only [Timeline.call] at h
    split at h
    · next c hc =>
      cases h
      exact advances_read hl hc
    · cases h
      exact .refl hl
  | cascadeWrite =>
    simp only [Timeline.call] at h
    split at h
    · next c hc =>
      split at h
      · cases h
        exact .refl hl
      next hidx =>
      rw [ne_eq, not_not] at hidx
      split at h
      · next hempty =>
        cases h
        have hnone : c.search.found = [] := isEmpty_iff.mp hempty
        refine advances_finish hl hc hidx (.nil t.store) (fun r hr => by cases hr)
          (fun r hr => by cases hr) fun id hid => ?_
        rw [hnone] at hid
        cases hid
      · obtain ⟨rows, s', hrun⟩ := cascadeArchive_isOk hl.books.separate c.search.found
          c.reason c.search.root c.scope now
        rw [hrun] at h
        cases h
        obtain ⟨ha, hfrom, honly, hall⟩ := cascadeArchive_ok hrun
        exact advances_finish hl hc hidx ha hfrom honly hall
    · cases h
      exact .refl hl
  | purge =>
    cases h
    exact advances_purge hl hspares
  | retry =>
    obtain ⟨s', hrun, h⟩ := bind_eq_ok.mp h
    cases h
    obtain ⟨row, hrow, -, hw, -⟩ := retry_ok hrun
    exact advances_rewrites hl hw hrow ⟨rfl, rfl⟩ (Or.inl rfl)
  | reschedule =>
    obtain ⟨s', hrun, h⟩ := bind_eq_ok.mp h
    cases h
    obtain ⟨row, hrow, -, hw, -⟩ := reschedule_ok hrun
    exact advances_rewrites hl hw hrow ⟨rfl, rfl⟩ (Or.inl rfl)
  | requeueStuck id =>
    cases h
    rcases requeueStuck_spec t.store id now with heq | ⟨row, s', heq, hrow, -, hw, -⟩
    · rw [heq]
      exact .refl hl
    · rw [heq]
      exact advances_rewrites hl hw hrow ⟨rfl, rfl⟩ (Or.inl rfl)
  | requestCancel =>
    cases h
    simp only [requestCancel]
    split
    · next row hrow =>
      split
      · exact advances_rewrites hl (rewrites_update _ t.store.claims hrow) hrow
          ⟨rfl, rfl⟩ (Or.inr rfl)
      · exact .refl hl
    · exact .refl hl
  | sleepJob =>
    obtain ⟨⟨outcome, s'⟩, hrun, h⟩ := bind_eq_ok.mp h
    cases h
    obtain ⟨row, at', hrow, -, -, hw, -⟩ := sleepJob_ok hrun
    exact advances_rewrites hl hw hrow ⟨rfl, rfl⟩ (Or.inl rfl)
  | recordStepResult =>
    obtain ⟨⟨commit, s'⟩, hrun, h⟩ := bind_eq_ok.mp h
    cases h
    obtain ⟨ns, s₁, steps, hfence, rfl⟩ := recordStepResult_ok hrun
    obtain ⟨-, claims, rfl, -⟩ := resolveAttemptFence_ok hfence
    exact advances_untouched hl ⟨rfl, rfl, rfl⟩
  | claimExecution | completeExecution | reclaimExecution | claimSettle | deleteDead =>
    cases h
    simp only [claimExecution, completeExecution, reclaimExecution, claimSettle, deleteDead]
    repeat' split
    all_goals exact advances_untouched hl ⟨rfl, rfl, rfl⟩
  | purgeExecutionClaims | purgeDead =>
    cases h
    exact advances_untouched hl ⟨rfl, rfl, rfl⟩
  | awaitSettle =>
    obtain ⟨⟨out, s'⟩, hrun, h⟩ := bind_eq_ok.mp h
    cases h
    rcases awaitSettle_ok hrun with ⟨-, rfl⟩ | ⟨ns, s₁, hfence, -, rfl⟩
    · exact .refl hl
    · obtain ⟨-, claims, rfl, -⟩ := resolveAttemptFence_ok hfence
      exact advances_untouched hl ⟨rfl, rfl, rfl⟩

theorem next_advances {label : Int × Act} (hl : Ledger t)
    (hsound : t.scene.board.Sound) (hspares : Spares t label) (hpolite : tidy → Polite t label)
    (h : t.next serde label = some t') : Advances tidy t t' := by
  unfold Timeline.next at h
  split at h
  · next hproper =>
    cases h
    cases hcall : t.call serde label.1 label.2 with
    | error => exact .refl hl
    | ok => exact call_advances hl hsound hproper hspares hpolite hcall
  · cases h

end Kinds

end FlexiQ.Sql
