/-
# `Sql.Ready` — a ready job in the scan window is not passed over

What one batch dequeue owes a job that is pending, due, unexpired, in the
asked namespace and free of unfinished dependencies: if the job is inside
the window, the call claims SOMETHING.  Nothing the loop does on its way to
the job can close the job's gate again, because a row that is not `Complete`
and stands in nobody's way is all the loop ever touches.
-/
import FlexiQ.Sql.Calm

namespace FlexiQ.Sql

open List FlexiQ.Lib

variable {s s' : Store} {now : Int} {max : Nat} {rows : List Job} {row : Job} {out : Dequeued}
  {id : String}

structure Ready (s : Store) (queue : String) (now : Int) (ns : Scope) (job : Job) :
    Prop where
  live : s.jobs.find job.id = some job
  inQueue : job.queue = queue
  pending : job.status = .pending
  due : job.scheduledAt ≤ now
  unexpired : job.expiredAt now = false
  inNamespace : job.namespace = ns
  deps : ∀ dep ∈ dependenciesOf s job.id, (getJob s dep none).map Job.status = some .complete

theorem depsSatisfied_of_complete (hsep : Separate s)
    (h : ∀ dep ∈ dependenciesOf s id, (getJob s dep none).map Job.status = some .complete) :
    depsSatisfied s id = true := by
  rw [depsSatisfied_iff]
  intro dep hdep
  have hstatus := h dep (mem_dependenciesOf.mpr hdep)
  cases hlive : s.jobs.find dep with
  | some row =>
    simp only [getJob, hlive, visibleIn, if_true, Option.map_some, Option.some.injEq] at hstatus
    refine ⟨fun r hr => ?_, fun r hr => ?_⟩
    · cases hr
      exact hstatus
    · rw [hsep dep row hlive] at hr
      cases hr
  | none =>
    refine ⟨fun r hr => (by cases hr), fun r hr => ?_⟩
    simpa [getJob, hlive, hr, visibleIn, Option.filter] using hstatus

theorem depsSatisfied_of_ne {jobId : String} (hedges : s'.edges = s.edges)
    (hjobs : ∀ k, k ≠ jobId → s'.jobs.find k = s.jobs.find k)
    (harchived : ∀ k, k ≠ jobId → s'.archived.find k = s.archived.find k)
    (hrow : s.jobs.find jobId = some row) (hopen : row.status ≠ .complete)
    (hdeps : depsSatisfied s id = true) : depsSatisfied s' id = true := by
  rw [depsSatisfied_iff] at hdeps ⊢
  intro dep hdep
  rw [hedges] at hdep
  obtain ⟨hlive, harch⟩ := hdeps dep hdep
  have hne : dep ≠ jobId := by
    rintro rfl
    exact hopen (hlive row hrow)
  rw [hjobs dep hne, harchived dep hne]
  exact ⟨hlive, harch⟩

theorem depsSatisfied_archives {gone : Job} (h : Archives s s' [gone])
    (hrow : s.jobs.find gone.id = some row) (hopen : row.status ≠ .complete)
    (hdeps : depsSatisfied s id = true) : depsSatisfied s' id = true := by
  have hnot : ∀ k, k ≠ gone.id → k ∉ [gone].map Job.id :=
    fun k hk hmem => hk (mem_singleton.mp hmem)
  exact depsSatisfied_of_ne h.edges (fun k hk => by rw [h.jobs, if_neg (hnot k hk)])
    (fun k hk => h.archived k (hnot k hk)) hrow hopen hdeps

/-- The candidates still to come: each is where the scan read it. -/
structure Ahead (s : Store) (rows : List Job) : Prop where
  nodup : (rows.map Job.id).Nodup
  live : ∀ row ∈ rows, s.jobs.find row.id = some row
  pending : ∀ row ∈ rows, row.status = .pending
  fresh : ∀ row ∈ rows, s.archived.find row.id = none

namespace Ahead

section

variable (h : Ahead s (row :: rows))
include h

theorem ne {r : Job} (hr : r ∈ rows) : r.id ≠ row.id := by
  intro heq
  have hnodup := h.nodup
  rw [map_cons, nodup_cons] at hnodup
  exact hnodup.1 (heq ▸ mem_map_of_mem hr)

theorem tail : Ahead s rows where
  nodup := (nodup_cons.mp h.nodup).2
  live := fun r hr => h.live r (mem_cons_of_mem _ hr)
  pending := fun r hr => h.pending r (mem_cons_of_mem _ hr)
  fresh := fun r hr => h.fresh r (mem_cons_of_mem _ hr)

theorem archives {gone : Job} (ha : Archives s s' [gone])
    (hid : gone.id = row.id) : Ahead s' rows := by
  have hnot : ∀ r ∈ rows, r.id ∉ [gone].map Job.id := by
    intro r hr hmem
    exact h.ne hr (by simpa [hid] using hmem)
  refine { h.tail with live := fun r hr => ?_, fresh := fun r hr => ?_ }
  · rw [ha.jobs, if_neg (hnot r hr)]
    exact h.tail.live r hr
  · rw [ha.archived _ (hnot r hr)]
    exact h.tail.fresh r hr

theorem rewrites {row' : Job} (hw : Rewrites s s' row.id row') : Ahead s' rows := by
  refine { h.tail with live := fun r hr => ?_, fresh := fun r hr => ?_ }
  · rw [hw.jobs, if_neg (h.ne hr)]
    exact h.tail.live r hr
  · rw [hw.archived]
    exact h.tail.fresh r hr

end

end Ahead

/-- A candidate the loop will claim when it gets there. -/
def Claimable (s : Store) (now : Int) (row : Job) : Prop :=
  row.expiredAt now = false ∧ (row.hasDeps = true → depsSatisfied s row.id = true)

/-- What the loop does to the next candidate while it has room. -/
inductive Turn (s : Store) (now : Int) (row : Job) : Store → List Job → List Job → Prop
  | expire {s' : Store} (hexp : row.expiredAt now = true)
      (harch : Archives s s' [row.finish .cancelled now (some expiredBeforeExecution)]) :
      Turn s now row s' [] [row.finish .cancelled now (some expiredBeforeExecution)]
  | skip (hexp : row.expiredAt now = false) (hdeps : row.hasDeps = true)
      (hopen : depsSatisfied s row.id = false) : Turn s now row s [] []
  | claim (hfree : Claimable s now row) :
      Turn s now row (startPending s row.id now) [row.startedBy now] []

theorem claimLoop_turn (hahead : Ahead s (row :: rows)) (hroom : out.claimed.length ≠ max) :
    ∃ s' claimed expired, Turn s now row s' claimed expired ∧ Ahead s' rows ∧
      claimLoop max now s out (row :: rows) =
        claimLoop max now s' ⟨out.claimed ++ claimed, out.expired ++ expired⟩ rows := by
  have hrow := hahead.live row mem_cons_self
  have hpending := hahead.pending row mem_cons_self
  rw [claimLoop, if_neg hroom]
  by_cases hexp : row.expiredAt now = true
  · -- An expired candidate goes to the archive, which has room for it.
    obtain ⟨s', hs'⟩ := archiveJobRow_isOk
      (row.finish .cancelled now (some expiredBeforeExecution))
      (hahead.fresh row mem_cons_self)
    have harch := archiveJobRow_ok hs'
    have hstep : archiveExpiredCandidate s row.id now =
        .ok (row.finish .cancelled now (some expiredBeforeExecution), s') := by
      simp only [archiveExpiredCandidate, hrow, hs']
      rfl
    refine ⟨s', [], _, .expire hexp harch, hahead.archives harch rfl, ?_⟩
    rw [if_pos hexp, hstep, append_nil]
    rfl
  rw [if_neg hexp]
  rw [Bool.not_eq_true] at hexp
  by_cases hblocked : (row.hasDeps && !depsSatisfied s row.id) = true
  · have hboth := hblocked
    rw [Bool.and_eq_true, Bool.not_eq_true'] at hboth
    refine ⟨s, [], [], .skip hexp hboth.1 hboth.2, hahead.tail, ?_⟩
    rw [if_pos hblocked, append_nil, append_nil]
  · -- The candidate is free, so it is claimed here and now.
    have hw := rewrites_startPending now hrow hpending
    have hclaim : claimPending s row.id now =
        (some (row.startedBy now), startPending s row.id now) := by
      simp only [claimPending, hrow, hpending, if_true]
      rw [hw.jobs, if_pos rfl]
    have hfree : Claimable s now row := by
      refine ⟨hexp, fun hdeps => ?_⟩
      simpa [hdeps] using hblocked
    refine ⟨_, _, [], .claim hfree, hahead.rewrites hw, ?_⟩
    rw [if_neg hblocked, hclaim, append_nil]

theorem claimLoop_isOk : ∀ {rows : List Job} {s : Store} {out : Dequeued},
    Ahead s rows → ∃ out' s', claimLoop max now s out rows = .ok (out', s')
  | [], s, out, _ => ⟨out, s, rfl⟩
  | row :: rows, s, out, hahead => by
    by_cases hroom : out.claimed.length = max
    · exact ⟨out, s, by rw [claimLoop, if_pos hroom]⟩
    · obtain ⟨s', claimed, expired, -, hahead', hstep⟩ := claimLoop_turn hahead hroom
      rw [hstep]
      exact claimLoop_isOk hahead'

theorem claimLoop_keeps {P : Store → Dequeued → Prop} {cands : List Job}
    (hturn : ∀ s out row s' claimed expired, P s out → row ∈ cands →
      s.jobs.find row.id = some row → row.status = .pending → out.claimed.length ≠ max →
      Turn s now row s' claimed expired →
      P s' ⟨out.claimed ++ claimed, out.expired ++ expired⟩) :
    ∀ {rows : List Job} {s s' : Store} {out out' : Dequeued}, rows ⊆ cands → Ahead s rows →
      claimLoop max now s out rows = .ok (out', s') → P s out → P s' out'
  | [], s, s', out, out', _, _, h, hP => by
    cases h
    exact hP
  | row :: rows, s, s', out, out', hsub, hahead, h, hP => by
    by_cases hroom : out.claimed.length = max
    · rw [claimLoop, if_pos hroom] at h
      cases h
      exact hP
    · obtain ⟨s₁, claimed, expired, hone, hahead₁, hstep⟩ :=
        @claimLoop_turn s now max rows row out hahead hroom
      rw [hstep] at h
      refine claimLoop_keeps hturn (fun r hr => hsub (mem_cons_of_mem _ hr)) hahead₁ h ?_
      exact hturn _ _ _ _ _ _ hP (hsub mem_cons_self) (hahead.live row mem_cons_self)
        (hahead.pending row mem_cons_self) hroom hone

/-- **The loop claims something**, once it has or while a claimable candidate
is ahead of it. -/
theorem claimLoop_claims (hmax : 1 ≤ max) :
    ∀ {rows : List Job} {s : Store} {out : Dequeued}, Ahead s rows →
      (out.claimed ≠ [] ∨ ∃ job ∈ rows, Claimable s now job) →
      ∃ out' s', claimLoop max now s out rows = .ok (out', s') ∧ out'.claimed ≠ []
  | [], s, out, _, hgoal => by
    rcases hgoal with hsome | ⟨job, hjob, -⟩
    · exact ⟨out, s, rfl, hsome⟩
    · cases hjob
  | row :: rows, s, out, hahead, hgoal => by
    have hrow := hahead.live row mem_cons_self
    have hopen : row.status ≠ .complete := by
      rw [hahead.pending row mem_cons_self]
      decide
    by_cases hfull : out.claimed.length = max
    · refine ⟨out, s, by rw [claimLoop, if_pos hfull], ?_⟩
      rintro hnil
      rw [hnil, length_nil] at hfull
      omega
    obtain ⟨s', claimed, expired, hturn, hahead', hstep⟩ :=
      @claimLoop_turn s now max rows row out hahead hfull
    rw [hstep]
    refine claimLoop_claims hmax hahead' ?_
    cases hturn with
    | expire hexp harch =>
      rcases hgoal with hsome | ⟨job, hjob, hfree, hgate⟩
      · exact Or.inl (by rwa [append_nil])
      · rcases mem_cons.mp hjob with rfl | hjob
        · rw [hexp] at hfree
          cases hfree
        · refine Or.inr ⟨job, hjob, hfree, fun hdeps => ?_⟩
          exact depsSatisfied_archives harch hrow hopen (hgate hdeps)
    | skip hexp hdeps hblocked =>
      rcases hgoal with hsome | ⟨job, hjob, hfree, hgate⟩
      · exact Or.inl (by rwa [append_nil])
      · rcases mem_cons.mp hjob with rfl | hjob
        · rw [hgate hdeps] at hblocked
          cases hblocked
        · exact Or.inr ⟨job, hjob, hfree, hgate⟩
    | claim hfree => exact Or.inl (by simp)

theorem ahead_scan (hsep : Separate s) (queue : String) (now : Int) (ns : Scope)
    (limit : Nat) (order : DispatchOrder) :
    Ahead s (scanDequeueCandidates s queue now ns limit order) := by
  have hmem : ∀ row ∈ scanDequeueCandidates s queue now ns limit order,
      row ∈ s.jobs.rows ∧ candidate queue now ns row = true := by
    intro row hrow
    have hsorted := mem_of_mem_take hrow
    rw [orderedCandidates, mem_insertionSort, mem_filter] at hsorted
    exact hsorted
  have hsub : (scanDequeueCandidates s queue now ns limit order).Sublist
      (orderedCandidates s queue now ns order) := take_sublist _ _
  have hperm : (orderedCandidates s queue now ns order).Perm
      (s.jobs.rows.filter (candidate queue now ns)) := perm_insertionSort _ _
  refine ⟨?_, ?_, ?_, ?_⟩
  · refine (hsub.map Job.id).nodup ((hperm.map Job.id).nodup_iff.mpr ?_)
    exact s.jobs.nodup.sublist (filter_sublist.map _)
  · intro row hrow
    exact Table.find_of_mem (hmem row hrow).1
  · intro row hrow
    have hc := (hmem row hrow).2
    simp only [candidate, Bool.and_eq_true, decide_eq_true_eq] at hc
    exact hc.1.1.2
  · intro row hrow
    exact hsep row.id row (Table.find_of_mem (hmem row hrow).1)

/-- **A batch dequeue with a ready job in its window claims something.** -/
theorem dequeueBatchOrdered_claims {queue : String} {ns : Scope} {order : DispatchOrder}
    {job : Job} (hsep : Separate s) (hmax : 1 ≤ max) (hready : Ready s queue now ns job)
    (hwindow : job ∈ scanDequeueCandidates s queue now ns (scanLimit max) order) :
    ∃ out s', dequeueBatchOrdered s queue now ns max order = .ok (out, s') ∧
      out.claimed ≠ [] := by
  rw [dequeueBatchOrdered, if_neg (by omega)]
  refine claimLoop_claims hmax (ahead_scan hsep _ _ _ _ _)
    (Or.inr ⟨job, hwindow, hready.unexpired, fun _ => ?_⟩)
  exact depsSatisfied_of_complete hsep hready.deps

end FlexiQ.Sql
