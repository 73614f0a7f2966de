/-
# `Dispatch.Conserve` — a round accounts for every job it dequeued

From one job to the batch: the loops of the poller take the jobs one at a
time, and each leaves the others where they were, provided no job of the
batch waits for another (`Batch`).  The dequeue hands out such batches
(`Drawn`) whenever the state it starts from is coherent, so that every job of
a round comes to exactly one end.
-/
import FlexiQ.Dispatch.Fates
import FlexiQ.Dispatch.Spending

namespace FlexiQ.Dispatch

open List FlexiQ.Lib FlexiQ.Lib.Prog FlexiQ.Sql FlexiQ.Resilience
open FlexiQ.Scheduler (InFlight DispatchRecord)

variable {cfg : Settings} {w w' w₀ w₁ : World} {job : Job} {jobs kept out : List Job} {now : Int}
  {r : Result Bool}

/-! ## The batch -/

/-- Jobs that do not get into each other's way. -/
structure Batch (edges : List Edge) (jobs : List Job) : Prop where
  nodup : (jobs.map Job.id).Nodup
  loose : ∀ a ∈ jobs, ∀ b ∈ jobs, ¬ Behind edges a.id b.id

/-- Away from every job of the list. -/
def Outsider (edges : List Edge) (jobs : List Job) (id : String) : Prop :=
  ∀ job ∈ jobs, Bystander edges job id

namespace Batch

variable {edges : List Edge}

theorem tail (h : Batch edges (job :: jobs)) : Batch edges jobs :=
  ⟨(nodup_cons.mp h.nodup).2, fun a ha b hb =>
    h.loose a (mem_cons_of_mem _ ha) b (mem_cons_of_mem _ hb)⟩

theorem sublist (h : Batch edges jobs) (hsub : kept.Sublist jobs) : Batch edges kept :=
  ⟨(hsub.map _).nodup h.nodup, fun a ha b hb => h.loose a (hsub.subset ha) b (hsub.subset hb)⟩

theorem ne (h : Batch edges (job :: jobs)) {other : Job} (ho : other ∈ jobs) :
    other.id ≠ job.id := by
  intro heq
  exact (nodup_cons.mp h.nodup).1 (heq ▸ mem_map_of_mem ho)

theorem bystander (h : Batch edges (job :: jobs)) {other : Job} (ho : other ∈ jobs) :
    Bystander edges job other.id :=
  ⟨h.ne ho, h.loose job mem_cons_self other (mem_cons_of_mem _ ho)⟩

theorem outsider (h : Batch edges (job :: jobs)) : Outsider edges jobs job.id := fun _ ho =>
  ⟨(h.ne ho).symm, h.loose _ (mem_cons_of_mem _ ho) job mem_cons_self⟩

end Batch

theorem Apart.cons {edges : List Edge} (h : Apart (Bystander edges job) w w₁)
    (h' : Apart (Outsider edges jobs) w₁ w') : Apart (Outsider edges (job :: jobs)) w w' :=
  (h.mono fun _ hid => hid job mem_cons_self).trans
    (h'.mono fun _ hid r hr => hid r (mem_cons_of_mem _ hr))

def Settled (cfg : Settings) (w : World) (jobs : List Job) : Prop :=
  ∀ job ∈ jobs, ∃ f, Fate.Of cfg w job f

theorem Settled.none (h : w.picked = []) : Settled cfg w w.picked := by
  rw [h]
  exact fun _ hj => by cases hj

theorem Settled.cons {edges : List Edge} (hbatch : Batch edges (job :: jobs))
    (hfate : ∃ f, Fate.Of cfg w job f) (hapart : Apart (Outsider edges jobs) w w')
    (hrest : Settled cfg w' jobs) : Settled cfg w' (job :: jobs) := by
  intro other ho
  rcases mem_cons.mp ho with rfl | ho
  · obtain ⟨f, hf⟩ := hfate
    exact ⟨f, hf.later hapart hbatch.outsider⟩
  · exact hrest other ho

/-! ## The loops -/

theorem dispatchUnclaimed_settles : ∀ {jobs : List Job} {counts : GateCounts}
    {w w' : World} {r : Bool}, Batch w.store.edges jobs → Separate w.store →
    (∀ job ∈ jobs, Fresh cfg w job) → GoesOn cfg (dispatchUnclaimed cfg now counts jobs) w r w' →
    Settled cfg w' jobs ∧ Apart (Outsider w.store.edges jobs) w w'
  | [], _, w, _, _, _, _, _, h => by
    obtain ⟨-, rfl⟩ := h
    exact ⟨fun _ hj => (by cases hj), .refl _ _⟩
  | job :: jobs, counts, w, w', r, hbatch, hsep, hfresh, h => by
    obtain ⟨⟨done, counts'⟩, w₁, hone, hrest⟩ := goes_bind.mp h
    obtain ⟨rest, w₂, hmore, -, rfl⟩ := goes_bind.mp hrest
    obtain ⟨hfate, hapart⟩ := gateAndDispatch_fate (hfresh job mem_cons_self) hsep hone
    have hfresh₁ : ∀ other ∈ jobs, Fresh cfg w₁ other := fun other ho =>
      (hfresh other (mem_cons_of_mem _ ho)).of_place (hapart.place _ (hbatch.bystander ho))
    have hbatch₁ := hbatch.tail
    rw [← hapart.edges] at hbatch₁
    obtain ⟨hsettled, hothers⟩ :=
      dispatchUnclaimed_settles hbatch₁ (hapart.separate hsep) hfresh₁ hmore
    rw [hapart.edges] at hothers
    exact ⟨.cons hbatch hfate hothers hsettled, hapart.cons hothers⟩

theorem Claimed.of_place {won : Option Int} (h : Claimed cfg w (job, won))
    (hplace : w'.place job.id = w.place job.id) : Claimed cfg w' (job, won) := by
  cases won with
  | none =>
    show Fate.Of cfg w' job .foreign
    rw [Fate.Of, hplace]
    exact h
  | some epoch => exact Mine.of_place h hplace

theorem dispatchEach_settles : ∀ {items : List (Job × Option Int)}
    {counts : GateCounts} {w w' : World} {r : Bool}, Batch w.store.edges (items.map Prod.fst) →
    Separate w.store → (∀ item ∈ items, Claimed cfg w item) →
    GoesOn cfg (dispatchEach cfg now counts items) w r w' →
    Settled cfg w' (items.map Prod.fst) ∧
      Apart (Outsider w.store.edges (items.map Prod.fst)) w w'
  | [], _, w, _, _, _, _, _, h => by
    obtain ⟨-, rfl⟩ := h
    exact ⟨fun _ hj => (by cases hj), .refl _ _⟩
  | (job, none) :: items, counts, w, w', r, hbatch, hsep, hclaimed, h => by
    obtain ⟨hsettled, hothers⟩ := dispatchEach_settles hbatch.tail hsep
      (fun item hi => hclaimed item (mem_cons_of_mem _ hi)) h
    have hforeign : Fate.foreign.Of cfg w job := hclaimed (job, none) mem_cons_self
    exact ⟨.cons hbatch ⟨_, hforeign⟩ hothers hsettled, (Apart.refl _ _).cons hothers⟩
  | (job, some epoch) :: items, counts, w, w', r, hbatch, hsep, hclaimed, h => by
    obtain ⟨⟨done, counts'⟩, w₁, hone, hrest⟩ := goes_bind.mp h
    obtain ⟨rest, w₂, hmore, -, rfl⟩ := goes_bind.mp hrest
    have hmine : Mine cfg w job := hclaimed (job, some epoch) mem_cons_self
    obtain ⟨hfate, hapart⟩ := dispatchClaimed_fate hmine hsep hone
    have hclaimed₁ : ∀ item ∈ items, Claimed cfg w₁ item := fun item hi =>
      (hclaimed item (mem_cons_of_mem _ hi)).of_place
        (hapart.place _ (hbatch.bystander (mem_map_of_mem hi)))
    have hbatch₁ := hbatch.tail
    rw [← hapart.edges] at hbatch₁
    obtain ⟨hsettled, hothers⟩ :=
      dispatchEach_settles hbatch₁ (hapart.separate hsep) hclaimed₁ hmore
    rw [hapart.edges] at hothers
    exact ⟨.cons hbatch hfate hothers hsettled, hapart.cons hothers⟩

/-! ## Admission and claims -/

/-- What CoDel makes of a batch: some jobs are kept, the others are dead. -/
structure Admitted (cfg : Settings) (w w' : World) (jobs kept : List Job) : Prop where
  sublist : kept.Sublist jobs
  fresh : ∀ job ∈ kept, Fresh cfg w' job
  settled : ∀ job ∈ jobs, job ∉ kept → ∃ f, Fate.Of cfg w' job f
  apart : Apart (Outsider w.store.edges jobs) w w'

theorem Admitted.keep (hbatch : Batch w.store.edges (job :: jobs)) (hfresh : Fresh cfg w job)
    (h : Admitted cfg w w' jobs kept) : Admitted cfg w w' (job :: jobs) (job :: kept) where
  sublist := h.sublist.cons_cons job
  fresh := by
    intro other ho
    rcases mem_cons.mp ho with rfl | ho
    · exact hfresh.of_place (h.apart.place _ hbatch.outsider)
    · exact h.fresh other ho
  settled := by
    intro other ho hnot
    rcases mem_cons.mp ho with rfl | ho
    · exact absurd mem_cons_self hnot
    · exact h.settled other ho fun hk => hnot (mem_cons_of_mem _ hk)
  apart := (Apart.refl _ w).cons h.apart

theorem Admitted.shed (hbatch : Batch w.store.edges (job :: jobs)) (hdead : Fate.dead.Of cfg w₁ job)
    (hapart : Apart (Bystander w.store.edges job) w w₁) (h : Admitted cfg w₁ w' jobs kept) :
    Admitted cfg w w' (job :: jobs) kept := by
  have hothers := h.apart
  rw [hapart.edges] at hothers
  refine ⟨h.sublist.cons job, h.fresh, fun other ho hnot => ?_, hapart.cons hothers⟩
  rcases mem_cons.mp ho with rfl | ho
  · exact ⟨_, hdead.later hothers hbatch.outsider⟩
  · exact h.settled other ho hnot

theorem codelAdmit_goes : ∀ {jobs : List Job} {w w' : World}
    {r : Result (List Job)}, Batch w.store.edges jobs → Separate w.store →
    (∀ job ∈ jobs, Fresh cfg w job) → GoesOn cfg (codelAdmit cfg now jobs) w r w' →
    ∃ kept, r = .ok kept ∧ Admitted cfg w w' jobs kept
  | [], w, _, _, _, _, _, h => by
    obtain ⟨rfl, rfl⟩ := h
    exact ⟨[], rfl, .refl _, fun _ hj => (by cases hj), fun _ hj => (by cases hj), .refl _ _⟩
  | job :: jobs, w, w', r, hbatch, hsep, hfresh, h => by
    have hjob := hfresh job mem_cons_self
    have hothers : ∀ other ∈ jobs, Fresh cfg w other := fun other ho =>
      hfresh other (mem_cons_of_mem _ ho)
    have hkeep : GoesOn cfg ((codelAdmit cfg now jobs).okThen fun kept =>
        pure (.ok (job :: kept))) w r w' →
        ∃ kept, r = .ok kept ∧ Admitted cfg w w' (job :: jobs) kept := by
      intro hgo
      obtain ⟨x, w₁, hmore, hlast⟩ := goes_okThen hgo
      obtain ⟨kept, rfl, hadmitted⟩ := codelAdmit_goes hbatch.tail hsep hothers hmore
      obtain ⟨hr, rfl⟩ := passes hlast
      exact ⟨job :: kept, hr, .keep hbatch hjob hadmitted⟩
    unfold codelAdmit at h
    split at h
    · exact hkeep h
    · obtain ⟨drop, w₁, hdrop, hrest⟩ := goes_bind.mp h
      obtain ⟨out, -, hout⟩ := goes_call.mp hdrop
      cases hout
      split at hrest
      · obtain ⟨x, w₂, hshed, hmore⟩ := goes_okThen hrest
        obtain ⟨rfl, hdead, hapart⟩ := shedToDlq_fate hjob.1 hsep hshed
        replace hmore := passes hmore
        have hbatch₂ := hbatch.tail
        rw [← hapart.edges] at hbatch₂
        obtain ⟨kept, rfl, hadmitted⟩ := codelAdmit_goes hbatch₂ (hapart.separate hsep)
          (fun other ho => (hothers other ho).of_place (hapart.place _ (hbatch.bystander ho)))
          hmore
        exact ⟨kept, rfl, .shed hbatch hdead hapart hadmitted⟩
      · exact hkeep hrest

def Elsewhere (jobs : List Job) (id : String) : Prop := ∀ job ∈ jobs, Other job id

theorem claimExecutionBatch_claimed (now : Int) (mint : Nat → Int) :
    ∀ {jobs : List Job} {w : World}, (jobs.map Job.id).Nodup → (∀ job ∈ jobs, Fresh cfg w job) →
      ∃ won s, Sql.claimExecutionBatch cfg.claimOwner now mint w.store (jobs.map Job.id) =
          (won, s) ∧ won.length = jobs.length ∧
        (∀ item ∈ jobs.zip won, Claimed cfg { w with store := s } item) ∧
        Apart (Elsewhere jobs) w { w with store := s }
  | [], w, _, _ => ⟨[], w.store, rfl, rfl, fun _ hi => (by cases hi), .refl _ _⟩
  | job :: jobs, w, hnodup, hfresh => by
    obtain ⟨hnot, hnodup⟩ := nodup_cons.mp hnodup
    obtain ⟨hapart, hclaimed⟩ := claimExecution_claimed (hfresh job mem_cons_self) now
      (mint (jobs.map Job.id).length)
    generalize hone : Sql.claimExecution w.store job.id cfg.claimOwner now
      (mint (jobs.map Job.id).length) = one at hapart hclaimed
    obtain ⟨won, s₁⟩ := one
    have hne : ∀ other ∈ jobs, other.id ≠ job.id := fun other ho heq =>
      hnot (heq ▸ mem_map_of_mem ho)
    obtain ⟨others, s, hrest, hlen, hitems, hothers⟩ :=
      claimExecutionBatch_claimed now mint (w := { w with store := s₁ }) hnodup
        fun other ho => (hfresh other (mem_cons_of_mem _ ho)).of_place
          (hapart.place _ (hne other ho))
    refine ⟨won :: others, s, ?_, congrArg (· + 1) hlen, ?_, ?_⟩
    · rw [map_cons, Sql.claimExecutionBatch, hone]
      simp only [hrest]
    · intro item hi
      rcases mem_cons.mp hi with rfl | hi
      · exact hclaimed.of_place (hothers.place _ fun other ho => (hne other ho).symm)
      · exact hitems item hi
    · exact (hapart.mono fun _ hid => hid job mem_cons_self).trans
        (hothers.mono fun _ hid r hr => hid r (mem_cons_of_mem _ hr))

theorem Batch.outsider_of_notMem {edges : List Edge} (h : Batch edges jobs) (hsub : kept ⊆ jobs)
    (hjob : job ∈ jobs) (hnot : job ∉ kept) : Outsider edges kept job.id := by
  intro other ho
  refine ⟨fun heq => hnot ?_, h.loose other (hsub ho) job hjob⟩
  rw [inj_on_of_nodup_map h.nodup hjob (hsub ho) heq]
  exact ho

theorem Admitted.settle (hbatch : Batch w.store.edges jobs) (h : Admitted cfg w w₁ jobs kept)
    (hkept : Settled cfg w' kept) (hapart : Apart (Outsider w.store.edges kept) w₁ w') :
    Settled cfg w' jobs := by
  intro job hjob
  by_cases hk : job ∈ kept
  · exact hkept job hk
  · obtain ⟨f, hf⟩ := h.settled job hjob hk
    exact ⟨f, hf.later hapart (hbatch.outsider_of_notMem h.sublist.subset hjob hk)⟩

section

variable (hbatch : Batch w.store.edges jobs) (hsep : Separate w.store)
  (hfresh : ∀ job ∈ jobs, Fresh cfg w job)
include hbatch hsep hfresh

theorem dispatchKept_settles (h : GoesOn cfg (do
      match ← Code.claimExecutionBatch (jobs.map Job.id) with
      | .error _ => return .ok (← dispatchUnclaimed cfg now .default jobs)
      | .ok claimed => return .ok (← dispatchEach cfg now .default (jobs.zip claimed))) w r w') :
    Settled cfg w' jobs ∧ Apart (Outsider w.store.edges jobs) w w' := by
  obtain ⟨x, w₁, hclaim, hrest⟩ := goes_bind.mp h
  obtain ⟨out, -, ⟨e, -, rfl, rfl⟩ | ⟨-, hans⟩⟩ := goes_ask hclaim
  · obtain ⟨_, w₂, hloop, -, rfl⟩ := goes_bind.mp hrest
    exact dispatchUnclaimed_settles hbatch hsep hfresh hloop
  · obtain ⟨won, s, hwon, hlen, hitems, hothers⟩ :=
      claimExecutionBatch_claimed out.now out.mint hbatch.nodup hfresh
    simp only [answer, hwon, World.commit] at hans
    cases hans
    obtain ⟨_, w₂, hloop, -, rfl⟩ := goes_bind.mp hrest
    have hjobs : (jobs.zip won).map Prod.fst = jobs := map_fst_zip (le_of_eq hlen.symm)
    have hbatch₁ := hbatch
    rw [← hothers.edges, ← hjobs] at hbatch₁
    obtain ⟨hsettled, hapart⟩ :=
      dispatchEach_settles hbatch₁ (hothers.separate hsep) hitems hloop
    rw [hjobs] at hsettled hapart
    rw [hothers.edges] at hapart
    exact ⟨hsettled, (hothers.mono fun _ hid job hj => (hid job hj).1).trans hapart⟩

theorem dispatchBatch_settles (h : GoesOn cfg (dispatchBatch cfg now jobs) w r w') :
    Settled cfg w' jobs ∧ w'.picked = w.picked := by
  unfold dispatchBatch at h
  split at h
  · next hnil =>
    obtain ⟨-, rfl⟩ := h
    rw [isEmpty_iff.mp hnil]
    exact ⟨fun _ hj => (by cases hj), rfl⟩
  · obtain ⟨x, w₁, hadmits, hrest⟩ := goes_okThen h
    obtain ⟨kept, rfl, hadmitted⟩ := codelAdmit_goes hbatch hsep hfresh hadmits
    replace hrest := passes hrest
    have hpicked := hadmitted.apart.picked
    split at hrest
    · next hnil =>
      obtain ⟨-, rfl⟩ := hrest
      rw [List.isEmpty_iff] at hnil
      refine ⟨hadmitted.settle hbatch ?_ (.refl _ _), hpicked⟩
      rw [hnil]
      exact fun _ hj => by cases hj
    · have hkept := hbatch.sublist hadmitted.sublist
      rw [← hadmitted.apart.edges] at hkept
      obtain ⟨hsettled, hapart⟩ := dispatchKept_settles hkept (hadmitted.apart.separate hsep)
        hadmitted.fresh hrest
      have hpicked' := hapart.picked
      rw [hadmitted.apart.edges] at hapart
      exact ⟨hadmitted.settle hbatch hsettled hapart, hpicked'.trans hpicked⟩

end

theorem dispatchOne_settles (hbatch : Batch w.store.edges [job]) (hsep : Separate w.store)
    (hfresh : Fresh cfg w job) (h : GoesOn cfg ((codelAdmit cfg now [job]).okThen fun kept =>
        match kept.getLast? with
        | none => pure (.ok false)
        | some job => do
          let (done, _) ← gateAndDispatch cfg job now .default
          return done) w r w') : Settled cfg w' [job] ∧ w'.picked = w.picked := by
  obtain ⟨x, w₁, hadmits, hrest⟩ := goes_okThen h
  obtain ⟨kept, rfl, hadmitted⟩ := codelAdmit_goes hbatch hsep
    (fun other ho => mem_singleton.mp ho ▸ hfresh) hadmits
  replace hrest := passes hrest
  have hpicked := hadmitted.apart.picked
  rcases sublist_singleton.mp hadmitted.sublist with rfl | rfl
  · obtain ⟨-, rfl⟩ := hrest
    exact ⟨hadmitted.settle hbatch (fun _ hj => (by cases hj)) (.refl _ _), hpicked⟩
  · obtain ⟨⟨done, counts⟩, w₂, hone, -, rfl⟩ := goes_bind.mp hrest
    obtain ⟨hfate, hapart⟩ := gateAndDispatch_fate (hadmitted.fresh job mem_cons_self)
      (hadmitted.apart.separate hsep) hone
    refine ⟨fun other ho => ?_, hapart.picked.trans hpicked⟩
    rw [mem_singleton.mp ho]
    exact hfate

/-! ## The dequeue -/

/-- Nothing of `row` keeps it from running. -/
def Unblocked (s : Store) (row : Job) : Prop :=
  row.hasDeps = true → depsSatisfied s row.id = true

structure Drawn (ns : Scope) (s₀ s : Store) (out : List Job) : Prop where
  edges : s.edges = s₀.edges
  separate : Separate s
  nodup : (out.map Job.id).Nodup
  running : ∀ job ∈ out, ∃ row, s.jobs.find job.id = some row ∧ row.status = .running ∧
    row.namespace = ns
  claims : ∀ job ∈ out, s.claims.find job.id = s₀.claims.find job.id
  before : ∀ job ∈ out, ∃ row, s₀.jobs.find job.id = some row ∧ row.status = .pending ∧
    Unblocked s₀ row
  waiting : ∀ id row, s.jobs.find id = some row → row.status = .pending →
    s₀.jobs.find id = some row ∧ s.claims.find id = s₀.claims.find id
  deps : ∀ id, depsSatisfied s id = true → depsSatisfied s₀ id = true

namespace Drawn

variable {ns : Scope} {s₀ s s' : Store} {row : Job}

theorem start (hsep : Separate s₀) : Drawn ns s₀ s₀ [] where
  edges := rfl
  separate := hsep
  nodup := nodup_nil
  running := fun _ h => by cases h
  claims := fun _ h => by cases h
  before := fun _ h => by cases h
  waiting := fun _ _ h _ => ⟨h, rfl⟩
  deps := fun _ h => h

section

variable (h : Drawn ns s₀ s out) (hrow : s.jobs.find row.id = some row)
  (hpend : row.status = .pending)
include h hrow hpend

theorem ne  (hjob : job ∈ out) : job.id ≠ row.id := by
  intro heq
  obtain ⟨row', hrow', hrun, -⟩ := h.running job hjob
  rw [heq, hrow] at hrow'
  cases hrow'
  rw [hpend] at hrun
  cases hrun

theorem expire {gone : Job}  (ha : Archives s s' [gone]) (hid : gone.id = row.id)
    (hstatus : gone.archived.status ≠ .complete) : Drawn ns s₀ s' out := by
  have hin : ∀ id, id ∈ [gone].map Job.id ↔ id = row.id := by
    intro id
    rw [map_singleton, mem_singleton, hid]
  have hout : ∀ job ∈ out, job.id ∉ [gone].map Job.id := fun job hjob hmem =>
    h.ne hrow hpend hjob ((hin _).mp hmem)
  have hstill : ∀ id r, s'.jobs.find id = some r →
      id ∉ [gone].map Job.id ∧ s.jobs.find id = some r := by
    intro id r hr
    rw [ha.jobs] at hr
    split at hr
    · cases hr
    · next hnot => exact ⟨hnot, hr⟩
  refine ⟨ha.edges.trans h.edges, ?_, h.nodup, ?_, ?_, h.before, ?_, ?_⟩
  · intro id r hr
    obtain ⟨hnot, hr⟩ := hstill id r hr
    rw [ha.archived id hnot]
    exact h.separate id r hr
  · intro job hjob
    rw [ha.jobs, if_neg (hout job hjob)]
    exact h.running job hjob
  · intro job hjob
    rw [ha.claims, if_neg (hout job hjob)]
    exact h.claims job hjob
  · intro id r hr hp
    obtain ⟨hnot, hr⟩ := hstill id r hr
    rw [ha.claims, if_neg hnot]
    exact h.waiting id r hr hp
  · intro id hdeps
    refine h.deps id (depsSatisfied_iff.mpr fun dep hdep => ?_)
    obtain ⟨hlive, harch⟩ := depsSatisfied_iff.mp hdeps dep (ha.edges ▸ hdep)
    have hnot : dep ∉ [gone].map Job.id := by
      intro hmem
      have hmoved := ha.moved gone (mem_singleton_self _)
      rw [hid, ← (hin dep).mp hmem] at hmoved
      exact hstatus (harch _ hmoved)
    rw [ha.jobs, if_neg hnot] at hlive
    rw [ha.archived dep hnot] at harch
    exact ⟨hlive, harch⟩

theorem claim  (hns : row.namespace = ns) (hfree : Unblocked s row) :
    Drawn ns s₀ (startPending s row.id now) (out ++ [row.startedBy now]) := by
  have hw := rewrites_startPending now hrow hpend
  obtain ⟨hbefore, hclaim⟩ := h.waiting row.id row hrow hpend
  have hold : ∀ job ∈ out, (startPending s row.id now).jobs.find job.id = s.jobs.find job.id :=
    fun job hjob => (hw.jobs _).trans (if_neg (h.ne hrow hpend hjob))
  refine ⟨hw.edges.trans h.edges, separate_rewrites hw hrow h.separate, ?_, ?_, ?_, ?_, ?_, ?_⟩
  · rw [map_append, nodup_append]
    refine ⟨h.nodup, nodup_singleton _, ?_⟩
    intro id hid id' hid' heq
    obtain ⟨job, hjob, rfl⟩ := mem_map.mp hid
    exact h.ne hrow hpend hjob (heq.trans (mem_singleton.mp hid'))
  · intro job hjob
    rcases mem_append.mp hjob with hjob | hjob
    · rw [hold job hjob]
      exact h.running job hjob
    · rw [mem_singleton.mp hjob]
      exact ⟨_, (hw.jobs _).trans (if_pos rfl), rfl, hns⟩
  · intro job hjob
    rcases mem_append.mp hjob with hjob | hjob
    · exact h.claims job hjob
    · rw [mem_singleton.mp hjob]
      exact hclaim
  · intro job hjob
    rcases mem_append.mp hjob with hjob | hjob
    · exact h.before job hjob
    · rw [mem_singleton.mp hjob]
      exact ⟨row, hbefore, hpend, fun hdeps => h.deps _ (hfree hdeps)⟩
  · intro id r hr hp
    rw [hw.jobs] at hr
    split at hr
    · cases hr
      cases hp
    · exact h.waiting id r hr hp
  · intro id hdeps
    refine h.deps id (depsSatisfied_iff.mpr fun dep hdep => ?_)
    obtain ⟨hlive, harch⟩ := depsSatisfied_iff.mp hdeps dep hdep
    have hne : dep ≠ row.id := by
      intro heq
      have hdone := hlive _ ((hw.jobs dep).trans (if_pos heq))
      cases hdone
    refine ⟨fun r hr => hlive r ?_, harch⟩
    rw [hw.jobs, if_neg hne]
    exact hr

theorem turn {claimed expired : List Job}
     (hns : row.namespace = ns) (hturn : Turn s now row s' claimed expired) :
    Drawn ns s₀ s' (out ++ claimed) := by
  cases hturn with
  | expire _ harch =>
    rw [append_nil]
    exact h.expire hrow hpend harch rfl fun hdone => by cases hdone
  | skip => rwa [append_nil]
  | claim hfree => exact h.claim hrow hpend hns hfree.2

end

end Drawn

theorem claimLoop_drawn {ns : Scope} {s₀ s : Store} (h : Drawn ns s₀ s out) (queue : String)
    (now : Int) (limit max : Nat) (order : DispatchOrder) :
    ∃ d s', claimLoop max now s ⟨[], []⟩ (scanDequeueCandidates s queue now ns limit order) =
        .ok (d, s') ∧ Drawn ns s₀ s' (out ++ d.claimed) ∧ d.claimed.length ≤ max := by
  have hahead := ahead_scan h.separate queue now ns limit order
  obtain ⟨d, s', hloop⟩ := @claimLoop_isOk now max _ s ⟨[], []⟩ hahead
  refine ⟨d, s', hloop, ?_⟩
  refine claimLoop_keeps
    (P := fun s' d => Drawn ns s₀ s' (out ++ d.claimed) ∧ d.claimed.length ≤ max)
    ?_ (List.Subset.refl _) hahead hloop ⟨by rwa [append_nil], Nat.zero_le _⟩
  intro s₁ d₁ row s₂ claimed expired ⟨hdrawn, hlen⟩ hcand hrow hpend hroom hturn
  have hns : row.namespace = ns := by
    have hsorted := mem_of_mem_take hcand
    rw [orderedCandidates, mem_insertionSort, mem_filter] at hsorted
    have hc := hsorted.2
    simp only [candidate, Bool.and_eq_true, decide_eq_true_eq] at hc
    exact hc.2
  have hdrawn' := hdrawn.turn hrow hpend hns hturn
  rw [append_assoc] at hdrawn'
  refine ⟨hdrawn', ?_⟩
  have hone : claimed.length ≤ 1 := by cases hturn <;> simp
  rw [length_append]
  omega

structure Held (cfg : Settings) (w₀ w : World) (jobs : List Job) : Prop where
  drawn : Drawn cfg.namespace w₀.store w.store jobs
  picked : w.picked = jobs
  inFlight : w.inFlight = w₀.inFlight

theorem Held.pick {r : Result Dequeued} {queue : String} {limit max : Nat}
    {order : DispatchOrder} (h : Held cfg w₀ w out)
    (hans : w.pick (claimLoop max now w.store ⟨[], []⟩
      (scanDequeueCandidates w.store queue now cfg.namespace limit order)) = (r, w')) :
    ∃ d, r = .ok d ∧ Held cfg w₀ w' (out ++ d.claimed) ∧ d.claimed.length ≤ max := by
  obtain ⟨d, s', hloop, hdrawn, hlen⟩ := claimLoop_drawn h.drawn queue now limit max order
  rw [hloop] at hans
  cases hans
  exact ⟨d, rfl, ⟨hdrawn, congrArg (· ++ d.claimed) h.picked, h.inFlight⟩, hlen⟩

theorem dequeueFrom_goes : ∀ {queues : List String} {w w' : World}
    {r : Result (Option Job)}, Held cfg w₀ w [] →
    GoesOn cfg (dequeueFrom cfg now queues) w r w' →
    ((∃ e, r = .error e) ∧ w'.picked = []) ∨ ∃ found, r = .ok found ∧ Held cfg w₀ w' found.toList
  | [], w, _, _, hheld, h => by
    obtain ⟨rfl, rfl⟩ := h
    exact .inr ⟨none, rfl, hheld⟩
  | queue :: queues, w, w', r, hheld, h => by
    obtain ⟨x, w₁, hask, hrest⟩ := goes_okThen h
    obtain ⟨out, -, ⟨e, -, rfl, rfl⟩ | ⟨-, hans⟩⟩ := goes_ask hask
    · obtain ⟨_, he, -⟩ | ⟨e, -, rfl, rfl⟩ := hrest
      on_goal 1 => cases he
      exact .inl ⟨⟨e, rfl⟩, hheld.picked⟩
    · obtain ⟨d, rfl, hheld₁, hlen⟩ := hheld.pick hans
      replace hrest := passes hrest
      rw [nil_append] at hheld₁
      obtain ⟨_ | ⟨job, _ | ⟨_, _⟩⟩, expired⟩ := d
      · exact dequeueFrom_goes hheld₁ hrest
      · obtain ⟨rfl, rfl⟩ := hrest
        exact .inr ⟨some job, rfl, hheld₁⟩
      · simp only [length_cons] at hlen
        omega

theorem dequeueBatchFrom_goes {max : Nat} :
    ∀ {queues : List String} {out : List Job} {w w' : World} {r : Result (List Job)},
    Held cfg w₀ w out → GoesOn cfg (dequeueBatchFrom cfg now max out queues) w r w' →
    ((∃ e, r = .error e) ∧ w'.picked = []) ∨ ∃ jobs, r = .ok jobs ∧ Held cfg w₀ w' jobs
  | [], out, w, _, _, hheld, h => by
    obtain ⟨rfl, rfl⟩ := h
    exact .inr ⟨out, rfl, hheld⟩
  | queue :: queues, out, w, w', r, hheld, h => by
    unfold dequeueBatchFrom at h
    split at h
    · obtain ⟨rfl, rfl⟩ := h
      exact .inr ⟨out, rfl, hheld⟩
    next hroom =>
    obtain ⟨x, w₁, hask, hrest⟩ := goes_okThen h
    obtain ⟨o, htol, ⟨e, hfault, rfl, rfl⟩ | ⟨-, hans⟩⟩ := goes_ask hask
    · -- Only a first dequeue may fail: with jobs in hand the error strands them.
      obtain ⟨e, -, rfl, rfl⟩ := hrest.resolve_left fun ⟨_, he, _⟩ => by cases he
      exact .inl ⟨⟨e, rfl⟩, htol.fault _ rfl (by simp [hfault])⟩
    · simp only [answer, dequeueBatchOrdered, if_neg (show ¬ max - out.length = 0 by omega)]
        at hans
      obtain ⟨d, rfl, hheld₁, -⟩ := hheld.pick hans
      replace hrest := passes hrest
      exact dequeueBatchFrom_goes hheld₁ hrest

/-! ## The round -/

/-- What a round may start from. -/
structure Coherent (cfg : Settings) (w : World) : Prop where
  separate : Separate w.store
  unclaimed : ∀ id row, w.store.jobs.find id = some row → row.status = .pending →
    ∀ claim, w.store.claims.find id = some claim → claim.workerId ≠ cfg.claimOwner
  untracked : ∀ id row, w.store.jobs.find id = some row → row.status = .pending →
    w.inFlight.live id = none
  loose : ∀ id row, w.store.jobs.find id = some row → row.status = .pending →
    Unblocked w.store row → ∀ id' row', w.store.jobs.find id' = some row' →
    row'.status = .pending → ¬ Behind w.store.edges id' id
  unpicked : w.picked = []

namespace Coherent

theorem held (h : Coherent cfg w) : Held cfg w w [] :=
  ⟨.start h.separate, h.unpicked, rfl⟩

theorem fresh (h : Coherent cfg w₀) (hheld : Held cfg w₀ w jobs) (hjob : job ∈ jobs) :
    Fresh cfg w job := by
  obtain ⟨row, hrow, hrun, hns⟩ := hheld.drawn.running job hjob
  obtain ⟨row₀, hrow₀, hpend, -⟩ := hheld.drawn.before job hjob
  refine ⟨⟨⟨row, hrow, hrun, hns⟩, hheld.drawn.separate _ _ hrow, ?_⟩, fun claim hclaim => ?_⟩
  · show w.inFlight.live job.id = none
    rw [hheld.inFlight]
    exact h.untracked _ _ hrow₀ hpend
  · have hbefore : w₀.store.claims.find job.id = some claim := by
      rw [← hheld.drawn.claims job hjob]
      exact hclaim
    exact h.unclaimed _ _ hrow₀ hpend claim hbefore

theorem batch (h : Coherent cfg w₀) (hheld : Held cfg w₀ w jobs) : Batch w.store.edges jobs := by
  refine ⟨hheld.drawn.nodup, fun a ha b hb => ?_⟩
  obtain ⟨rowa, hrowa, hpenda, -⟩ := hheld.drawn.before a ha
  obtain ⟨rowb, hrowb, hpendb, hfree⟩ := hheld.drawn.before b hb
  rw [hheld.drawn.edges]
  exact h.loose _ _ hrowb hpendb hfree _ _ hrowa hpenda

end Coherent

theorem goes_looks {ok : Outside → Call → World → Prop} {c : Call} {α : Type} {f : Resp c → Code α}
    {r : α} (hc : c.Looks) (h : (call c >>= f).Goes (perform cfg) ok w r w') :
    ∃ out, ok out c w ∧ (f (perform cfg out c w).1).Goes (perform cfg) ok w r w' := by
  obtain ⟨x, w₁, hx, hrest⟩ := goes_bind.mp h
  obtain ⟨out, hok, hout⟩ := goes_call.mp hx
  obtain rfl : w₁ = w := (congrArg Prod.snd hout).symm.trans (perform_looks hc w)
  refine ⟨out, hok, ?_⟩
  rw [hout]
  exact hrest

theorem tryDispatch_settles (hw : Coherent cfg w) (h : GoesOn cfg (tryDispatch cfg) w r w') :
    Settled cfg w' w'.picked := by
  have hidle : Settled cfg w w.picked := .none hw.unpicked
  obtain ⟨now, -, h⟩ := goes_looks (c := .nowMillis) trivial h
  obtain ⟨queues, -, h⟩ := goes_looks (c := .activeQueues) trivial h
  split at h
  · obtain ⟨-, rfl⟩ := h
    exact hidle
  obtain ⟨remaining, -, h⟩ := goes_looks (c := .inFlightRemaining) trivial h
  split at h
  · obtain ⟨-, rfl⟩ := h
    exact hidle
  obtain ⟨capacity, -, h⟩ := goes_looks (c := .channelCapacity) trivial h
  split at h
  · obtain ⟨-, rfl⟩ := h
    exact hidle
  obtain ⟨x, w₁, hdequeue, hrest⟩ := goes_okThen h
  rcases dequeueFrom_goes hw.held hdequeue with ⟨⟨e, rfl⟩, hpicked⟩ | ⟨found, rfl, hheld⟩
  · obtain ⟨_, -, -, rfl⟩ := hrest.resolve_left fun ⟨_, he, _⟩ => by cases he
    exact .none hpicked
  replace hrest := passes hrest
  cases found with
  | none =>
    obtain ⟨-, rfl⟩ := hrest
    exact .none hheld.picked
  | some job =>
    obtain ⟨hsettled, hpicked⟩ := dispatchOne_settles (hw.batch hheld) hheld.drawn.separate
      (hw.fresh hheld (mem_singleton_self _)) hrest
    rw [hpicked, hheld.picked]
    exact hsettled

theorem tryDispatchBatch_settles (hw : Coherent cfg w)
    (h : GoesOn cfg (tryDispatchBatch cfg) w r w') : Settled cfg w' w'.picked := by
  have hidle : Settled cfg w w.picked := .none hw.unpicked
  obtain ⟨now, -, h⟩ := goes_looks (c := .nowMillis) trivial h
  obtain ⟨queues, -, h⟩ := goes_looks (c := .activeQueues) trivial h
  split at h
  · obtain ⟨-, rfl⟩ := h
    exact hidle
  obtain ⟨capacity, -, h⟩ := goes_looks (c := .channelCapacity) trivial h
  split at h
  · obtain ⟨-, rfl⟩ := h
    exact hidle
  obtain ⟨remaining, -, h⟩ := goes_looks (c := .inFlightRemaining) trivial h
  split at h
  · obtain ⟨-, rfl⟩ := h
    exact hidle
  obtain ⟨x, w₁, hdequeue, hrest⟩ := goes_okThen h
  rcases dequeueBatchFrom_goes hw.held hdequeue with ⟨⟨e, rfl⟩, hpicked⟩ | ⟨jobs, rfl, hheld⟩
  · obtain ⟨_, -, -, rfl⟩ := hrest.resolve_left fun ⟨_, he, _⟩ => by cases he
    exact .none hpicked
  replace hrest := passes hrest
  obtain ⟨hsettled, hpicked⟩ := dispatchBatch_settles (hw.batch hheld) hheld.drawn.separate
    (fun job hjob => hw.fresh hheld hjob) hrest
  rw [hpicked, hheld.picked]
  exact hsettled

inductive Round (cfg : Settings) : Code (Result Bool) → Prop
  | single : Round cfg (tryDispatch cfg)
  | batch : Round cfg (tryDispatchBatch cfg)

/-- **Dispatch conserves jobs.**  Through every tolerable pattern of failures
and every refusal, each job a round dequeued comes to exactly one end. -/
theorem dispatch_conserves {round : Code (Except QueueError Bool)} {w w' : World}
    {r : Except QueueError Bool} (hround : Round cfg round) (hw : Coherent cfg w)
    (h : GoesOn cfg round w r w') : ∀ job ∈ w'.picked, ∃! f, Fate.Of cfg w' job f := by
  intro job hjob
  obtain ⟨f, hf⟩ : ∃ f, Fate.Of cfg w' job f := by
    cases hround with
    | single => exact tryDispatch_settles hw h job hjob
    | batch => exact tryDispatchBatch_settles hw h job hjob
  exact ⟨f, hf, fun f' hf' => hf'.unique hf⟩

/-! ## Runs -/

instance (w : World) (q : Query) : Decidable (q.MayFail w) := by
  cases q <;> unfold Query.MayFail <;> infer_instance

instance (out : Outside) (c : Call) (w : World) : Decidable (Tolerable out c w) := by
  cases c with
  | query q =>
    exact decidable_of_iff
      ((out.fault ≠ none → q.MayFail w) ∧ w.store.dead.find out.deadId = none)
      ⟨fun h => ⟨fun _ heq => by cases heq; exact h.1, h.2⟩, fun h => ⟨h.fault q rfl, h.fresh⟩⟩
  | _ =>
    exact decidable_of_iff (w.store.dead.find out.deadId = none)
      ⟨fun h => ⟨fun _ heq => (by cases heq), h⟩, fun h => h.fresh⟩

def twoQueued : World where
  store := { Store.empty with
    jobs := (Table.empty.upsert
        { dequeuedJob "a" with status := .pending, startedAt := none }).upsert
      { dequeuedJob "b" with status := .pending, startedAt := none } }
  buckets := .empty
  breakers := .empty
  inFlight := .empty
  picked := []
  sent := []

theorem twoQueued_coherent (cfg : Settings) : Coherent cfg twoQueued where
  separate := fun _ _ _ => rfl
  unclaimed := fun _ _ _ _ _ h => by cases h
  untracked := fun _ _ _ _ => rfl
  loose := by
    intro id row _ _ _ id' row' _ _ hbehind
    obtain ⟨_, -, hedge⟩ := Relation.TransGen.tail'_iff.mp hbehind
    cases hedge
  unpicked := rfl

def oneLimit : Settings := { twoLimits .sqlite with queueConfigs := fun _ => none }

def shedding : Settings :=
  { twoLimits .sqlite with
    queueConfigs := fun _ => none, taskConfigs := fun _ => none, batchSize := 2,
    codelTargetMs := fun _ => some 0 }

theorem no_fate_of_stranded {cfg : Settings}
    (hrow : (w.place job.id).row.map Job.status = some .running)
    (hclaim : (w.place job.id).claim = none) (f : Fate) : ¬ Fate.Of cfg w job f := by
  intro hf
  have honly := hf.eq_only
  obtain ⟨row, hrow, hrun⟩ := Option.map_eq_some_iff.mp hrow
  rw [Place.only, hclaim, hrow] at honly
  cases honly
  obtain ⟨⟨row', hrow', hpend⟩, -⟩ := hf
  rw [hrow] at hrow'
  cases hrow'
  rw [hrun] at hpend
  cases hpend

/-- **Errors strand jobs.**  In a single round the rate limiter's error is
returned with the job `Running` and unclaimed; in a batch the error of
shedding one job ends the round for the other as well. -/
theorem error_strands :
    (∃ r w', (tryDispatch oneLimit).Goes (perform oneLimit) (fun _ _ _ => True) twoQueued r w' ∧
      (∃ e, r = .error e) ∧ w'.sent = [] ∧
      ∃ job ∈ w'.picked, ∀ f, ¬ Fate.Of oneLimit w' job f) ∧
    (∃ r w', (tryDispatchBatch shedding).Goes (perform shedding) (fun _ _ _ => True)
        twoQueued r w' ∧ (∃ e, r = .error e) ∧ w'.sent = [] ∧ w'.picked.length = 2 ∧
      ∀ job ∈ w'.picked, ∀ f, ¬ Fate.Of shedding w' job f) := by
  constructor
  · obtain ⟨r, w', hgo, herr, hsent, hpicked⟩ : ∃ r w',
        (tryDispatch oneLimit).Goes (perform oneLimit) (fun _ _ _ => True) twoQueued r w' ∧
        r.toOption = none ∧ w'.sent = [] ∧ ∃ job ∈ w'.picked,
          (w'.store.jobs.find job.id).map Job.status = some .running ∧
          w'.store.claims.find job.id = none :=
      Prog.exists_goes [still, still, still, still, still, { still with fault := some .storage }]
    obtain ⟨job, hjob, hrow, hclaim⟩ := hpicked
    refine ⟨r, w', hgo, ?_, hsent, job, hjob, no_fate_of_stranded hrow hclaim⟩
    cases r with
    | error e => exact ⟨e, rfl⟩
    | ok b => cases herr
  · obtain ⟨r, w', hgo, herr, hsent, hlen, hpicked⟩ : ∃ r w',
        (tryDispatchBatch shedding).Goes (perform shedding) (fun _ _ _ => True) twoQueued r w' ∧
        r.toOption = none ∧ w'.sent = [] ∧ w'.picked.length = 2 ∧ ∀ job ∈ w'.picked,
          (w'.store.jobs.find job.id).map Job.status = some .running ∧
          w'.store.claims.find job.id = none :=
      Prog.exists_goes [still, still, { still with capacity := 2 }, still, still,
        { still with codelDrop := true }, { still with fault := some .storage }]
    refine ⟨r, w', hgo, ?_, hsent, hlen, fun job hjob => ?_⟩
    · cases r with
      | error e => exact ⟨e, rfl⟩
      | ok b => cases herr
    · exact no_fate_of_stranded (hpicked job hjob).1 (hpicked job hjob).2

theorem claim_errors_are_made_good : ∃ r w',
    GoesOn { shedding with codelTargetMs := fun _ => none }
      (tryDispatchBatch { shedding with codelTargetMs := fun _ => none }) twoQueued r w' ∧
    w'.picked.length = 2 ∧ w'.sent.length = 1 ∧
    ∀ job ∈ w'.picked, ∃! f, Fate.Of { shedding with codelTargetMs := fun _ => none } w' job f := by
  obtain ⟨r, w', hgo, hpicked, hsent⟩ : ∃ r w',
      GoesOn { shedding with codelTargetMs := fun _ => none }
        (tryDispatchBatch { shedding with codelTargetMs := fun _ => none }) twoQueued r w' ∧
      w'.picked.length = 2 ∧ w'.sent.length = 1 :=
    Prog.exists_goes [still, still, { still with capacity := 2 }, still, still,
      { still with fault := some .storage }, { still with fault := some .storage }, still, still,
      still, still, still, still, still, still, still]
  exact ⟨r, w', hgo, hpicked, hsent, dispatch_conserves .batch (twoQueued_coherent _) hgo⟩

end FlexiQ.Dispatch
