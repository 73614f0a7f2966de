/-
# `Workflow.RunIndex` — is a run listed under its state?

Any number of clients create runs, set their state and start them; the
commands of different calls interleave as they like.  A run should be in one
`by_state` index, that of its `state` field, whenever nobody is part way
through a call.

It is not: the state a call moves the entry FROM is read before the block that
moves it.  Of two calls that have both read `pending`, the second removes an
entry that is no longer there and leaves the first one's
(`two_updates_two_indexes`).  Where the calls on one run come one after the
other, and each run is created once, the indexes agree (`indexed_one_by_one`).
-/
import FlexiQ.Lib.Keyed
import FlexiQ.Workflow.RunKeys

namespace FlexiQ.Workflow.RedisStore

open List FlexiQ.Lib

/-! ## The clients -/

inductive Request
  | create (ns : Scope) (run : WorkflowRun)
  | update (ns : Scope) (run : String) (state : WorkflowState) (error : Option String)
  | start (ns : Scope) (run : String) (startedAt : Int)
  deriving DecidableEq, Repr

def Request.about : Request → String
  | .create _ run => run.id
  | .update _ run _ _ => run
  | .start _ run _ => run

def Request.act : Request → Act (Result Unit)
  | .create ns run => createWorkflowRun ns run
  | .update ns run state error => updateWorkflowRunState ns run state error
  | .start ns run startedAt => setWorkflowRunStarted ns run startedAt

def service : Service Request Empty Cmd Cmd.Reply (Result Unit) Keys where
  arrive request keys := some (request.act, keys)
  exec := answer
  drift _ keys := keys

/-! ## What is to be kept -/

def listed (keys : Keys) (run : String) (state : WorkflowState) : Bool :=
  (keys.indexes.zscore (.byState state) run).isSome

/-- A run that has been created is in one index, that of its state. -/
def Indexed (keys : Keys) (run : String) : Prop :=
  ∀ hash, keys.runs.find run = some hash → hash.id ≠ none →
    ∃ state, hash.state = some state ∧ ∀ other, listed keys run other = true ↔ other = state

def absent (keys : Keys) (run : String) : Bool :=
  (keys.runs.find run).all fun hash => hash.id = none

abbrev createdOnce : Terms Request Empty Cmd Keys where
  arrive keys request := ∀ ns run, request = .create ns run → absent keys run.id = true
  call _ _ := True
  drift _ _ := True

def part (run : String) (keys : Keys) : Option RunHash × (WorkflowState → Bool) :=
  (keys.runs.find run, listed keys run)

def Kept (run : String) (keys : Keys) : Prop :=
  match keys.runs.find run with
  | none => ∀ state, listed keys run state = false
  | some hash =>
    match hash.createdAt with
    | none => hash.id = none ∧ ∀ state, listed keys run state = false
    | some _ => hash.id ≠ none ∧ ∃ state, hash.state = some state ∧
        ∀ other, listed keys run other = true ↔ other = state

theorem kept_congr {run : String} {keys keys' : Keys} (h : part run keys' = part run keys)
    (hkept : Kept run keys) : Kept run keys' := by
  have hhash : keys'.runs.find run = keys.runs.find run := congrArg Prod.fst h
  have hlisted : listed keys' run = listed keys run := congrArg Prod.snd h
  unfold Kept at hkept ⊢
  rw [hhash, hlisted]
  exact hkept

theorem Kept.indexed {run : String} {keys : Keys} (h : Kept run keys) : Indexed keys run := by
  intro hash hfind hid
  unfold Kept at h
  rw [hfind] at h
  dsimp only at h
  split at h
  · exact absurd h.1 hid
  · exact h.2

/-! ## The writes -/

def Write.about : Write → String
  | .hset fields => fields.run
  | .hdelError run => run
  | .zadd _ run _ => run
  | .zrem _ run => run

theorem listed_zadd (keys : Keys) (index : RunIndex) (run run' : String) (score : Int)
    (state : WorkflowState) :
    listed ((Write.zadd index run score).apply keys) run' state =
      (decide (index = .byState state ∧ run' = run) || listed keys run' state) := by
  unfold listed Write.apply
  rw [SortedSets.zscore_zadd]
  simp only [@eq_comm _ index]
  split <;> simp [*]

theorem listed_zrem (keys : Keys) (index : RunIndex) (run run' : String) (state : WorkflowState) :
    listed ((Write.zrem index run).apply keys) run' state =
      (decide (¬(index = .byState state ∧ run' = run)) && listed keys run' state) := by
  unfold listed Write.apply
  rw [SortedSets.zscore_zrem]
  simp only [@eq_comm _ index]
  split <;> simp [*]

theorem find_hset (keys : Keys) (fields : RunHash) (run : String) :
    ((Write.hset fields).apply keys).runs.find run =
      if fields.run = run then some (fields.written (keys.runs.find fields.run))
      else keys.runs.find run := by
  have hkey : (fields.written (keys.runs.find fields.run)).run = fields.run := by
    unfold RunHash.written
    split <;> rfl
  refine (Table.find_upsert _ _ run).trans ?_
  rw [hkey]

theorem find_hdelError (keys : Keys) (run run' : String) :
    ((Write.hdelError run).apply keys).runs.find run' =
      if run' = run then (keys.runs.find run').map RunHash.cleared else keys.runs.find run' :=
  Table.find_update_key keys.runs run run' RunHash.cleared fun _ => rfl

theorem part_apply {write : Write} {run : String} (hne : run ≠ write.about) (keys : Keys) :
    part run (write.apply keys) = part run keys := by
  cases write with
  | hset fields =>
    refine Prod.ext ?_ rfl
    exact (find_hset keys fields run).trans (if_neg fun heq => hne heq.symm)
  | hdelError run' =>
    refine Prod.ext ?_ rfl
    exact (find_hdelError keys run' run).trans (if_neg hne)
  | zadd index run' score =>
    refine Prod.ext rfl (funext fun state => ?_)
    refine (listed_zadd keys index run' run score state).trans ?_
    have hne : run ≠ run' := hne
    simp [hne]
    rfl
  | zrem index run' =>
    refine Prod.ext rfl (funext fun state => ?_)
    refine (listed_zrem keys index run' run state).trans ?_
    have hne : run ≠ run' := hne
    simp [hne]
    rfl

theorem part_exec {run about : String} (hne : run ≠ about) : ∀ (block : List Write) (keys : Keys),
    (∀ write ∈ block, write.about = about) → part run (exec block keys) = part run keys
  | [], _, _ => rfl
  | write :: block, keys, hall => by
    refine (part_exec hne block (write.apply keys) fun other hother =>
      hall other (mem_cons_of_mem _ hother)).trans ?_
    exact part_apply (fun heq => hne (heq.trans (hall write mem_cons_self))) keys

/-! ## The calls -/

/-- A state has been written to the hash; the index entry follows, from where
it was when the run was last between two calls. -/
theorem kept_moved {run : String} {keys keys' : Keys} {state : WorkflowState} {hash : RunHash}
    (hkept : Kept run keys) (hfind : keys'.runs.find run = some hash)
    (hstate : hash.state = some state) (hid : hash.id = (keys.runs.find run).bind RunHash.id)
    (hcreated : hash.createdAt = (keys.runs.find run).bind RunHash.createdAt)
    (hlisted : listed keys' run = listed keys run) :
    Kept run (exec (moveOps run ((keys.runs.find run).bind RunHash.state)
      ((keys.runs.find run).bind RunHash.createdAt) state) keys') := by
  -- A run without a creation time stays where it is, which is nowhere.
  have hnowhere : (keys.runs.find run).bind RunHash.createdAt = none →
      (keys.runs.find run).bind RunHash.id = none → (∀ other, listed keys run other = false) →
      Kept run keys' := by
    intro hcreated' hid' hnone
    unfold Kept
    rw [hfind]
    dsimp only
    rw [hcreated, hcreated', hid, hid', hlisted]
    exact ⟨rfl, hnone⟩
  unfold Kept at hkept
  cases hold : keys.runs.find run with
  | none =>
    rw [hold] at hkept hnowhere
    exact hnowhere rfl rfl hkept
  | some old =>
    rw [hold] at hkept hnowhere hcreated
    have hcreated : hash.createdAt = old.createdAt := hcreated
    dsimp only [Option.bind_some] at hkept hnowhere ⊢
    cases hts : old.createdAt with
    | none =>
      rw [hts] at hkept
      have hmove : moveOps run old.state none state = [] := by
        unfold moveOps
        split <;> simp_all
      rw [hmove]
      exact hnowhere hts hkept.1 hkept.2
    | some ts =>
      rw [hts] at hkept hcreated
      obtain ⟨hthere, st, hst, hall⟩ := hkept
      have hid : hash.id ≠ none := by
        rw [hid, hold]
        exact hthere
      rw [hst]
      unfold moveOps
      dsimp only
      split
      · next hne =>
        have hfind' : (exec [.zrem (.byState st) run, .zadd (.byState state) run ts]
            keys').runs.find run = some hash := hfind
        unfold Kept
        rw [hfind']
        dsimp only
        rw [hcreated]
        refine ⟨hid, state, hstate, fun other => ?_⟩
        refine (Bool.eq_iff_iff.mp ((listed_zadd _ _ _ _ ts _).trans
          (congrArg _ (listed_zrem keys' _ run run other)))).trans ?_
        rw [hlisted]
        simp only [Bool.or_eq_true, Bool.and_eq_true, decide_eq_true_eq, hall]
        constructor
        · rintro (⟨heq, -⟩ | ⟨hother, rfl⟩)
          · cases heq
            rfl
          · exact absurd ⟨rfl, trivial⟩ hother
        · rintro rfl
          exact Or.inl ⟨rfl, trivial⟩
      · next heq =>
        obtain rfl : st = state := not_not.mp heq
        unfold Kept
        rw [show exec [] keys' = keys' from rfl, hfind]
        dsimp only
        rw [hcreated, hlisted]
        exact ⟨hid, st, hstate, hall⟩

section Calls

variable {terms : Terms Request Empty Cmd Keys} {run : String} {keys : Keys}

theorem multi_spares {block : List Write} (hall : ∀ write ∈ block, write.about = run) :
    Spares answer part run (.multi block) := fun keys _ hne => part_exec hne block keys hall

theorem runOutOfScope_spares (ns : Scope) (other : String) :
    (runOutOfScope ns other).Sat (Spares answer part run) fun _ => True := by
  cases ns with
  | none => exact trivial
  | some ns => exact ⟨fun _ _ _ => rfl, fun _ => trivial⟩

theorem moveOps_about (current : Option WorkflowState) (createdAt : Option Int)
    (state : WorkflowState) : ∀ write ∈ moveOps run current createdAt state, write.about = run := by
  intro write hwrite
  unfold moveOps at hwrite
  split at hwrite
  · split at hwrite
    · simp only [mem_cons, not_mem_nil, or_false] at hwrite
      rcases hwrite with rfl | rfl <;> rfl
    · cases hwrite
  · cases hwrite

theorem createOps_about (ns : Scope) (run : WorkflowRun) :
    ∀ write ∈ createOps ns run, write.about = run.id := by
  intro write hwrite
  simp only [createOps, mem_cons, not_mem_nil, or_false] at hwrite
  rcases hwrite with rfl | rfl | rfl | rfl <;> rfl

theorem act_spares (request : Request) :
    request.act.Sat (Spares answer part request.about) fun _ => True := by
  cases request with
  | create ns run =>
    have hmulti : Spares answer part run.id (.multi (createOps ns run)) :=
      multi_spares (createOps_about ns run)
    have hunder : (createUnder ns run).Sat (Spares answer part run.id) fun _ => True := by
      refine Prog.Sat.bind (runOutOfScope_spares ns run.id) fun out _ => ?_
      split
      · refine ⟨fun _ _ _ => rfl, fun taken => ?_⟩
        cases taken
        · exact ⟨hmulti, fun _ => trivial⟩
        · exact trivial
      · exact ⟨hmulti, fun _ => trivial⟩
    show (createWorkflowRun ns run).Sat _ _
    unfold createWorkflowRun
    split
    · refine Prog.Sat.bind (runOutOfScope_spares ns _) fun out _ => ?_
      split
      · exact trivial
      · exact hunder
    · exact hunder
  | update ns run state error =>
    refine Prog.Sat.bind (runOutOfScope_spares ns run) fun out _ => ?_
    split
    · exact trivial
    · refine ⟨fun _ _ _ => rfl, fun current => ⟨fun _ _ _ => rfl, fun createdAt => ?_⟩⟩
      refine ⟨multi_spares fun write hwrite => ?_, fun _ => trivial⟩
      rcases mem_append.mp hwrite with hwrite | hwrite
      · simp only [mem_cons, not_mem_nil, or_false] at hwrite
        rcases hwrite with rfl | rfl
        · rfl
        · cases error <;> rfl
      · exact moveOps_about current createdAt state write hwrite
  | start ns run startedAt =>
    refine Prog.Sat.bind (runOutOfScope_spares ns run) fun out _ => ?_
    split
    · exact trivial
    · refine ⟨fun _ _ _ => rfl, fun createdAt => ⟨fun _ _ _ => rfl, fun current => ?_⟩⟩
      refine ⟨multi_spares fun write hwrite => ?_, fun _ => trivial⟩
      rcases mem_append.mp hwrite with hwrite | hwrite
      · simp only [mem_cons, not_mem_nil, or_false] at hwrite
        rcases hwrite with rfl | rfl <;> rfl
      · exact moveOps_about current createdAt .running write hwrite

def Same (run : String) (keys keys' : Keys) : Prop := part run keys' = part run keys

theorem runOutOfScope_keeps (ns : Scope) (other : String) :
    (runOutOfScope ns other).Keeps answer (Guard.own terms part run)
      (fun _ keys' => Same run keys keys') keys := by
  cases ns with
  | none => exact (rfl : Same run keys keys)
  | some ns => exact fun keys' henv _ => ⟨trivial, henv⟩

/-- The last block of a call that sets the state: two writes to the hash, and
the move of the entry. -/
theorem set_keeps {current : Option WorkflowState} {createdAt : Option Int} {state : WorkflowState}
    {second : Write} (hkept : Kept run keys)
    (hcurrent : current = (keys.runs.find run).bind RunHash.state)
    (hcreated : createdAt = (keys.runs.find run).bind RunHash.createdAt)
    (hsecond : ∀ (keys' : Keys) (hash : RunHash), keys'.runs.find run = some hash →
      ∃ hash', (second.apply keys').runs.find run = some hash' ∧ hash'.state = hash.state ∧
        hash'.id = hash.id ∧ hash'.createdAt = hash.createdAt ∧
        listed (second.apply keys') run = listed keys' run) :
    (multi ([.hset { run := run, state := some state }, second] ++
      moveOps run current createdAt state) >>= fun _ =>
        (pure (.ok ()) : Act (Result Unit))).Keeps answer (Guard.own terms part run)
      (fun _ keys' => Kept run keys') keys := by
  intro keys' henv _
  refine ⟨trivial, ?_⟩
  have hkept' := kept_congr henv hkept
  have hhash : keys'.runs.find run = keys.runs.find run := congrArg Prod.fst henv
  rw [← hhash] at hcurrent hcreated
  have hfirst := (find_hset keys' { run := run, state := some state } run).trans (if_pos rfl)
  obtain ⟨hash, hfind, hstate, hid, hts, hlisted⟩ := hsecond _ _ hfirst
  have hmoved := kept_moved hkept' hfind (hstate.trans (by cases keys'.runs.find run <;> rfl))
    (hid.trans (by cases keys'.runs.find run <;> rfl))
    (hts.trans (by cases keys'.runs.find run <;> rfl)) hlisted
  rw [← hcurrent, ← hcreated] at hmoved
  exact hmoved

theorem update_keeps (ns : Scope) (state : WorkflowState) (error : Option String)
    (hkept : Kept run keys) :
    (updateWorkflowRunState ns run state error).Keeps answer (Guard.own terms part run)
      (fun _ keys' => Kept run keys') keys := by
  refine Prog.Keeps.bind ((runOutOfScope_keeps ns run).mono fun out keys₁ hsame₁ => ?_)
  split
  · exact kept_congr hsame₁ hkept
  · intro keys₂ hsame₂ _
    refine ⟨trivial, fun keys₃ hsame₃ _ => ⟨trivial, ?_⟩⟩
    have hhash : keys₃.runs.find run = keys₂.runs.find run := congrArg Prod.fst hsame₃
    refine set_keeps (kept_congr ((hsame₃.trans hsame₂).trans hsame₁) hkept)
      (congrArg (fun hash => hash.bind RunHash.state) hhash.symm) rfl fun keys' hash hfind => ?_
    cases error with
    | some e =>
      refine ⟨_, (find_hset keys' { run := run, error := some e } run).trans (if_pos rfl), ?_⟩
      rw [hfind]
      exact ⟨rfl, rfl, rfl, rfl⟩
    | none =>
      refine ⟨_, (find_hdelError keys' run run).trans (if_pos rfl |>.trans
        (congrArg _ hfind)), rfl, rfl, rfl, rfl⟩

theorem start_keeps (ns : Scope) (startedAt : Int) (hkept : Kept run keys) :
    (setWorkflowRunStarted ns run startedAt).Keeps answer (Guard.own terms part run)
      (fun _ keys' => Kept run keys') keys := by
  refine Prog.Keeps.bind ((runOutOfScope_keeps ns run).mono fun out keys₁ hsame₁ => ?_)
  split
  · exact kept_congr hsame₁ hkept
  · intro keys₂ hsame₂ _
    refine ⟨trivial, fun keys₃ hsame₃ _ => ⟨trivial, ?_⟩⟩
    have hhash : keys₃.runs.find run = keys₂.runs.find run := congrArg Prod.fst hsame₃
    refine set_keeps (kept_congr ((hsame₃.trans hsame₂).trans hsame₁) hkept) rfl
      (congrArg (fun hash => hash.bind RunHash.createdAt) hhash.symm) fun keys' hash hfind => ?_
    refine ⟨_, (find_hset keys' { run := run, startedAt := some startedAt } run).trans
      (if_pos rfl), ?_⟩
    rw [hfind]
    exact ⟨rfl, rfl, rfl, rfl⟩

section

variable (ns : Scope) {run : WorkflowRun} (hkept : Kept run.id keys)
  (habsent : absent keys run.id = true)
include hkept habsent

theorem createOps_kept : Kept run.id (exec (createOps ns run) keys) := by
  have hnowhere : ∀ state, listed keys run.id state = false := by
    unfold Kept at hkept
    unfold absent at habsent
    cases hfind : keys.runs.find run.id with
    | none =>
      rw [hfind] at hkept
      exact hkept
    | some hash =>
      rw [hfind] at hkept habsent
      dsimp only at hkept
      split at hkept
      · exact hkept.2
      · refine absurd ?_ hkept.1
        simpa using habsent
  have hfind : (exec (createOps ns run) keys).runs.find run.id =
      some ((newHash ns run).written (keys.runs.find run.id)) :=
    (find_hset keys _ run.id).trans (if_pos rfl)
  have hlisted : ∀ other, listed (exec (createOps ns run) keys) run.id other =
      decide (RunIndex.byState run.state = .byState other) := by
    intro other
    refine (listed_zadd _ (.byDef run.definitionId) run.id run.id run.createdAt other).trans ?_
    rw [listed_zadd, listed_zadd]
    have hsame : listed ((Write.hset (newHash ns run)).apply keys) run.id other =
        listed keys run.id other := rfl
    rw [hsame, hnowhere]
    simp
  unfold Kept
  rw [hfind]
  cases keys.runs.find run.id with
  | none | some =>
    refine ⟨Option.some_ne_none _, run.state, rfl, fun other => ?_⟩
    rw [hlisted]
    simp [eq_comm]

theorem create_keeps : (createWorkflowRun ns run).Keeps answer (Guard.own terms part run.id)
      (fun _ keys' => Kept run.id keys') keys := by
  have hlater : ∀ {keys'}, Same run.id keys keys' →
      Kept run.id keys' ∧ absent keys' run.id = true := by
    intro keys' hsame
    refine ⟨kept_congr hsame hkept, ?_⟩
    have hhash : keys'.runs.find run.id = keys.runs.find run.id := congrArg Prod.fst hsame
    unfold absent
    rw [hhash]
    exact habsent
  have hblock : ∀ {keys'}, Same run.id keys keys' →
      (multi (createOps ns run) >>= fun _ =>
        (pure (.ok ()) : Act (Result Unit))).Keeps answer (Guard.own terms part run.id)
        (fun _ keys' => Kept run.id keys') keys' := by
    intro keys₁ hsame₁ keys₂ hsame₂ _
    obtain ⟨hkept₂, habsent₂⟩ := hlater (hsame₂.trans hsame₁)
    exact ⟨trivial, createOps_kept ns hkept₂ habsent₂⟩
  have hunder : ∀ {keys'}, Same run.id keys keys' →
      (createUnder ns run).Keeps answer (Guard.own terms part run.id)
        (fun _ keys' => Kept run.id keys') keys' := by
    intro keys₁ hsame₁
    refine Prog.Keeps.bind ((runOutOfScope_keeps ns run.id).mono fun out keys₂ hsame₂ => ?_)
    have hsame₂ := hsame₂.trans hsame₁
    split
    · intro keys₃ hsame₃ _
      refine ⟨trivial, ?_⟩
      have hsame₃ := hsame₃.trans hsame₂
      cases (answer (.existsRun run.id) keys₃).1
      · exact hblock hsame₃
      · exact (hlater hsame₃).1
    · exact hblock hsame₂
  unfold createWorkflowRun
  split
  · refine Prog.Keeps.bind ((runOutOfScope_keeps ns _).mono fun out keys₁ hsame₁ => ?_)
    split
    · exact (hlater hsame₁).1
    · exact hunder hsame₁
  · exact hunder rfl

end

end Calls

/-! ## The result -/

theorem perKey : PerKey service createdOnce Request.about part Kept where
  within := kept_congr
  arrive := by
    intro keys request prog keys' hkept hterms harr
    cases harr
    refine ⟨fun _ => rfl, act_spares request, ?_⟩
    cases request with
    | create ns run => exact create_keeps ns hkept (hterms ns run rfl)
    | update ns run state error => exact update_keeps ns state error hkept
    | start ns run startedAt => exact start_keeps ns startedAt hkept
  drift {_ e} := nomatch e

/-- **The indexes agree, one call at a time.** -/
theorem indexed_one_by_one {p : Pool Cmd Cmd.Reply (Except QueueError Unit) (Keys × List Request)}
    (hr : Reaches (Pool.next (service.watched .roll)) (Pool.OneByOne Request.about createdOnce)
      ⟨(.empty, []), []⟩ p) (hquiet : p.Quiet) (run : String) : Indexed p.world.1 run := by
  have hstart : ∀ run, Kept run Keys.empty := fun _ _ => rfl
  exact ((perKey.sound (Pool.keyed_start hstart) hr).of_quiet hquiet run).indexed

instance (keys : Keys) (request : Request) :
    Decidable (∀ ns run, request = .create ns run → absent keys run.id = true) :=
  match request with
  | .create ns run => decidable_of_iff (absent keys run.id = true)
      ⟨fun habsent _ _ heq => by cases heq; exact habsent, fun hall => hall ns run rfl⟩
  | .update .. | .start .. => isTrue fun _ _ heq => nomatch heq

def smallRun : WorkflowRun := ⟨"r", "d", .pending, none, none, none, none, none, 1, none⟩

/-- A run is created, started, and set completed, with calls on another run in
between. -/
theorem smallRun_indexed :
    ∃ p : Pool Cmd Cmd.Reply (Except QueueError Unit) (Keys × List Request),
      p.Quiet ∧ listed p.world.1 "r" .completed = true ∧ Indexed p.world.1 "r" := by
  obtain ⟨p, hr, hquiet, hlisted⟩ :
      ∃ p : Pool Cmd Cmd.Reply (Result Unit) (Keys × List Request),
        Reaches (Pool.next (service.watched .roll)) (Pool.OneByOne Request.about createdOnce)
          ⟨(.empty, []), []⟩ p ∧ p.Quiet ∧ listed p.world.1 "r" .completed = true :=
    exists_reached [.arrive (.create none smallRun), .step 0, .arrive (.start none "r" 2),
      .arrive (.create none { smallRun with id := "s" }), .step 1, .step 2, .step 1, .step 1,
      .arrive (.update none "r" .completed none), .step 3, .step 3, .step 3]
  exact ⟨p, hquiet, hlisted, indexed_one_by_one hr hquiet "r"⟩

theorem two_updates_two_indexes :
    ∃ p : Pool Cmd Cmd.Reply (Except QueueError Unit) Keys,
      Reaches (Pool.next service) Terms.any.Met ⟨.empty, []⟩ p ∧ p.Quiet ∧
        ¬Indexed p.world "r" := by
  refine exists_reached_imp (P := fun p => p.Quiet ∧
      (p.world.runs.find "r").any (fun hash => hash.id ≠ none) = true ∧
      listed p.world "r" .running = true ∧ listed p.world "r" .completed = true)
    [.arrive (.create none smallRun), .step 0, .arrive (.start none "r" 2),
      .arrive (.update none "r" .completed none), .step 1, .step 1, .step 2, .step 2, .step 1,
      .step 2] ?_
  rintro p - ⟨hquiet, hthere, hrunning, hcompleted⟩
  refine ⟨hquiet, fun hindexed => ?_⟩
  obtain ⟨hash, hfind, hid⟩ := (Option.any_eq_true _ _).mp hthere
  obtain ⟨state, -, hall⟩ := hindexed hash hfind (of_decide_eq_true hid)
  cases ((hall _).mp hrunning).trans ((hall _).mp hcompleted).symm

end FlexiQ.Workflow.RedisStore
