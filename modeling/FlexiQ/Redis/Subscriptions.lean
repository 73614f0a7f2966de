/-
# `Redis.Subscriptions` — one subscription's blob under five writers

The cursor, the pause switch and the registration of a subscription are
fields of one JSON blob.  A call that changes one of them reads the blob and
later writes the whole of it back, without a guard, so it also writes what the
other fields were when it read: an acknowledgement can undo a pause or bring
back what was unsubscribed, a registration can rewind the cursor
(`stale_blob_rolls_back`).
-/
import FlexiQ.Lib.Runs
import FlexiQ.Redis.Names

namespace FlexiQ.Redis.Subscriptions

open FlexiQ.Lib

/-- `str::parse::<u64>`. -/
def parseU64 (text : List Char) : Option Nat :=
  let digits := if text.head? = some '+' then text.tail else text
  let n := Nat.ofDigitChars 10 digits 0
  if digits ≠ [] ∧ digits.all Char.isDigit ∧ n < 2 ^ 64 then some n else none

def streamIdParts (id : String) : Nat × Nat :=
  let (ms, seq) := (Names.splitOnce '-' id.toList).getD (id.toList, [])
  ((parseU64 ms).getD 0, (parseU64 seq).getD 0)

def before (a b : String) : Bool :=
  (streamIdParts a).1 < (streamIdParts b).1 ||
    ((streamIdParts a).1 = (streamIdParts b).1 && (streamIdParts a).2 < (streamIdParts b).2)

structure SubEntry where
  active : Bool
  ownerWorkerId : Option String
  createdAt : Int
  mode : String
  cursor : Option String
  deriving DecidableEq, Repr

inductive Request
  | ack (cursor : String)
  | setActive (active : Bool)
  | register (sub : SubEntry)
  | unsubscribe
  | reap (live : List String) (cutoff : Int)
  deriving DecidableEq, Repr

/-- What a call makes of the blob it has read: nothing, or what its `SET` or
`DEL` leaves. -/
def Request.outcome : Request → Option SubEntry → Option (Option SubEntry)
  | .ack cursor, some entry =>
    if entry.mode = "log" ∧ entry.cursor.all (before · cursor) then
      some (some { entry with cursor := some cursor })
    else none
  | .setActive active, some entry => some (some { entry with active := active })
  | .register sub, none => some (some { sub with cursor := none })
  | .register sub, some prior => some (some { sub with
      active := prior.active, createdAt := prior.createdAt, cursor := prior.cursor })
  | .unsubscribe, some _ => some none
  | .reap live cutoff, some entry =>
    if entry.ownerWorkerId.any (· ∉ live) ∧ entry.createdAt < cutoff then some none else none
  | _, none => none

structure World where
  blob : Option SubEntry
  flights : List (Request × Option SubEntry)
  deriving DecidableEq, Repr

inductive Label
  | read (r : Request)
  | write (i : Nat)
  deriving DecidableEq, Repr

def step (w : World) : Label → Option World
  | .read r => some { w with flights := w.flights ++ [(r, w.blob)] }
  | .write i => w.flights[i]?.map fun f =>
    ⟨(f.1.outcome f.2).getD w.blob, w.flights.eraseIdx i⟩

def writer (w : World) : Label → Option Request
  | .read _ => none
  | .write i => w.flights[i]?.map Prod.fst

/-- A `SET` finds the blob it was computed from. -/
def Current (w : World) : Label → Prop
  | .read _ => True
  | .write i => ∀ f ∈ w.flights[i]?, ((f.1.outcome f.2).bind id).isSome = true → w.blob = f.2

def Stays (w : World) (l : Label) : Prop := ∀ w' ∈ step w l, w'.blob.isSome = true

/-- No pause, no resume is completed by the step. -/
def Unswitched (w : World) (l : Label) : Prop :=
  ∀ r ∈ writer w l, ∀ active, r ≠ .setActive active

/-- No registration is completed by the step. -/
def Unregistered (w : World) (l : Label) : Prop := ∀ r ∈ writer w l, ∀ sub, r ≠ .register sub

/-- A cursor that stays or moves on; a fresh one is before every other. -/
def Onward : Option String → Option String → Prop
  | none, _ => True
  | some a, some b => a = b ∨ before a b = true
  | some _, none => False

theorem Onward.refl (cursor : Option String) : Onward cursor cursor := by
  cases cursor with
  | none => trivial
  | some => exact Or.inl rfl

theorem before_iff {a b : String} : before a b = true ↔
    (streamIdParts a).1 < (streamIdParts b).1 ∨
      (streamIdParts a).1 = (streamIdParts b).1 ∧ (streamIdParts a).2 < (streamIdParts b).2 := by
  simp [before]

theorem Onward.trans {a b c : Option String} (hab : Onward a b) (hbc : Onward b c) :
    Onward a c := by
  cases a with
  | none => trivial
  | some a =>
    cases b with
    | none => cases hab
    | some b =>
      cases c with
      | none => cases hbc
      | some c =>
        rcases hab with rfl | hab
        · exact hbc
        rcases hbc with rfl | hbc
        · exact .inr hab
        rw [before_iff] at hab hbc
        exact .inr (before_iff.mpr (by omega))

/-- From `blob` to `blob'` by the write of `r`, if there is one. -/
structure Kept (r : Option Request) (blob blob' : Option SubEntry) : Prop where
  cursor : ∀ e ∈ blob, ∀ e' ∈ blob', Onward e.cursor e'.cursor
  active : ∀ e ∈ blob, ∀ e' ∈ blob', e'.active = e.active ∨ r = some (.setActive e'.active)
  gone : blob = none → blob' ≠ none → ∃ sub, r = some (.register sub)

theorem Kept.refl (r : Option Request) (blob : Option SubEntry) : Kept r blob blob where
  cursor e he e' he' := by
    cases Option.mem_unique he he'
    exact .refl _
  active e he e' he' := Or.inl (by rw [Option.mem_unique he he'])
  gone hnone hsome := absurd hnone hsome

theorem Request.outcome_kept {r : Request} {blob blob' : Option SubEntry}
    (h : r.outcome blob = some blob') : Kept (some r) blob blob' := by
  cases blob with
  | none =>
    cases r with
    | register sub =>
      cases h
      exact ⟨fun _ he => (by cases he), fun _ he => (by cases he), fun _ _ => ⟨sub, rfl⟩⟩
    | _ => cases h
  | some entry =>
    -- The blob is there before, so only the first two clauses say anything.
    suffices hboth : ∀ e' ∈ blob', Onward entry.cursor e'.cursor ∧
        (e'.active = entry.active ∨ some r = some (.setActive e'.active)) from
      ⟨fun e he e' he' => Option.mem_some_iff.mp he ▸ (hboth e' he').1,
        fun e he e' he' => Option.mem_some_iff.mp he ▸ (hboth e' he').2,
        fun hnone => by cases hnone⟩
    cases r with
    | ack =>
      simp only [Request.outcome] at h
      split at h
      · next hadvance =>
        cases h
        rintro e' ⟨⟩
        refine ⟨?_, Or.inl rfl⟩
        cases hcursor : entry.cursor with
        | none => trivial
        | some =>
          rw [hcursor] at hadvance
          exact Or.inr hadvance.2
      · cases h
    | setActive =>
      cases h
      rintro e' ⟨⟩
      exact ⟨.refl _, Or.inr rfl⟩
    | register =>
      cases h
      rintro e' ⟨⟩
      exact ⟨.refl _, Or.inl rfl⟩
    | unsubscribe =>
      cases h
      rintro e' ⟨⟩
    | reap =>
      simp only [Request.outcome] at h
      split at h
      · cases h
        rintro e' ⟨⟩
      · cases h

theorem step_kept {w w' : World} {l : Label} (hcurrent : Current w l) (h : step w l = some w') :
    Kept (writer w l) w.blob w'.blob := by
  cases l with
  | read =>
    cases h
    exact .refl _ _
  | write i =>
    obtain ⟨⟨r, read⟩, hi, rfl⟩ := Option.map_eq_some_iff.mp h
    have hwriter : writer w (.write i) = some r := congrArg (Option.map Prod.fst) hi
    rw [hwriter]
    cases hout : r.outcome read with
    | none => exact .refl _ _
    | some blob' =>
      cases blob' with
      | none =>
        exact ⟨fun _ _ _ he => (by cases he), fun _ _ _ he => (by cases he),
          fun _ hne => absurd rfl hne⟩
      | some =>
        have hread : w.blob = read := hcurrent _ hi (by rw [hout]; rfl)
        rw [hread]
        exact Request.outcome_kept hout

/-- **The blob is not rolled back**, in any run whose writes find what they were
computed from, however the calls interleave and whoever had read before. -/
theorem blob_not_rolled_back (w w' : World) :
    (∀ e ∈ w.blob, Reaches step (fun t l => Current t l ∧ Stays t l) w w' →
      ∃ e' ∈ w'.blob, Onward e.cursor e'.cursor) ∧
    (∀ e ∈ w.blob, Reaches step (fun t l => Current t l ∧ Stays t l ∧ Unswitched t l) w w' →
      ∃ e' ∈ w'.blob, e'.active = e.active) ∧
    (w.blob = none → Reaches step (fun t l => Current t l ∧ Unregistered t l) w w' →
      w'.blob = none) := by
  refine ⟨fun e he hrun => ?_, fun e he hrun => ?_, fun hnone hrun => ?_⟩
  · refine hrun.invariant (I := fun t => ∃ e' ∈ t.blob, Onward e.cursor e'.cursor)
      ⟨e, he, .refl _⟩ ?_
    rintro t l t' ⟨e', he', honward⟩ ⟨hcurrent, hstays⟩ hstep
    obtain ⟨e'', he''⟩ := Option.isSome_iff_exists.mp (hstays t' hstep)
    exact ⟨e'', he'', honward.trans ((step_kept hcurrent hstep).cursor e' he' e'' he'')⟩
  · refine hrun.invariant (I := fun t => ∃ e' ∈ t.blob, e'.active = e.active) ⟨e, he, rfl⟩ ?_
    rintro t l t' ⟨e', he', hactive⟩ ⟨hcurrent, hstays, hquiet⟩ hstep
    obtain ⟨e'', he''⟩ := Option.isSome_iff_exists.mp (hstays t' hstep)
    rcases (step_kept hcurrent hstep).active e' he' e'' he'' with hsame | hswitch
    · exact ⟨e'', he'', hsame.trans hactive⟩
    · exact absurd rfl (hquiet _ hswitch e''.active)
  · refine hrun.invariant (I := fun t => t.blob = none) hnone ?_
    rintro t l t' hgone ⟨hcurrent, hquiet⟩ hstep
    by_contra hback
    obtain ⟨sub, hregister⟩ := (step_kept hcurrent hstep).gone hgone hback
    exact hquiet _ hregister sub rfl

def reading : SubEntry := ⟨true, none, 0, "log", some "5-0"⟩

instance decCurrent (w : World) (l : Label) : Decidable (Current w l ∧ Stays w l) := by
  cases l <;> unfold Current Stays <;> infer_instance

/-- Two acknowledgements, a pause between them, and a reaper that has read all
the while and finds nothing to do. -/
theorem acks_around_pause : ∃ w,
    Reaches step (fun t l => Current t l ∧ Stays t l) ⟨some reading, []⟩ w ∧
      w.blob = some { reading with active := false, cursor := some "9-0" } ∧
      ∃ e ∈ w.blob, Onward (some "5-0") e.cursor :=
  exists_reached_and [.read (.reap [] 0), .read (.ack "7-0"), .write 1, .read (.setActive false),
      .write 1, .read (.ack "9-0"), .write 0, .write 0]
    fun w hrun _ => (blob_not_rolled_back _ w).1 reading rfl hrun

/-- Two calls have read, one has written, and the other writes. -/
theorem stale_blob_rolls_back :
    (∃ w, Reaches step (fun _ _ => True) ⟨some reading, []⟩ w ∧
      w.blob.bind SubEntry.cursor = some "7-0" ∧
      ((step w (.write 0)).bind World.blob).bind SubEntry.cursor = some "5-0") ∧
    (∃ w, Reaches step (fun _ _ => True) ⟨some reading, []⟩ w ∧
      w.blob.map SubEntry.active = some false ∧
      ((step w (.write 0)).bind World.blob).map SubEntry.active = some true) ∧
    ∃ w, Reaches step (fun _ _ => True) ⟨some reading, []⟩ w ∧
      w.blob = none ∧ (step w (.write 0)).bind World.blob ≠ none :=
  ⟨exists_reached [.read (.register reading), .read (.ack "7-0"), .write 1],
    exists_reached [.read (.ack "7-0"), .read (.setActive false), .write 1],
    exists_reached [.read (.ack "7-0"), .read .unsubscribe, .write 1]⟩

end FlexiQ.Redis.Subscriptions
