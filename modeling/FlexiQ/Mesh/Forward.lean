/-
# `Mesh.Forward` — what a node knows of a peer moves forward

An update is weighed against the entry it would replace; the failure detector
is not.  It writes Suspect when a probe went unanswered, Dead when the
suspicion ran out, each time over whatever stands there.  A peer that said
Left while a probe was out is therefore called Suspect again, and then Dead
(`left_peer_suspected`).  Where the detector meets no such entry, and an
update describes the member it names, the pair of incarnation and state
priority never falls (`rank_le_of_reaches`).
-/
import FlexiQ.Lib.Runs
import FlexiQ.Mesh.Membership
import Mathlib.Data.Prod.Lex

namespace FlexiQ.Mesh

open FlexiQ.Lib

namespace SwimNode

/-- `suspect_member`: nothing is said twice, and nothing of a stranger. -/
def suspectMember (n : SwimNode) (targetId : String) (now : Nat) : SwimNode :=
  if (n.suspects.find targetId).isSome then n
  else
    let n := { n with suspects := n.suspects.upsert (targetId, now) }
    match n.members.find targetId with
    | none => n
    | some member =>
      { n with
        members := n.members.upsert { member with state := .suspect }
        membership := n.membership.queueUpdate
          ⟨targetId, .suspect, member.incarnation, member.info⟩ }

def demote (n : SwimNode) (workerId : String) (state : MemberState) : SwimNode :=
  match n.members.find workerId with
  | none => n
  | some member => { n with members := n.members.upsert { member with state } }

/-- What `tick` does with a member whose suspicion has run out; the detector has
dropped its timer. -/
def declareDead (n : SwimNode) (deadId : String) : SwimNode :=
  let n := n.clearSuspect deadId
  let (incarnation, info) := ((n.members.find deadId).map fun m =>
    (m.incarnation, m.info)).getD (0, n.localInfo)
  let n := n.demote deadId .dead
  { n with membership := n.membership.queueUpdate ⟨deadId, .dead, incarnation, info⟩ }

/-- What writes a node's entries.  An ack is that of a probe of `target`. -/
inductive Event
  | update (update : MemberUpdate)
  | suspect (targetId : String) (now : Nat)
  | dead (workerId : String)
  | left (workerId : String)
  | ack (target : String)

def handle (n : SwimNode) : Event → SwimNode
  | .update update => n.applyUpdate update
  | .suspect targetId now => n.suspectMember targetId now
  | .dead workerId => n.declareDead workerId
  | .left workerId => n.demote workerId .left
  | .ack target => n.clearSuspect target

/-- An update describes the member it names; the detector suspects nobody who
is already Dead or Left, and buries nobody who Left. -/
def Heeds (n : SwimNode) : Event → Prop
  | .update update => update.info.workerId = update.memberId
  | .suspect targetId _ => ∀ m ∈ n.members.find targetId, m.state ≠ .dead ∧ m.state ≠ .left
  | .dead workerId => ∀ m ∈ n.members.find workerId, m.state ≠ .left
  | .left _ | .ack _ => True

end SwimNode

/-! ## The order of what is known -/

/-- Incarnation first, state second. -/
def Member.rank (m : Member) : ℕ ×ₗ ℕ := toLex (m.incarnation, statePriority m.state)

theorem shouldApply_iff {update : MemberUpdate} {m : Member} :
    shouldApply update m = true ↔ m.rank < update.entry.rank := by
  rw [Member.rank, Member.rank, Prod.Lex.toLex_lt_toLex, shouldApply]
  simp [MemberUpdate.entry, @eq_comm _ update.incarnation]

/-- No entry is lost, and none is replaced by one of lower rank. -/
def Ahead (n n' : SwimNode) : Prop :=
  ∀ id m, n.members.find id = some m → ∃ m', n'.members.find id = some m' ∧ m.rank ≤ m'.rank

theorem Ahead.of_members {n n' : SwimNode} (h : n'.members = n.members) : Ahead n n' := by
  intro id m hm
  exact ⟨m, h ▸ hm, le_rfl⟩

theorem Ahead.of_upsert {n n' : SwimNode} {new : Member} (h : n'.members = n.members.upsert new)
    (hnew : ∀ m, n.members.find new.info.workerId = some m → m.rank ≤ new.rank) :
    Ahead n n' := by
  intro id m hm
  rw [h, Table.find_upsert]
  split
  next heq => exact ⟨new, rfl, hnew m (heq ▸ hm)⟩
  · exact ⟨m, hm, le_rfl⟩

theorem Ahead.of_restate {n n' : SwimNode} {id : String} {m : Member} {state : MemberState}
    (hm : n.members.find id = some m) (h : n'.members = n.members.upsert { m with state })
    (hle : statePriority m.state ≤ statePriority state) : Ahead n n' := by
  refine .of_upsert h fun m' hm' => ?_
  obtain rfl : m.info.workerId = id := n.members.key_of_find hm
  obtain rfl := Option.some.inj (hm.symm.trans hm')
  exact Prod.Lex.toLex_le_toLex.mpr (.inr ⟨rfl, hle⟩)

theorem ahead_demote {n : SwimNode} {id : String} {state : MemberState}
    (h : ∀ m, n.members.find id = some m → statePriority m.state ≤ statePriority state) :
    Ahead n (n.demote id state) := by
  unfold SwimNode.demote
  split
  · exact .of_members rfl
  next m hm => exact .of_restate hm rfl (h m hm)

theorem ahead_handle {n : SwimNode} {e : SwimNode.Event} (hok : n.Heeds e) :
    Ahead n (n.handle e) := by
  cases e with
  | update update =>
    have hmembers := n.members_applyUpdate update
    split at hmembers
    next happlied =>
      refine .of_upsert hmembers fun m hm => (shouldApply_iff.mp ?_).le
      have hnamed : update.entry.info.workerId = update.memberId := hok
      have houtranks := happlied.2
      rw [← hnamed, hm] at houtranks
      exact houtranks
    · exact .of_members hmembers
  | suspect =>
    rw [SwimNode.handle, SwimNode.suspectMember]
    split
    · exact .of_members rfl
    · dsimp only
      split
      · exact .of_members rfl
      next m hm =>
        refine .of_restate hm rfl ?_
        obtain ⟨hdead, hleft⟩ := hok m hm
        cases hs : m.state <;> simp_all [statePriority]
  | dead id =>
    have hahead : Ahead (n.clearSuspect id) ((n.clearSuspect id).demote id .dead) := by
      refine ahead_demote fun m hm => ?_
      have hleft := hok m hm
      cases hs : m.state <;> simp_all [statePriority]
    exact hahead
  | left =>
    refine ahead_demote fun m _ => ?_
    cases m.state <;> decide
  | ack => exact .of_members rfl

/-- **Knowledge moves forward** wherever the detector heeds what was said. -/
theorem rank_le_of_reaches {n n' : SwimNode}
    (h : Reaches (fun n e => some (n.handle e)) SwimNode.Heeds n n') {id : String} {m : Member}
    (hm : n.members.find id = some m) :
    ∃ m', n'.members.find id = some m' ∧ m.rank ≤ m'.rank := by
  refine h.invariant (I := fun t => ∃ m', t.members.find id = some m' ∧ m.rank ≤ m'.rank)
    ⟨m, hm, le_rfl⟩ fun t e t' ⟨m', hm', hle⟩ hok hstep => ?_
  obtain rfl := Option.some.inj hstep
  obtain ⟨m'', hm'', hle'⟩ := ahead_handle hok id m' hm'
  exact ⟨m'', hm'', hle.trans hle'⟩

theorem suspected_then_left :
    ∃ m', (((peerWith ⟨restarted.localInfo, .alive, 1⟩).handle (.suspect "w" 0)).handle
      (.left "w")).members.find "w" = some m' ∧
        Member.rank ⟨restarted.localInfo, .alive, 1⟩ ≤ m'.rank :=
  rank_le_of_reaches (n := peerWith _)
    (.tail (l := .left "w") (.tail (l := .suspect "w" 0) .refl (by unfold SwimNode.Heeds; decide)
      rfl) trivial rfl) rfl

/-- **A peer that left is called Suspect, and then Dead.**  It said Left while
a probe of it was out. -/
theorem left_peer_suspected :
    let n := (peerWith ⟨restarted.localInfo, .alive, 1⟩).applyUpdates
      [⟨"w", .left, 2, restarted.localInfo⟩]
    let suspected := n.handle (.suspect "w" 0)
    n.members.find "w" = some ⟨restarted.localInfo, .left, 2⟩ ∧
      suspected.members.find "w" = some ⟨restarted.localInfo, .suspect, 2⟩ ∧
      (suspected.handle (.dead "w")).members.find "w" = some ⟨restarted.localInfo, .dead, 2⟩ := by
  decide

end FlexiQ.Mesh
