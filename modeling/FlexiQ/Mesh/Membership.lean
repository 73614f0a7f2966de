/-
# `Mesh.Membership` — what a node believes of its peers

A node has one entry for each member: a state, and the incarnation it was
said at.  An update replaces an entry it outranks (`shouldApply`), by
incarnation first and by state second.  A node that hears itself called
Suspect or Dead raises its own incarnation by ONE and says that it is alive.
-/
import FlexiQ.Lib.Table
import Mathlib.Algebra.Ring.Nat

namespace FlexiQ.Mesh

open FlexiQ.Lib

inductive MemberState
  | alive | suspect | dead | left
  deriving DecidableEq

structure WorkerInfo where
  workerId : String
  deriving DecidableEq

structure Member where
  info : WorkerInfo
  state : MemberState
  incarnation : Nat
  deriving DecidableEq

structure MemberUpdate where
  memberId : String
  state : MemberState
  incarnation : Nat
  info : WorkerInfo
  deriving DecidableEq

/-! ## `Membership` -/

structure Membership where
  localIncarnation : Nat := 1
  pendingUpdates : List MemberUpdate := []
  deriving DecidableEq

def MAX_PENDING : Nat := 64

/-- `local_incarnation += 1` on a `u64`. -/
def Membership.refute (m : Membership) : Membership :=
  { m with localIncarnation := (m.localIncarnation + 1) % 2 ^ 64 }

/-- The flag says that a refutation is due. -/
def Membership.handleSelfUpdate (m : Membership) (update : MemberUpdate) : Membership × Bool :=
  if (update.state = .suspect ∨ update.state = .dead) ∧ update.incarnation ≥ m.localIncarnation
  then (m.refute, true)
  else (m, false)

def statePriority : MemberState → Nat
  | .alive => 0
  | .suspect => 1
  | .dead => 2
  | .left => 3

def shouldApply (update : MemberUpdate) (existing : Member) : Bool :=
  update.incarnation > existing.incarnation ||
    update.incarnation == existing.incarnation &&
      statePriority update.state > statePriority existing.state

/-- A full queue drops its oldest update. -/
def Membership.queueUpdate (m : Membership) (update : MemberUpdate) : Membership :=
  { m with
    pendingUpdates :=
      (if m.pendingUpdates.length ≥ MAX_PENDING then m.pendingUpdates.tail
        else m.pendingUpdates) ++ [update] }

/-! ## The node -/

/-- A node's own description, its membership, its entries (`MeshState`), and
since when the failure detector's suspicions run. -/
structure SwimNode where
  localInfo : WorkerInfo
  membership : Membership := {}
  members : Table String Member (·.info.workerId) := .empty
  suspects : Table String (String × Nat) Prod.fst := .empty

namespace SwimNode

def makeLocalUpdate (n : SwimNode) : MemberUpdate :=
  ⟨n.localInfo.workerId, .alive, n.membership.localIncarnation, n.localInfo⟩

def clearSuspect (n : SwimNode) (memberId : String) : SwimNode :=
  { n with suspects := n.suspects.delete fun s => s.1 = memberId }

/-- An entry is looked up under the update's `member_id` and filed under its
info's `worker_id`. -/
def accept (n : SwimNode) (update : MemberUpdate) : SwimNode :=
  if (n.members.find update.memberId).all (shouldApply update) then
    { n with
      members := n.members.upsert ⟨update.info, update.state, update.incarnation⟩
      membership := n.membership.queueUpdate update }
  else n

/-- One turn of the loop of `apply_updates`.  An Alive stops the timer of the
member it names whether or not it was accepted. -/
def applyUpdate (n : SwimNode) (update : MemberUpdate) : SwimNode :=
  if update.memberId = n.localInfo.workerId then
    let (membership, due) := n.membership.handleSelfUpdate update
    let n := { n with membership }
    if due then { n with membership := membership.queueUpdate n.makeLocalUpdate } else n
  else
    let n := n.accept update
    if update.state = .alive then n.clearSuspect update.memberId else n

def applyUpdates (n : SwimNode) (updates : List MemberUpdate) : SwimNode :=
  updates.foldl applyUpdate n

end SwimNode

/-! ## Clearing one's name -/

def answered (own : Nat) (update : MemberUpdate) : Nat :=
  if (update.state = .suspect ∨ update.state = .dead) ∧ update.incarnation ≥ own
  then (own + 1) % 2 ^ 64
  else own

theorem makeLocalUpdate_applyUpdates {n : SwimNode} {update : MemberUpdate}
    (hself : update.memberId = n.localInfo.workerId) :
    (n.applyUpdates [update]).makeLocalUpdate =
      ⟨n.localInfo.workerId, .alive, answered n.membership.localIncarnation update,
        n.localInfo⟩ := by
  unfold SwimNode.applyUpdates answered
  rw [List.foldl_cons, List.foldl_nil, SwimNode.applyUpdate, if_pos hself,
    Membership.handleSelfUpdate]
  by_cases hdue : (update.state = .suspect ∨ update.state = .dead) ∧
      update.incarnation ≥ n.membership.localIncarnation
  · rw [if_pos hdue, if_pos hdue]
    rfl
  · rw [if_neg hdue, if_neg hdue]
    rfl

theorem shouldApply_alive {id : String} {incarnation : Nat} {info : WorkerInfo}
    {existing : Member} :
    shouldApply ⟨id, .alive, incarnation, info⟩ existing = true ↔
      existing.incarnation < incarnation := by
  simp [shouldApply, statePriority]

def MemberUpdate.entry (update : MemberUpdate) : Member :=
  ⟨update.info, update.state, update.incarnation⟩

theorem SwimNode.members_applyUpdate (n : SwimNode) (update : MemberUpdate) :
    (n.applyUpdate update).members =
      if update.memberId ≠ n.localInfo.workerId ∧
          (n.members.find update.memberId).all (shouldApply update) = true
      then n.members.upsert update.entry else n.members := by
  unfold applyUpdate
  by_cases hself : update.memberId = n.localInfo.workerId
  · rw [if_pos hself, if_neg fun h => h.1 hself]
    dsimp only
    split <;> rfl
  · have hcleared : ∀ m : SwimNode,
        (if update.state = .alive then m.clearSuspect update.memberId else m).members =
          m.members := by
      intro m
      split <;> rfl
    rw [if_neg hself, hcleared, accept]
    by_cases houtranks : (n.members.find update.memberId).all (shouldApply update) = true
    · rw [if_pos houtranks, if_pos ⟨hself, houtranks⟩]
      rfl
    · rw [if_neg houtranks, if_neg fun h => houtranks h.2]

theorem find_applyUpdate {n : SwimNode} {update : MemberUpdate}
    (houtranks : (n.members.find update.memberId).all (shouldApply update) = true)
    (hother : update.memberId ≠ n.localInfo.workerId)
    (hinfo : update.info.workerId = update.memberId) :
    (n.applyUpdate update).members.find update.memberId = some update.entry := by
  rw [n.members_applyUpdate, if_pos ⟨hother, houtranks⟩, Table.find_upsert]
  exact if_pos hinfo

/-- The rumours a node answers in time: older than its incarnation, or at it and
not a Left, with an incarnation left to go to. -/
def Outspoken (own : Nat) (update : MemberUpdate) : Prop :=
  update.incarnation < own ∨
    update.incarnation = own ∧ update.state ≠ .left ∧ own + 1 < 2 ^ 64

theorem lt_answered_iff {own : Nat} {update : MemberUpdate} (hrumour : update.state ≠ .alive) :
    update.incarnation < answered own update ↔ Outspoken own update := by
  unfold answered Outspoken
  split
  next hdue =>
    have hleft : update.state ≠ .left := by
      rcases hdue.1 with h | h <;> simp [h]
    simp only [hleft, ne_eq, not_false_eq_true, true_and]
    by_cases hroom : own + 1 < 2 ^ 64
    · rw [Nat.mod_eq_of_lt hroom]
      omega
    · have := Nat.mod_lt (own + 1) (show 2 ^ 64 > 0 by decide)
      have := Nat.mod_le (own + 1) (2 ^ 64)
      omega
  next hquiet =>
    refine ⟨.inl, fun h => h.resolve_right fun ⟨heq, hleft, _⟩ =>
      hquiet ⟨?_, Nat.le_of_eq heq.symm⟩⟩
    cases hs : update.state <;> simp_all

/-- **Which rumours are cleared**: wherever one was believed, the node's next
update about itself is accepted over it, and the node is Alive there again, if
and only if the rumour is no newer than the node's own incarnation. -/
theorem next_update_clears {node peer : SwimNode} {update : MemberUpdate} {entry : Member}
    (hself : update.memberId = node.localInfo.workerId) (hrumour : update.state ≠ .alive)
    (hpeer : node.localInfo.workerId ≠ peer.localInfo.workerId)
    (hentry : peer.members.find node.localInfo.workerId = some entry)
    (hinc : entry.incarnation = update.incarnation) :
    (shouldApply (node.applyUpdates [update]).makeLocalUpdate entry = true ∧
      ((peer.applyUpdates [(node.applyUpdates [update]).makeLocalUpdate]).members.find
        node.localInfo.workerId).map Member.state = some .alive) ↔
      Outspoken node.membership.localIncarnation update := by
  rw [makeLocalUpdate_applyUpdates hself, shouldApply_alive, hinc, lt_answered_iff hrumour]
  refine and_iff_left_of_imp fun hknown => ?_
  have houtranks := (@shouldApply_alive node.localInfo.workerId _ node.localInfo entry).mpr
    (hinc ▸ (lt_answered_iff hrumour).mpr hknown)
  refine congrArg (Option.map Member.state) (find_applyUpdate ?_ hpeer rfl)
  rw [hentry]
  exact houtranks

def restarted : SwimNode := { localInfo := ⟨"w"⟩ }

def peerWith (entry : Member) : SwimNode :=
  { localInfo := ⟨"p"⟩, members := Table.empty.upsert entry }

theorem fresh_rumour_cleared :
    let update : MemberUpdate := ⟨"w", .suspect, 1, restarted.localInfo⟩
    let next := (restarted.applyUpdates [update]).makeLocalUpdate
    (((peerWith ⟨restarted.localInfo, .suspect, 1⟩).applyUpdates [next]).members.find "w").map
      Member.state = some .alive :=
  ((@next_update_clears restarted _ ⟨"w", .suspect, 1, restarted.localInfo⟩ _ rfl (by decide)
    (by decide) rfl rfl).mpr (.inr ⟨rfl, by decide, by decide⟩)).2

/-- **A restarted worker stays suspect.**  It counts from 1; a rumour from its
former life, at 5, is answered at 2. -/
theorem former_life_stays_suspect :
    let update : MemberUpdate := ⟨"w", .suspect, 5, restarted.localInfo⟩
    let next := (restarted.applyUpdates [update]).makeLocalUpdate
    let entry : Member := ⟨restarted.localInfo, .suspect, 5⟩
    next.incarnation = 2 ∧ shouldApply next entry = false ∧
      ((peerWith entry).applyUpdates [next]).members.find "w" = some entry := by
  decide

end FlexiQ.Mesh
