/-
# `Sql.Locks` — execution claims, and what the reapers read

`storage/diesel_common/locks.rs` and the two reaper reads of `jobs.rs`.  A
claim is one row per job: `claimExecution` only ever inserts,
`reclaimExecution` transfers on a compare of the owner, the age sweep and
the transitions delete.  Every claim is minted a new epoch, which here is an
argument like the clock.
-/
import FlexiQ.Sql.Jobs
import FlexiQ.Sql.Steps

namespace FlexiQ.Sql

open FlexiQ.Lib

/-- `claim_execution`: the epoch of the new claim, `none` when the job is
claimed already. -/
def claimExecution (s : Store) (jobId workerId : String) (now epoch : Int) : Option Int × Store :=
  match s.claims.insert ⟨jobId, workerId, now, some epoch, none⟩ with
  | some claims => (some epoch, { s with claims := claims })
  | none => (none, s)

/-- `complete_execution`: a scoped caller only releases the claim of a job
it can see. -/
def completeExecution (s : Store) (jobId : String) (scope : Scope) : Store :=
  if scope.isSome && (getJob s jobId scope).isNone then s
  else { s with claims := s.claims.delete (fun claim => claim.jobId = jobId) }

/-- `reclaim_execution`: transfer a claim that is still `expectedOwner`'s. -/
def reclaimExecution (s : Store) (jobId expectedOwner newOwner : String) (now epoch : Int) :
    Option Int × Store :=
  match s.claims.find jobId with
  | some claim =>
    if claim.workerId = expectedOwner then
      (some epoch, { s with
        claims := s.claims.update (fun c => c.jobId = jobId) fun c =>
          { c with workerId := newOwner, claimedAt := now, epoch := some epoch } })
    else (none, s)
  | none => (none, s)

/-- `purge_execution_claims`: a claim awaiting a settle is kept whatever its
age. -/
def purgeExecutionClaims (s : Store) (olderThanMs now : Int) : Store :=
  { s with
    claims := s.claims.delete fun claim =>
      claim.claimedAt < olderThanMs && claim.settleDeadlineMs.all (· < now) }

/-- `await_settle`: put a deadline on the claim, never an earlier one. -/
def awaitSettle (s : Store) (jobId owner : String) (attempt : Int) (epoch : Option Int)
    (deadlineMs : Int) (scope : Scope) (now : Int) :
    Result (Option Int × Store) :=
  match resolveAttemptFence s jobId owner attempt epoch scope true now with
  | .error (.claimLost _) => .ok (none, s)
  | .error e => .error e
  | .ok (_, s) =>
    let held := (s.claims.find jobId).bind ClaimRow.settleDeadlineMs
    let deadline := held.elim deadlineMs (max · deadlineMs)
    .ok (some deadline, { s with
      claims := s.claims.update (fun c => c.jobId = jobId) fun c =>
        { c with settleDeadlineMs := some deadline } })

inductive SettleClaimant
  | lease (epoch : Int)
  | expired (now : Int)
  | abandoned
  deriving DecidableEq, Repr

/-- Whether the claimant is entitled to a claim's settle marker. -/
def SettleClaimant.entitled (claimant : SettleClaimant) (claim : ClaimRow) : Bool :=
  match claim.settleDeadlineMs with
  | none => false
  | some deadline =>
    match claimant with
    | .lease epoch => claim.epoch = some epoch
    | .expired now => deadline ≤ now
    | .abandoned => true

/-- `claim_settle`: consume the marker, leaving the claim. -/
def claimSettle (s : Store) (jobId : String) (claimant : SettleClaimant)
    (scope : Scope) : Bool × Store :=
  if scope.isSome && ((s.jobs.find jobId).bind Job.namespace) ≠ scope then (false, s)
  else
    match s.claims.find jobId with
    | some claim =>
      if claimant.entitled claim then
        (true, { s with
          claims := s.claims.update (fun c => c.jobId = jobId) fun c =>
            { c with settleDeadlineMs := none } })
      else (false, s)
    | none => (false, s)

/-! ## The reapers' reads -/

structure StaleJob where
  job : Job
  awaitingSettle : Bool
  deriving DecidableEq, Repr

/-- `reap_stale_jobs`: running past their timeout, unless a settle deadline
still runs. -/
def reapStaleJobs (s : Store) (now : Int) (scope : Scope) : List StaleJob :=
  (s.jobs.rows.filter fun row =>
      row.status = .running && row.startedAt.any (fun started => started + row.timeoutMs < now)
        && visibleIn scope row.namespace).filterMap fun row =>
    match (s.claims.find row.id).bind ClaimRow.settleDeadlineMs with
    | some deadline => if now < deadline then none else some ⟨row.narrow, true⟩
    | none => some ⟨row.narrow, false⟩

/-- `reap_orphaned_jobs`: running under a claim of a worker that is not
alive. -/
def reapOrphanedJobs (s : Store) (liveOwnerIds : List String) (scope : Scope) :
    List (Job × String) :=
  if liveOwnerIds.isEmpty then []
  else
    s.jobs.rows.filterMap fun row =>
      match s.claims.find row.id with
      | some claim =>
        if row.status = .running ∧ visibleIn scope row.namespace ∧
            claim.workerId ∉ liveOwnerIds then
          some (row.narrow, claim.workerId)
        else none
      | none => none

end FlexiQ.Sql
