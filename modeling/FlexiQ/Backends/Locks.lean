/-
# `Backends.Locks` — the distributed locks of the three backends

One row per lock, in three encodings.  SQLite reads and replaces in an
exclusive transaction; Postgres takes the row `FOR UPDATE SKIP LOCKED`,
updates one that has expired, and inserts where there is none; Redis keeps a
hash under a key that expires with the lock, and compares instants as the
doubles of Lua.  Releasing and extending look at the owner alone, so an owner
may extend a lock that has expired, as long as nobody took it or removed it.

Each encoding is shown to take the steps of `Lib.Grant` (`Refines`), and
`lock_is_exclusive` is what follows for every sequence of calls.
-/
import FlexiQ.Lib.Grant
import FlexiQ.Lib.Runs
import FlexiQ.Redis.Claims

namespace FlexiQ.Backends

open Option FlexiQ.Lib Table

/-- A reading of `now_millis`: milliseconds, of which a double holds every
one exactly. -/
abbrev Reading := { ms : Int // ms.natAbs < 2 ^ 53 }

inductive LockOp
  | acquire (lockName ownerId : String) (ttlMs : Int)
  | extend (lockName ownerId : String) (ttlMs : Int)
  | release (lockName ownerId : String)
  | reap
  deriving DecidableEq, Repr

/-- `now + ttl_ms`, of `i64`s: past the largest it wraps. -/
def expiryOf (now ttlMs : Int) : Int := Int.bmod (now + ttlMs) (2 ^ 64)

/-! ## The SQL backends -/

structure LockRow where
  lockName : String
  ownerId : String
  acquiredAt : Int
  expiresAt : Int
  deriving DecidableEq, Repr

abbrev LockTable := Table String LockRow LockRow.lockName

namespace Sqlite

/-- `acquire_lock`, on SQLite: `REPLACE INTO`, unless the lock runs. -/
def acquireLock (locks : LockTable) (lockName ownerId : String) (ttlMs now : Int) :
    Bool × LockTable :=
  let taken : LockRow := ⟨lockName, ownerId, now, expiryOf now ttlMs⟩
  match locks.find lockName with
  | some lock => if now < lock.expiresAt then (false, locks) else (true, locks.upsert taken)
  | none => (true, locks.upsert taken)

end Sqlite

namespace Postgres

/-- `acquire_lock`, on Postgres.  No other transaction is open, so the row is
skipped only where there is none; the insert then looks whose row it finds. -/
def acquireLock (locks : LockTable) (lockName ownerId : String) (ttlMs now : Int) :
    Bool × LockTable :=
  match locks.find lockName with
  | some lock =>
    if now < lock.expiresAt then (false, locks)
    else
      (true, locks.update (fun row => row.lockName = lockName) fun row =>
        { row with ownerId := ownerId, acquiredAt := now, expiresAt := expiryOf now ttlMs })
  | none =>
    let locks := (locks.insert ⟨lockName, ownerId, now, expiryOf now ttlMs⟩).getD locks
    ((locks.find lockName).any fun row => row.ownerId = ownerId, locks)

end Postgres

def releaseLock (locks : LockTable) (lockName ownerId : String) : Bool × LockTable :=
  match locks.find lockName with
  | some row =>
    if row.ownerId = ownerId then (true, locks.delete fun row => row.lockName = lockName)
    else (false, locks)
  | none => (false, locks)

def extendLock (locks : LockTable) (lockName ownerId : String) (ttlMs now : Int) :
    Bool × LockTable :=
  match locks.find lockName with
  | some row =>
    if row.ownerId = ownerId then
      (true, locks.update (fun row => row.lockName = lockName) fun row =>
        { row with expiresAt := expiryOf now ttlMs })
    else (false, locks)
  | none => (false, locks)

def reapExpiredLocks (locks : LockTable) (now : Int) : LockTable :=
  locks.delete fun row => row.expiresAt ≤ now

/-! ## Redis -/

namespace Redis

/-- The hash of a lock.  Whoever writes its expiry also lets the key expire
then. -/
structure LockHash where
  lockName : String
  ownerId : String
  acquiredAt : Int
  expiresAt : Int
  deriving DecidableEq, Repr

abbrev LockKeys := Table String LockHash LockHash.lockName

/-- The hash under a key, which is gone once its `PEXPIREAT` has passed. -/
def lockHash (locks : LockKeys) (lockName : String) (now : Int) : Option LockHash :=
  (locks.find lockName).filter fun hash => now ≤ FlexiQ.Redis.asF64 hash.expiresAt

section

variable (locks : LockKeys) (lockName ownerId : String)

/-- `PEXPIREAT`, with the expiry that was written to the hash: an instant that
has passed deletes the key.  The server is taken to accept every instant. -/
def pexpireat (expiresAt now : Int) : LockKeys :=
  if FlexiQ.Redis.asF64 expiresAt ≤ now then locks.delete fun hash => hash.lockName = lockName
  else locks

/-- `ACQUIRE_LOCK_SCRIPT`. -/
def acquireLock (ttlMs now : Int) : Bool × LockKeys :=
  let expiresAt := expiryOf now ttlMs
  if (lockHash locks lockName now).any fun hash =>
      FlexiQ.Redis.asF64 now < FlexiQ.Redis.asF64 hash.expiresAt then (false, locks)
  else
    (true, pexpireat (locks.upsert ⟨lockName, ownerId, now, expiresAt⟩) lockName expiresAt now)

/-- `RELEASE_LOCK_SCRIPT`. -/
def releaseLock (now : Int) : Bool × LockKeys :=
  if (lockHash locks lockName now).any fun hash => hash.ownerId = ownerId then
    (true, locks.delete fun hash => hash.lockName = lockName)
  else (false, locks)

/-- `EXTEND_LOCK_SCRIPT`. -/
def extendLock (ttlMs now : Int) : Bool × LockKeys :=
  let expiresAt := expiryOf now ttlMs
  if (lockHash locks lockName now).any fun hash => hash.ownerId = ownerId then
    (true, pexpireat (locks.update (fun hash => hash.lockName = lockName) fun hash =>
      { hash with expiresAt := expiresAt }) lockName expiresAt now)
  else (false, locks)

end

/-- `REAP_LOCK_SCRIPT`, on every key. -/
def reapExpiredLocks (locks : LockKeys) (now : Int) : LockKeys :=
  locks.delete fun hash => FlexiQ.Redis.asF64 hash.expiresAt ≤ FlexiQ.Redis.asF64 now

end Redis

/-! ## The three services -/

/-- A backend's locks: what it has on record of a lock, and what a call
answers and does. -/
structure LockOps (S : Type) where
  empty : S
  cell : S → String → Option (Held String)
  run : Reading → LockOp → S → Bool × S

def LockRow.held (row : LockRow) : Held String := ⟨row.ownerId, row.expiresAt⟩

def Redis.LockHash.held (hash : Redis.LockHash) : Held String := ⟨hash.ownerId, hash.expiresAt⟩

/-- A SQL backend, which differs in how it acquires. -/
def sqlLocks (acquire : LockTable → String → String → Int → Int → Bool × LockTable) :
    LockOps LockTable where
  empty := .empty
  cell locks lockName := (locks.find lockName).map LockRow.held
  run now
    | .acquire lockName ownerId ttlMs, locks => acquire locks lockName ownerId ttlMs now
    | .extend lockName ownerId ttlMs, locks => extendLock locks lockName ownerId ttlMs now
    | .release lockName ownerId, locks => releaseLock locks lockName ownerId
    | .reap, locks => (true, reapExpiredLocks locks now)

def redisLocks : LockOps Redis.LockKeys where
  empty := .empty
  cell locks lockName := (locks.find lockName).map Redis.LockHash.held
  run now
    | .acquire lockName ownerId ttlMs, locks => Redis.acquireLock locks lockName ownerId ttlMs now
    | .extend lockName ownerId ttlMs, locks => Redis.extendLock locks lockName ownerId ttlMs now
    | .release lockName ownerId, locks => Redis.releaseLock locks lockName ownerId now
    | .reap, locks => (true, Redis.reapExpiredLocks locks now)

inductive Backend
  | sqlite
  | postgres
  | redis
  deriving DecidableEq, Repr

def Backend.LockStore : Backend → Type
  | .sqlite | .postgres => LockTable
  | .redis => Redis.LockKeys

def Backend.locks : (b : Backend) → LockOps b.LockStore
  | .sqlite => sqlLocks Sqlite.acquireLock
  | .postgres => sqlLocks Postgres.acquireLock
  | .redis => redisLocks

/-! ## What a call does to a lock -/

def LockOp.event (op : LockOp) (now : Int) (answer : Bool) (lockName : String) : LockEvent String :=
  match op with
  | .acquire name ownerId ttlMs =>
    if answer = true ∧ name = lockName then .granted ownerId (expiryOf now ttlMs) else .quiet
  | .extend name ownerId ttlMs =>
    if answer = true ∧ name = lockName then .extended ownerId (expiryOf now ttlMs) else .quiet
  | .release name ownerId => if answer = true ∧ name = lockName then .released ownerId else .quiet
  | .reap => .reaped

structure LockOps.Refines {S : Type} (ops : LockOps S) : Prop where
  empty : ∀ lockName, ops.cell ops.empty lockName = none
  step : ∀ now op s lockName, LockStep now.val (ops.cell s lockName)
    (op.event now.val (ops.run now op s).1 lockName) (ops.cell (ops.run now op s).2 lockName)
  extend : ∀ now lockName ownerId ttlMs s,
    ops.run now (.extend lockName ownerId ttlMs) s = (false, s) ∨
      ∃ held, ops.cell s lockName = some held ∧ held.owner = ownerId
  release : ∀ now lockName ownerId s, ops.run now (.release lockName ownerId) s = (false, s) ∨
      ∃ held, ops.cell s lockName = some held ∧ held.owner = ownerId

/-- What a call does at the lock it names: it refuses, or finds there what
`Found` says, leaves what `Left` says and every other lock as it was. -/
def Settles {S : Type} (cell : S → String → Option (Held String)) (s : S) (lockName : String)
    (Found Left : Option (Held String) → Prop) (r : Bool × S) : Prop :=
  r = (false, s) ∨ Found (cell s lockName) ∧ r.1 = true ∧ Left (cell r.2 lockName) ∧
    ∀ name, name ≠ lockName → cell r.2 name = cell s name

/-- On record as the lock of `ownerId`. -/
def OwnedBy (ownerId : String) (cell : Option (Held String)) : Prop :=
  ∃ held, cell = some held ∧ held.owner = ownerId

/-- Free, or run out at `now`. -/
def FreeAt (now : Int) (cell : Option (Held String)) : Prop :=
  ∀ held, cell = some held → held.expiry ≤ now

theorem Settles.step {S : Type} {cell : S → String → Option (Held String)} {s : S}
    {lockName : String} {Found Left : Option (Held String) → Prop}
    {r : Bool × S} {now : Int} {op : LockOp} {event : LockEvent String}
    (h : Settles cell s lockName Found Left r)
    (hevent : ∀ answer name, op.event now answer name =
      if answer = true ∧ lockName = name then event else .quiet)
    (hstep : ∀ {before after}, Found before → Left after → LockStep now before event after)
    (name : String) : LockStep now (cell s name) (op.event now r.1 name) (cell r.2 name) := by
  rcases h with rfl | ⟨hfound, hdone, hleft, hothers⟩
  · rw [hevent, if_neg fun h => Bool.false_ne_true h.1]
    exact .idle
  · rw [hevent]
    by_cases hname : name = lockName
    · subst hname
      rw [if_pos ⟨hdone, rfl⟩]
      exact hstep hfound hleft
    · rw [hothers name hname, if_neg fun h => hname h.2.symm]
      exact .idle

theorem OwnedBy.extend {ownerId : String} {cell cell' : Option (Held String)} {now expiry : Int}
    (h : OwnedBy ownerId cell) (hcell : Held.Recorded now ⟨ownerId, expiry⟩ cell') :
    LockStep now cell (.extended ownerId expiry) cell' := by
  obtain ⟨held, rfl, rfl⟩ := h
  exact .extend hcell

theorem OwnedBy.release {ownerId : String} {cell cell' : Option (Held String)} {now : Int}
    (h : OwnedBy ownerId cell) (hcell : cell' = none) :
    LockStep now cell (.released ownerId) cell' := by
  obtain ⟨held, rfl, rfl⟩ := h
  subst hcell
  exact .release

/-! Both kinds of store are tables with one row for each lock. -/

section

variable {R : Type} {key : R → String} {held : R → Held String} {locks locks' : Table String R key}
  {lockName : String} {row : R} {Found Left : Option (Held String) → Prop}

theorem settles_true (hfound : Found ((locks.find lockName).map held))
    (hleft : Left ((locks'.find lockName).map held))
    (hothers : ∀ name, name ≠ lockName → locks'.find name = locks.find name) :
    Settles (fun locks name => (locks.find name).map held) locks lockName Found Left
      (true, locks') :=
  .inr ⟨hfound, rfl, hleft, fun name hname => congrArg _ (hothers name hname)⟩

theorem settles_upsert (hkey : key row = lockName) (hfound : Found ((locks.find lockName).map held))
    (hleft : Left (some (held row))) :
    Settles (fun locks name => (locks.find name).map held) locks lockName Found Left
      (true, locks.upsert row) := by
  refine settles_true hfound ?_ fun name hname => ?_
  · rw [find_upsert, if_pos hkey]
    exact hleft
  · rw [find_upsert, if_neg fun h => hname (h.symm.trans hkey)]

theorem settles_update {f : R → R} {hf : ∀ row, key (f row) = key row}
    (hrow : locks.find lockName = some row) (hfound : Found (some (held row)))
    (hleft : Left (some (held (f row)))) :
    Settles (fun locks name => (locks.find name).map held) locks lockName Found Left
      (true, locks.update (fun row => key row = lockName) f hf) := by
  refine settles_true (by rw [hrow]; exact hfound) ?_ fun name hname => ?_
  · rw [find_update_key, if_pos rfl, hrow]
    exact hleft
  · rw [find_update_key, if_neg hname]

theorem settles_delete (hrow : locks.find lockName = some row) (hfound : Found (some (held row))) :
    Settles (fun locks name => (locks.find name).map held) locks lockName Found (· = none)
      (true, locks.delete fun row => key row = lockName) := by
  refine settles_true (by rw [hrow]; exact hfound) ?_ fun name hname => ?_
  · rw [find_delete_key, if_pos rfl]
    rfl
  · rw [find_delete_key, if_neg hname]

theorem reap_of_delete {expired : R → Bool} {now : Int}
    (h : ∀ row, expired row = true ↔ (held row).expiry ≤ now) (lockName : String) :
    LockStep now ((locks.find lockName).map held) .reaped
      (((locks.delete expired).find lockName).map held) := by
  have hfilter : ((locks.delete expired).find lockName).map held =
      ((locks.find lockName).map held).filter fun held => now < held.expiry := by
    rw [find_delete]
    cases locks.find lockName with
    | none => rfl
    | some row =>
      have hrow : (!expired row) = decide (now < (held row).expiry) := by
        rw [Bool.eq_iff_iff, Bool.not_eq_true', decide_eq_true_eq, ← not_le, ← h row,
          Bool.not_eq_true]
      simp only [Option.map_some, Option.filter_some, hrow]
      split <;> rfl
  rw [hfilter]
  exact .reap

end

/-! ## The SQL backends refine it -/

/-- An `acquire_lock` finds the lock free or expired. -/
def Takes (acquire : LockTable → String → String → Int → Int → Bool × LockTable) : Prop :=
  ∀ locks lockName ownerId ttlMs now, Settles (sqlLocks acquire).cell locks lockName (FreeAt now)
    (Held.Recorded now ⟨ownerId, expiryOf now ttlMs⟩) (acquire locks lockName ownerId ttlMs now)

theorem freeAt_row {locks : LockTable} {lockName : String} {lock : LockRow} {now : Int}
    (hfind : locks.find lockName = some lock) (hrun : ¬now < lock.expiresAt) :
    FreeAt now ((locks.find lockName).map LockRow.held) := by
  rw [hfind]
  rintro held ⟨⟩
  exact not_lt.mp hrun

theorem freeAt_none {locks : LockTable} {lockName : String} {now : Int}
    (hfind : locks.find lockName = none) : FreeAt now ((locks.find lockName).map LockRow.held) := by
  rw [hfind]
  rintro held ⟨⟩

theorem sqlite_takes : Takes Sqlite.acquireLock := by
  intro locks lockName ownerId ttlMs now
  unfold Sqlite.acquireLock
  cases hfind : locks.find lockName with
  | none => exact settles_upsert rfl (freeAt_none hfind) (.inl rfl)
  | some lock =>
    dsimp only
    split
    · exact Or.inl rfl
    · next hrun => exact settles_upsert rfl (freeAt_row hfind hrun) (.inl rfl)

theorem postgres_takes : Takes Postgres.acquireLock := by
  intro locks lockName ownerId ttlMs now
  unfold Postgres.acquireLock
  cases hfind : locks.find lockName with
  | none =>
    obtain ⟨locks', hins⟩ :=
      insert_isSome (t := locks) (r := ⟨lockName, ownerId, now, expiryOf now ttlMs⟩) hfind
    have hrow : ∀ name, locks'.find name =
        if lockName = name then some ⟨lockName, ownerId, now, expiryOf now ttlMs⟩
        else locks.find name := find_insert hins
    have hmine : ((locks'.find lockName).any fun row => row.ownerId = ownerId) = true := by
      rw [hrow, if_pos rfl]
      simp
    dsimp only
    rw [hins, getD_some, hmine]
    refine settles_true (freeAt_none hfind) ?_ fun name hname => ?_
    · rw [hrow, if_pos rfl]
      exact .inl rfl
    · rw [hrow, if_neg (Ne.symm hname)]
  | some lock =>
    dsimp only
    split
    · exact Or.inl rfl
    · next hrun =>
      have hfree := freeAt_row hfind hrun
      rw [hfind] at hfree
      exact settles_update hfind hfree (.inl rfl)

section

variable (acquire : LockTable → String → String → Int → Int → Bool × LockTable)

theorem releaseLock_spec (locks : LockTable) (lockName ownerId : String) :
    Settles (sqlLocks acquire).cell locks lockName (OwnedBy ownerId) (· = none)
      (releaseLock locks lockName ownerId) := by
  unfold releaseLock
  cases hfind : locks.find lockName with
  | none => exact Or.inl rfl
  | some row =>
    dsimp only
    split
    · next howner => exact settles_delete hfind ⟨_, rfl, howner⟩
    · exact Or.inl rfl

theorem extendLock_spec (locks : LockTable) (lockName ownerId : String) (ttlMs now : Int) :
    Settles (sqlLocks acquire).cell locks lockName (OwnedBy ownerId)
      (Held.Recorded now ⟨ownerId, expiryOf now ttlMs⟩)
      (extendLock locks lockName ownerId ttlMs now) := by
  unfold extendLock
  cases hfind : locks.find lockName with
  | none => exact Or.inl rfl
  | some row =>
    dsimp only
    split
    · next howner =>
      cases howner
      exact settles_update hfind ⟨_, rfl, rfl⟩ (.inl rfl)
    · exact Or.inl rfl

end

theorem sqlLocks_refines {acquire : LockTable → String → String → Int → Int → Bool × LockTable}
    (htakes : Takes acquire) : (sqlLocks acquire).Refines where
  empty _ := rfl
  step now op locks name := by
    cases op with
    | acquire lockName ownerId ttlMs =>
      exact (htakes locks lockName ownerId ttlMs now).step (fun _ _ => rfl) .grant name
    | extend lockName ownerId ttlMs =>
      exact (extendLock_spec acquire locks lockName ownerId ttlMs now).step (fun _ _ => rfl)
        OwnedBy.extend name
    | release lockName ownerId =>
      exact (releaseLock_spec acquire locks lockName ownerId).step (fun _ _ => rfl)
        OwnedBy.release name
    | reap => exact reap_of_delete (fun _ => decide_eq_true_iff) name
  extend now lockName ownerId ttlMs locks :=
    (extendLock_spec acquire locks lockName ownerId ttlMs now).imp_right And.left
  release now lockName ownerId locks :=
    (releaseLock_spec acquire locks lockName ownerId).imp_right And.left

/-! ## Redis refines it -/

theorem asF64_reading (now : Reading) : FlexiQ.Redis.asF64 now.val = now.val := by
  unfold FlexiQ.Redis.asF64
  rw [FlexiQ.Redis.roundToF64_exact now.2]
  split <;> omega

namespace Redis

theorem lockHash_owned {locks : LockKeys} {lockName ownerId : String} {now : Int}
    (h : (lockHash locks lockName now).any (fun hash => hash.ownerId = ownerId) = true) :
    ∃ hash, locks.find lockName = some hash ∧ hash.ownerId = ownerId := by
  obtain ⟨hash, hhash, howner⟩ := (any_eq_true _ _).mp h
  exact ⟨hash, (filter_eq_some_iff.mp hhash).1, of_decide_eq_true howner⟩

/-- The writes of a script that gives an expiry, and the `PEXPIREAT` after them. -/
theorem settles_pexpireat {locks locks' : LockKeys} {lockName ownerId : String} {ttlMs : Int}
    {now : Reading} {Found : Option (Held String) → Prop}
    (h : Settles redisLocks.cell locks lockName Found
      (· = some ⟨ownerId, expiryOf now.val ttlMs⟩) (true, locks')) :
    Settles redisLocks.cell locks lockName Found
      (Held.Recorded now.val ⟨ownerId, expiryOf now.val ttlMs⟩)
      (true, pexpireat locks' lockName (expiryOf now.val ttlMs) now.val) := by
  obtain hfalse | ⟨hfound, -, hleft, hothers⟩ := h
  · cases hfalse
  unfold pexpireat
  split
  · next hpassed =>
    refine .inr ⟨hfound, rfl, .inr ⟨?_, FlexiQ.Redis.le_of_asF64_le now.2 hpassed⟩,
      fun name hname => ?_⟩
    · show ((locks'.delete _).find lockName).map LockHash.held = none
      rw [find_delete_key, if_pos rfl]
      rfl
    · refine Eq.trans ?_ (hothers name hname)
      show ((locks'.delete _).find name).map LockHash.held = (locks'.find name).map LockHash.held
      rw [find_delete_key, if_neg hname]
  · exact .inr ⟨hfound, rfl, .inl hleft, hothers⟩

section

variable (locks : LockKeys) (lockName ownerId : String)

theorem acquireLock_spec (ttlMs : Int) (now : Reading) :
    Settles redisLocks.cell locks lockName (FreeAt now.val)
      (Held.Recorded now.val ⟨ownerId, expiryOf now.val ttlMs⟩)
      (acquireLock locks lockName ownerId ttlMs now) := by
  unfold acquireLock
  dsimp only
  split
  · exact Or.inl rfl
  · next hfree =>
    refine settles_pexpireat (settles_upsert rfl ?_ rfl)
    intro held hheld
    obtain ⟨hash, hhash, rfl⟩ := map_eq_some_iff.mp hheld
    refine FlexiQ.Redis.le_of_asF64_le now.2 ?_
    -- The key has expired, or the comparison found that the lock has.
    by_contra hlt
    refine hfree ((any_eq_true _ _).mpr ⟨hash, ?_, ?_⟩)
    · refine filter_eq_some_iff.mpr ⟨hhash, ?_⟩
      exact decide_eq_true (le_of_lt (not_le.mp hlt))
    · rw [asF64_reading]
      exact decide_eq_true (not_le.mp hlt)

theorem releaseLock_spec (now : Int) :
    Settles redisLocks.cell locks lockName (OwnedBy ownerId) (· = none)
      (releaseLock locks lockName ownerId now) := by
  unfold releaseLock
  split
  · next howned =>
    obtain ⟨hash, hhash, howner⟩ := lockHash_owned howned
    exact settles_delete hhash ⟨_, rfl, howner⟩
  · exact Or.inl rfl

theorem extendLock_spec (ttlMs : Int) (now : Reading) :
    Settles redisLocks.cell locks lockName (OwnedBy ownerId)
      (Held.Recorded now.val ⟨ownerId, expiryOf now.val ttlMs⟩)
      (extendLock locks lockName ownerId ttlMs now) := by
  unfold extendLock
  dsimp only
  split
  · next howned =>
    obtain ⟨hash, hhash, rfl⟩ := lockHash_owned howned
    exact settles_pexpireat (settles_update hhash ⟨_, rfl, rfl⟩ rfl)
  · exact Or.inl rfl

end

end Redis

theorem redisLocks_refines : redisLocks.Refines where
  empty _ := rfl
  step now op locks name := by
    cases op with
    | acquire lockName ownerId ttlMs =>
      exact (Redis.acquireLock_spec locks lockName ownerId ttlMs now).step (fun _ _ => rfl)
        .grant name
    | extend lockName ownerId ttlMs =>
      exact (Redis.extendLock_spec locks lockName ownerId ttlMs now).step (fun _ _ => rfl)
        OwnedBy.extend name
    | release lockName ownerId =>
      exact (Redis.releaseLock_spec locks lockName ownerId now).step (fun _ _ => rfl)
        OwnedBy.release name
    | reap =>
      refine reap_of_delete (fun hash => decide_eq_true_iff.trans ?_) name
      rw [asF64_reading]
      exact ⟨FlexiQ.Redis.le_of_asF64_le now.2,
        fun hle => (FlexiQ.Redis.asF64_mono hle).trans_eq (asF64_reading now)⟩
  extend now lockName ownerId ttlMs locks :=
    (Redis.extendLock_spec locks lockName ownerId ttlMs now).imp_right And.left
  release now lockName ownerId locks :=
    (Redis.releaseLock_spec locks lockName ownerId now).imp_right And.left

theorem Backend.locks_refines (b : Backend) : b.locks.Refines := by
  cases b with
  | sqlite => exact sqlLocks_refines sqlite_takes
  | postgres => exact sqlLocks_refines postgres_takes
  | redis => exact redisLocks_refines

/-! ## Sequences of calls -/

/-- The locks of a backend, the time of the last call, and what the answers so
far say of each lock: who holds it, and what was promised. -/
structure LockWorld (S : Type) where
  store : S
  clock : Int
  holder : String → Option (Held String)
  grants : String → List (Grant String)

namespace LockWorld

variable {S : Type} (ops : LockOps S)

def start : LockWorld S := ⟨ops.empty, 0, fun _ => none, fun _ => []⟩

/-- One call, no earlier than the last. -/
def next (w : LockWorld S) (label : Reading × LockOp) : Option (LockWorld S) :=
  if w.clock ≤ label.1.val then
    let (answer, store) := ops.run label.1 label.2 w.store
    let event lockName := label.2.event label.1.val answer lockName
    some
      { store := store
        clock := label.1.val
        holder := fun lockName => (event lockName).holder label.1.val (w.holder lockName)
        grants := fun lockName => (event lockName).promise label.1.val (w.grants lockName) }
  else none

variable {ops}

theorem kept_of_reaches (hops : ops.Refines) {w : LockWorld S}
    (h : Reaches (next ops) (fun _ _ => True) (start ops) w) (lockName : String) :
    Kept w.clock (ops.cell w.store lockName) (w.holder lockName) (w.grants lockName) := by
  refine h.invariant (I := fun w =>
    Kept w.clock (ops.cell w.store lockName) (w.holder lockName) (w.grants lockName)) ?_ ?_
  · show Kept 0 (ops.cell ops.empty lockName) none []
    rw [hops.empty]
    exact .start 0
  · intro w label w' hkept _ hnext
    unfold next at hnext
    split at hnext
    · next hle =>
      cases hnext
      exact hkept.step hle (hops.step label.1 label.2 w.store lockName)
    · cases hnext

/-- `ownerId` holds the lock: they were granted or extended it last, and have
not released it since, nor was it reaped after its expiry. -/
def Holds (w : LockWorld S) (lockName ownerId : String) : Prop :=
  ∃ held, w.holder lockName = some held ∧ held.owner = ownerId

theorem holds_of_kept {w : LockWorld S} {lockName ownerId : String}
    (h : Kept w.clock (ops.cell w.store lockName) (w.holder lockName) (w.grants lockName))
    (hheld : ∃ held, ops.cell w.store lockName = some held ∧ held.owner = ownerId) :
    w.Holds lockName ownerId := by
  obtain ⟨held, hcell, rfl⟩ := hheld
  exact ⟨held, h.recorded held hcell, rfl⟩

end LockWorld

/-- **A lock excludes**, on each backend and along every sequence of calls at
times that do not go back: no instant was promised to two owners, and an extend
or a release by anybody but the holder answers `false` and changes nothing. -/
theorem lock_is_exclusive (b : Backend) {w : LockWorld b.LockStore}
    (h : Reaches (LockWorld.next b.locks) (fun _ _ => True) (.start b.locks) w)
    (lockName : String) :
    Exclusive (w.grants lockName) ∧
    (∀ now ownerId ttlMs, ¬w.Holds lockName ownerId →
      b.locks.run now (.extend lockName ownerId ttlMs) w.store = (false, w.store) ∧
      b.locks.run now (.release lockName ownerId) w.store = (false, w.store)) ∧
    ∀ now ownerId ttlMs, (b.locks.run now (.extend lockName ownerId ttlMs) w.store).1 = true →
      w.Holds lockName ownerId ∧
        (w.grants lockName).head?.map Grant.owner = some ownerId := by
  have hops := b.locks_refines
  have hkept := LockWorld.kept_of_reaches hops h lockName
  refine ⟨hkept.exclusive, ?_, ?_⟩
  · intro now ownerId ttlMs hother
    refine ⟨?_, ?_⟩
    · rcases hops.extend now lockName ownerId ttlMs w.store with hrefused | hheld
      · exact hrefused
      · exact absurd (LockWorld.holds_of_kept hkept hheld) hother
    · rcases hops.release now lockName ownerId w.store with hrefused | hheld
      · exact hrefused
      · exact absurd (LockWorld.holds_of_kept hkept hheld) hother
  · intro now ownerId ttlMs hgranted
    rcases hops.extend now lockName ownerId ttlMs w.store with hrefused | hheld
    · rw [hrefused] at hgranted
      cases hgranted
    · obtain ⟨held, hholder, rfl⟩ := LockWorld.holds_of_kept hkept hheld
      exact ⟨⟨held, hholder, rfl⟩, hkept.latest held hholder⟩

def handover : List (Reading × LockOp) :=
  [(⟨10, by decide⟩, .acquire "lock" "a" 100), (⟨50, by decide⟩, .acquire "lock" "b" 100),
    (⟨60, by decide⟩, .extend "lock" "a" 100), (⟨160, by decide⟩, .acquire "lock" "b" 100),
    (⟨165, by decide⟩, .release "lock" "b")]

def HandedOver (b : Backend) : Prop := ∃ w,
  Reaches (LockWorld.next b.locks) (fun _ _ => True) (.start b.locks) w ∧
    w.grants "lock" = [⟨"b", 160, 165⟩, ⟨"a", 60, 160⟩, ⟨"a", 10, 60⟩] ∧
    Exclusive (w.grants "lock") ∧
    ∀ ownerId, b.locks.run ⟨170, by decide⟩ (.extend "lock" ownerId 100) w.store = (false, w.store)

theorem handover_is_exclusive :
    HandedOver .sqlite ∧ HandedOver .postgres ∧ HandedOver .redis := by
  have hover : ∀ b, HandedOver b := by
    intro b
    obtain ⟨w, hrun, hgrants, hnobody⟩ : ∃ w,
        Reaches (LockWorld.next b.locks) (fun _ _ => True) (.start b.locks) w ∧
          w.grants "lock" = [⟨"b", 160, 165⟩, ⟨"a", 60, 160⟩, ⟨"a", 10, 60⟩] ∧
          w.holder "lock" = none := by
      cases b <;> exact exists_reached handover
    obtain ⟨hexclusive, hother, -⟩ := lock_is_exclusive b hrun "lock"
    refine ⟨w, hrun, hgrants, hexclusive, fun ownerId => (hother _ ownerId 100 ?_).1⟩
    rintro ⟨held, hheld, -⟩
    rw [hnobody] at hheld
    cases hheld
  exact ⟨hover .sqlite, hover .postgres, hover .redis⟩

end FlexiQ.Backends
