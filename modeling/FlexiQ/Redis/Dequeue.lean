/-
# `Redis.Dequeue` — the claim script, and what Rust does with its answer

`redis_backend/jobs/dequeue.rs`.  One script walks the head of a queue's
sorted set and claims what is ready.  Whatever it cannot claim by patching
the document's text is handed back as `deferred` and claimed by a second
script; what it found expired is archived by Rust.

The window is a `LIMIT` on the sorted set, which all namespaces, due times
and dependency states share.
-/
import FlexiQ.Redis.Jobs

namespace FlexiQ.Redis

open FlexiQ.Lib

/-- `deps_complete`: the live document first, then the archived one. -/
def depsComplete (s : Store) (id : String) : Bool :=
  (s.sets.smembers (.dependsOn id)).all fun dep =>
    (s.jobs.find dep <|> s.archived.find dep).any fun job => job.status = .complete

/-- `worth_decoding`: what the raw text already rules out. -/
def worthDecoding (now : Int) (ns : Scope) (job : Job) : Bool :=
  job.status = .pending && job.scheduledAt ≤ now &&
    (if ns.isSome then job.namespace.isSome else job.namespace.isNone)

def claimable (now : Int) (ns : Scope) (job : Job) : Bool :=
  job.status = .pending && job.scheduledAt ≤ now && job.namespace = ns

/-- Whether the script can patch the text: `"started_at":null` has to be
there to be replaced. -/
def patchable (job : Job) : Bool := job.startedAt.isNone

def claimOps (queue : String) (running : Job) : List Cmd :=
  [.setJob running,
    .srem (.status .pending) running.id,
    .sadd (.status .running) running.id,
    .zrem (.pending queue) running.id] ++
  (jobDebounceIndexKey running).toList.map (fun key => .zrem key running.id)

structure Selected where
  claimed : List Job
  expired : List String
  deferred : List Job
  deriving DecidableEq, Repr

/-- One candidate of `SELECT_AND_CLAIM_BODY`. -/
def selectOne (queue : String) (now : Int) (ns : Scope) (s : Store) (out : Selected)
    (id : String) : Selected × Store :=
  match loadJob s id with
  | none => (out, s.exec [.zrem (.pending queue) id])
  | some job =>
    if !(worthDecoding now ns job && claimable now ns job) then (out, s)
    else if job.expiredAt now then ({ out with expired := out.expired ++ [id] }, s)
    else if (!job.hasDeps || depsComplete s id) && s.sets.sismember (.status .pending) id then
      if patchable job then
        ({ out with claimed := out.claimed ++ [job.startedBy now] },
          s.exec (claimOps queue (job.startedBy now)))
      else ({ out with deferred := out.deferred ++ [job] }, s)
    else (out, s)

def selectAndClaim (queue : String) (now : Int) (ns : Scope) (max : Nat) :
    Store → Selected → List String → Selected × Store
  | s, out, [] => (out, s)
  | s, out, id :: ids =>
    if max ≤ out.claimed.length + out.deferred.length then (out, s)
    else
      let (out, s) := selectOne queue now ns s out id
      selectAndClaim queue now ns max s out ids

def expiredBeforeExecution : String := "expired before execution"

def archiveExpired (now : Int) : Store → List String → List Job × Store
  | s, [] => ([], s)
  | s, id :: ids =>
    match (loadJob s id).filter (fun job => job.status = .pending) with
    | none => archiveExpired now s ids
    | some job =>
      let gone := job.finish .cancelled now (some expiredBeforeExecution)
      let (rest, s) := archiveExpired now (archiveJobImmediately s gone .pending now) ids
      (gone :: rest, s)

def claimDeferred (queue : String) (now : Int) (max : Nat) :
    Store → List Job → List Job → List Job × Store
  | s, claimed, [] => (claimed, s)
  | s, claimed, job :: jobs =>
    if claimed.length = max then (claimed, s)
    else if s.sets.sismember (.status .pending) job.id then
      claimDeferred queue now max (s.exec (claimOps queue (job.startedBy now)))
        (claimed ++ [job.startedBy now]) jobs
    else claimDeferred queue now max s claimed jobs

def scanLimit (max : Nat) : Nat := Nat.max 100 (Nat.min (max * 4) 400)

def window (s : Store) (queue : String) (max : Nat) : List String :=
  ((s.zsets.zrange (.pending queue)).map Scored.member).take (scanLimit max)

def dequeueBatch (s : Store) (queue : String) (now : Int) (ns : Scope) (max : Nat) :
    (List Job × List Job) × Store :=
  if max = 0 then (([], []), s)
  else
    let (out, s) := selectAndClaim queue now ns max s ⟨[], [], []⟩ (window s queue max)
    let (expired, s) := archiveExpired now s out.expired
    let (claimed, s) := claimDeferred queue now max s out.claimed out.deferred
    ((claimed, expired), s)

end FlexiQ.Redis
