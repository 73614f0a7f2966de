/-
# `Quota.Buckets` — whose tokens a limit draws

Four kinds of limit draw from one table of token buckets, and each builds its
key in its own way (`Limit.key`).  A namespace's enqueue quota and a trigger's
limit carry their namespace, one behind its length and one before the LAST
colon.  The limits of the poller carry none, and the key of a task is the bare
name: two tenants of one database share them, and a task may be called what
another limit's key is.
-/
import FlexiQ.Quota.Tokens

namespace FlexiQ.Quota

open List FlexiQ.Lib

def bucketKey (ns trigger : String) : String := "trigger:" ++ ns ++ ":" ++ trigger

def checkName (name : String) : Except String Unit :=
  let boring (c : Char) : Bool := c.isAlphanum || c = '-' || c = '_' || c = '.'
  if name.isEmpty || name.utf8ByteSize > 64 || !name.toList.all boring then
    .error "name must be 1-64 characters of letters, digits, '-', '_' or '.'"
  else .ok ()

inductive Limit
  | queue (ns : Scope) (queue : String)
  | task (ns : Scope) (taskName : String)
  | enqueue (ns : Scope)
  | trigger (ns trigger : String)
  deriving DecidableEq

namespace Limit

/-- The bucket: as `check_pre_claim_gates`, `enqueue_rate_key` and `bucket_key`
build it. -/
def key : Limit → String
  | .queue _ name => "queue:" ++ name
  | .task _ name => name
  | .enqueue ns => enqueueRateKey ns
  | .trigger ns name => bucketKey ns name

/-- A trigger has passed the check of its definition. -/
def Defined : Limit → Prop
  | .trigger _ name => checkName name = .ok ()
  | _ => True

/-- Two limits that are given one bucket.  The keys of the poller leave the
namespace out, and the key of a task is whatever the task is called. -/
def Shares : Limit → Limit → Prop
  | .queue ns name, .queue ns' name' => name = name' ∧ ns ≠ ns'
  | .task ns name, .task ns' name' => name = name' ∧ ns ≠ ns'
  | .task _ name, .queue _ name' | .queue _ name', .task _ name => name = "queue:" ++ name'
  | .task _ name, .enqueue ns | .enqueue ns, .task _ name => name = enqueueRateKey ns
  | .task _ name, .trigger ns name' | .trigger ns name', .task _ name => name = bucketKey ns name'
  | _, _ => False

instance decShares : DecidableRel Shares := fun a b => by
  cases a <;> cases b <;> unfold Shares <;> infer_instance

/-- How the keys of a kind begin; those of tasks begin in any way. -/
def lead : Limit → Option String
  | .queue .. => some "queue:"
  | .task .. => none
  | .enqueue _ => some "quota::"
  | .trigger .. => some "trigger:"

def leads : List String := ["queue:", "quota::", "trigger:"]

theorem key_of_lead {l : Limit} {s : String} (h : l.lead = some s) :
    s ∈ leads ∧ s.toList <+: l.key.toList := by
  cases l with
  | task => cases h
  | queue ns name =>
    cases h
    exact ⟨by decide, name.toList, String.toList_append.symm⟩
  | enqueue ns =>
    cases h
    cases ns with
    | none => exact ⟨by decide, "-::enqueue".toList, rfl⟩
    | some name => exact ⟨by decide, _, (enqueueRateKey_some name).symm⟩
  | trigger ns name =>
    cases h
    refine ⟨by decide, ns.toList ++ ':' :: name.toList, ?_⟩
    simp [Limit.key, bucketKey]

theorem lead_unique {s s' : String} (hs : s ∈ leads) (hs' : s' ∈ leads) {text : List Char}
    (h : s.toList <+: text) (h' : s'.toList <+: text) : s = s' := by
  obtain ⟨r, rfl⟩ := h
  obtain ⟨r', h'⟩ := h'
  simp only [leads, mem_cons, not_mem_nil, or_false] at hs hs'
  rcases hs with rfl | rfl | rfl <;> rcases hs' with rfl | rfl | rfl <;> first | rfl | cases h'

theorem lead_eq {a b : Limit} {s s' : String} (ha : a.lead = some s) (hb : b.lead = some s')
    (hkey : a.key = b.key) : s = s' := by
  obtain ⟨hs, hstart⟩ := key_of_lead ha
  obtain ⟨hs', hstart'⟩ := key_of_lead hb
  rw [hkey] at hstart
  exact lead_unique hs hs' hstart hstart'

end Limit

theorem colon_notMem_of_checkName {name : String} (h : checkName name = .ok ()) :
    ':' ∉ name.toList := by
  unfold checkName at h
  dsimp only at h
  split at h
  · cases h
  · next hbad =>
    intro hmem
    simp only [Bool.or_eq_true, not_or, Bool.not_eq_true, Bool.not_eq_false', all_eq_true] at hbad
    exact absurd (hbad.2 ':' hmem) (by decide)

/-- The last colon ends the namespace: the check keeps it out of a name. -/
theorem bucketKey_injective {ns ns' name name' : String} (h : checkName name = .ok ())
    (h' : checkName name' = .ok ()) (hkey : bucketKey ns name = bucketKey ns' name') :
    ns = ns' ∧ name = name' := by
  have htext := congrArg String.toList hkey
  simp only [bucketKey, String.toList_append, append_assoc] at htext
  have htail : ns.toList ++ ':' :: name.toList = ns'.toList ++ ':' :: name'.toList :=
    append_cancel_left htext
  have hns := congrArg (beforeLast ':') htail
  rw [beforeLast_append (colon_notMem_of_checkName h),
    beforeLast_append (colon_notMem_of_checkName h')] at hns
  rw [hns] at htail
  exact ⟨String.toList_injective hns,
    String.toList_injective (cons.inj (append_cancel_left htail)).2⟩

namespace Limit

theorem key_of_shares {a b : Limit} (h : a.Shares b) : a.key = b.key := by
  cases a <;> cases b <;> simp_all [Shares, key]

/-- Two limits with one key share it: kinds other than a task's begin apart, and
within a kind the key gives the name away. -/
theorem shares_of_key {a b : Limit} (hne : a ≠ b) (ha : a.Defined) (hb : b.Defined)
    (hkey : a.key = b.key) : a.Shares b := by
  cases a with
  | task ns name =>
    cases b with
    | task ns' name' =>
      have hname : name = name' := hkey
      exact ⟨hname, fun hns => hne (hns ▸ hname ▸ rfl)⟩
    | queue | enqueue | trigger => exact hkey
  | queue ns name =>
    cases b with
    | queue ns' name' =>
      have hname : name = name' := by simpa [key] using hkey
      exact ⟨hname, fun hns => hne (hns ▸ hname ▸ rfl)⟩
    | task => exact hkey.symm
    | enqueue | trigger => exact absurd (lead_eq rfl rfl hkey) (by decide)
  | enqueue ns =>
    cases b with
    | enqueue ns' => exact absurd (congrArg _ (enqueueRateKey_injective hkey)) hne
    | task => exact hkey.symm
    | queue | trigger => exact absurd (lead_eq rfl rfl hkey) (by decide)
  | trigger ns name =>
    cases b with
    | trigger ns' name' =>
      obtain ⟨rfl, rfl⟩ := bucketKey_injective ha hb hkey
      exact absurd rfl hne
    | task => exact hkey.symm
    | queue | enqueue => exact absurd (lead_eq rfl rfl hkey) (by decide)

end Limit

/-- **When two limits draw from two buckets**: unless they are limits of one
name on a queue, or on a task, in two namespaces, or one is on a task that is
called what the other's key is. -/
theorem buckets_apart {a b : Limit} (hne : a ≠ b) (ha : a.Defined) (hb : b.Defined) :
    a.key ≠ b.key ↔ ¬ a.Shares b :=
  not_congr ⟨Limit.shares_of_key hne ha hb, Limit.key_of_shares⟩

theorem queue_apart_from_task :
    (Limit.queue (some "a") "mail").key ≠ (Limit.task (some "b") "mail").key :=
  (buckets_apart (a := .queue (some "a") "mail") (b := .task (some "b") "mail") (by decide)
    trivial trivial).mpr (by decide)

/-- Two tenants share the bucket of a queue, and a task may be called what the
bucket of a queue is. -/
theorem tenants_share_bucket :
    (Limit.queue (some "a") "mail").key = (Limit.queue (some "b") "mail").key ∧
      (Limit.task none "queue:mail").key = (Limit.queue none "mail").key :=
  ⟨rfl, rfl⟩

end FlexiQ.Quota
