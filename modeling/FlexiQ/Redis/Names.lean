/-
# `Redis.Names` — the keys the backend builds, and which of them meet

A key is the prefix and its parts with `:` between them, whatever the parts
are (`key`).  A namespace is written behind its length and can hold anything.
A topic is not, and neither is it told from the words the index keys put in
its place: the blob of a subscription is `sub:<topic>:<name>`, its backlog
`sub:pending:<topic>:<name>`.

So the keys of two records meet through a topic, and in no other way
(`Record.Meets`, `keys_do_not_alias`).
-/
import FlexiQ.Lib.Text
import Mathlib.Algebra.Ring.Nat

namespace FlexiQ.Redis.Names

open List FlexiQ.Lib

def joined : List (List Char) → List Char
  | [] => []
  | [part] => part
  | part :: rest => part ++ ':' :: joined rest

def key (pre : List Char) (parts : List (List Char)) : List Char := pre ++ joined parts

def byteLength (text : List Char) : Nat := (text.map Char.utf8Size).sum

def namespaceSegment : Option (List Char) → List Char
  | some ns => decimal (byteLength ns) ++ ':' :: ns
  | none => ['-']

inductive Backlog
  | pending
  | running
  | dead
  deriving DecidableEq, Repr

def Backlog.kind : Backlog → List Char
  | .pending => "pending".toList
  | .running => "running".toList
  | .dead => "dead".toList

/-- What is found by a namespace and a key: the debounce index and the unique
pointer. -/
inductive Keyed
  | debounce
  | unique
  deriving DecidableEq, Repr

def Keyed.word : Keyed → List Char
  | .debounce => "debounce".toList
  | .unique => "unique".toList

/-- The records that are kept under names clients choose. -/
inductive Record
  | blob (topic name : List Char)
  | backlog (kind : Backlog) (topic name : List Char)
  | deliveries (topic name : List Char)
  | stream (topic : List Char)
  | keyed (index : Keyed) (ns : Option (List Char)) (k : List Char)
  | byNamespace (ns : Option (List Char))
  deriving DecidableEq, Repr

def Record.parts : Record → List (List Char)
  | .blob topic name => ["sub".toList, topic, name]
  | .backlog kind topic name => ["sub".toList, kind.kind, topic, name]
  | .deliveries topic name => ["pmdeliv".toList, topic, name]
  | .stream topic => ["topic".toList, topic]
  | .keyed index ns k => ["jobs".toList, index.word, namespaceSegment ns, k]
  | .byNamespace ns => ["jobs".toList, "by_ns".toList, namespaceSegment ns]

def Record.key (pre : List Char) (r : Record) : List Char := Names.key pre r.parts

def subComposite (topic name : List Char) : List Char := topic ++ '|' :: name

def splitOnce (c : Char) (text : List Char) : Option (List Char × List Char) :=
  match text.dropWhile (· ≠ c) with
  | [] => none
  | _ :: rest => some (text.takeWhile (· ≠ c), rest)

/-! ## Reading a key back -/

variable {a b x y : List Char}

theorem eq_of_byteLength (h : a ++ x = b ++ y) (hlen : byteLength a = byteLength b) : a = b := by
  have hpos : ∀ c (w : List Char), byteLength (c :: w) ≠ 0 := by
    intro c w
    have := Char.utf8Size_pos c
    simp only [byteLength, map_cons, sum_cons]
    omega
  induction a generalizing b with
  | nil =>
    cases b with
    | nil => rfl
    | cons c b => exact absurd hlen.symm (hpos c b)
  | cons c a ih =>
    cases b with
    | nil => exact absurd hlen (hpos c a)
    | cons =>
      obtain ⟨rfl, hrest⟩ := List.cons.inj h
      simp only [byteLength, map_cons, sum_cons, Nat.add_left_cancel_iff] at hlen
      rw [ih hrest hlen]

theorem namespaceSegment_append {ns ns' : Option (List Char)}
    (h : namespaceSegment ns ++ x = namespaceSegment ns' ++ y) : ns = ns' ∧ x = y := by
  have hdigits : ∀ n : Nat, ':' ∉ decimal n := fun n => not_mem_decimal (by decide) (by decide)
  have hdash : ∀ (n : Nat) (w z : List Char), decimal n ++ w ≠ '-' :: z := by
    intro n w z heq
    cases hd : decimal n with
    | nil => exact decimal_ne_nil _ hd
    | cons =>
      rw [hd] at heq
      obtain ⟨rfl, -⟩ := List.cons.inj heq
      have hdigit := isDigit_of_mem_decimal (Int.natCast_nonneg n) (hd ▸ mem_cons_self)
      exact absurd hdigit (by decide)
  cases ns with
  | none =>
    cases ns' with
    | none => exact ⟨rfl, append_cancel_left h⟩
    | some =>
      rw [namespaceSegment, namespaceSegment, append_assoc] at h
      exact absurd h.symm (hdash _ _ _)
  | some =>
    cases ns' with
    | none =>
      rw [namespaceSegment, namespaceSegment, append_assoc] at h
      exact absurd h (hdash _ _ _)
    | some =>
      simp only [namespaceSegment, append_assoc, cons_append] at h
      obtain ⟨hlen, hrest⟩ := cut h (hdigits _) (hdigits _)
      obtain rfl := eq_of_byteLength hrest (Int.ofNat_inj.mp (decimal_injective hlen))
      exact ⟨rfl, append_cancel_left hrest⟩

/-! ## Records that meet -/

/-- One text from two pairs with `:` between their halves: the same pair, or
some `:` of the text is the separator of one and inside a half of the other. -/
def Shifted (topic name topic' name' : List Char) : Prop :=
  topic = topic' ∧ name = name' ∨
    (∃ u, topic' = topic ++ ':' :: u ∧ name = u ++ ':' :: name') ∨
    ∃ u, topic = topic' ++ ':' :: u ∧ name' = u ++ ':' :: name

/-- The records a topic brings to one key: two subscriptions that differ in
where the topic ends, and a blob whose topic begins with a backlog's word. -/
def Record.Meets : Record → Record → Prop
  | .blob topic name, .blob topic' name' => Shifted topic name topic' name'
  | .backlog kind topic name, .backlog kind' topic' name' =>
    kind = kind' ∧ Shifted topic name topic' name'
  | .deliveries topic name, .deliveries topic' name' => Shifted topic name topic' name'
  | .blob topic name, .backlog kind topic' name' | .backlog kind topic' name', .blob topic name =>
    Shifted topic name kind.kind (topic' ++ ':' :: name')
  | _, _ => False

theorem joined_iff_shifted {topic name topic' name' : List Char} :
    topic ++ ':' :: name = topic' ++ ':' :: name' ↔ Shifted topic name topic' name' := by
  constructor
  · intro h
    rcases append_eq_append_iff.mp h with ⟨u, htopic, hname⟩ | ⟨u, htopic, hname⟩
    · cases u with
      | nil => exact .inl ⟨by simpa using htopic.symm, (List.cons.inj hname).2⟩
      | cons c u =>
        obtain ⟨rfl, hrest⟩ := List.cons.inj hname
        exact .inr (.inl ⟨u, htopic, hrest⟩)
    · cases u with
      | nil => exact .inl ⟨by simpa using htopic, (List.cons.inj hname).2.symm⟩
      | cons c u =>
        obtain ⟨rfl, hrest⟩ := List.cons.inj hname
        exact .inr (.inr ⟨u, htopic, hrest⟩)
  · rintro (⟨rfl, rfl⟩ | ⟨u, rfl, rfl⟩ | ⟨u, rfl, rfl⟩)
    · rfl
    · rw [append_assoc, cons_append]
    · rw [append_assoc, cons_append]

theorem Backlog.kind_plain (kind : Backlog) : ':' ∉ kind.kind := by
  cases kind <;> decide

theorem Backlog.kind_injective {kind kind' : Backlog} (h : kind.kind = kind'.kind) :
    kind = kind' := by
  cases kind <;> cases kind' <;> first | rfl | exact absurd h (by decide)

theorem Keyed.word_plain (index : Keyed) : ':' ∉ index.word ∧ index.word ≠ "by_ns".toList := by
  cases index <;> decide

theorem Keyed.word_injective {index index' : Keyed} (h : index.word = index'.word) :
    index = index' := by
  cases index <;> cases index' <;> first | rfl | exact absurd h (by decide)

theorem Record.meets_of_joined {r r' : Record} (hne : r ≠ r')
    (h : joined r.parts = joined r'.parts) : r.Meets r' := by
  -- The first word tells the kinds apart that do not share it.
  cases r with
  | blob =>
    cases r' with
    | blob => exact joined_iff_shifted.mp (cut h).2
    | backlog => exact joined_iff_shifted.mp (cut h).2
    | _ => exact absurd (cut h).1 (by decide)
  | backlog kind =>
    cases r' with
    | blob => exact joined_iff_shifted.mp (cut h).2.symm
    | backlog kind' =>
      obtain ⟨hkind, hrest⟩ := cut (cut h).2 kind.kind_plain kind'.kind_plain
      exact ⟨Backlog.kind_injective hkind, joined_iff_shifted.mp hrest⟩
    | _ => exact absurd (cut h).1 (by decide)
  | deliveries =>
    cases r' with
    | deliveries => exact joined_iff_shifted.mp (cut h).2
    | _ => exact absurd (cut h).1 (by decide)
  | stream =>
    cases r' with
    | stream => exact absurd (congrArg stream (cut h).2) hne
    | _ => exact absurd (cut h).1 (by decide)
  | keyed index ns =>
    cases r' with
    | keyed index' =>
      obtain ⟨hword, hrest⟩ := cut (cut h).2 index.word_plain.1 index'.word_plain.1
      obtain ⟨rfl, hk⟩ := namespaceSegment_append hrest
      rw [Keyed.word_injective hword] at hne
      exact absurd (congrArg (keyed index' ns) (List.cons.inj hk).2) hne
    | byNamespace =>
      have hword := (cut (cut h).2 index.word_plain.1).1
      exact absurd hword index.word_plain.2
    | _ => exact absurd (cut h).1 (by decide)
  | byNamespace =>
    cases r' with
    | keyed index' =>
      have hword := (cut (cut h).2 (by decide) index'.word_plain.1).1
      exact absurd hword.symm index'.word_plain.2
    | byNamespace =>
      have hrest := (cut (cut h).2).2
      exact absurd (congrArg byNamespace
        (namespaceSegment_append (x := []) (y := []) (congrArg (· ++ []) hrest)).1) hne
    | _ => exact absurd (cut h).1 (by decide)

theorem Record.joined_of_meets {r r' : Record} (h : r.Meets r') :
    joined r.parts = joined r'.parts := by
  have hsub := fun {x y : List Char} (hxy : x = y) => congrArg ("sub".toList ++ ':' :: ·) hxy
  cases r with
  | blob =>
    cases r' with
    | blob | backlog => exact hsub (joined_iff_shifted.mpr h)
    | _ => cases h
  | backlog kind =>
    cases r' with
    | blob => exact hsub (joined_iff_shifted.mpr h).symm
    | backlog =>
      obtain ⟨rfl, hpair⟩ := h
      exact hsub (congrArg (kind.kind ++ ':' :: ·) (joined_iff_shifted.mpr hpair))
    | _ => cases h
  | deliveries =>
    cases r' with
    | deliveries => exact congrArg ("pmdeliv".toList ++ ':' :: ·) (joined_iff_shifted.mpr h)
    | _ => cases h
  | stream | keyed | byNamespace => cases h

theorem splitOnce_append {c : Char} (h : c ∉ a) : splitOnce c (a ++ c :: b) = some (a, b) := by
  have hpos : ∀ z ∈ a, decide (z ≠ c) = true := fun z hz =>
    decide_eq_true fun hzc => h (hzc ▸ hz)
  rw [splitOnce, dropWhile_append_of_pos hpos, takeWhile_append_of_pos hpos,
    dropWhile_cons_of_neg (by simp), takeWhile_cons_of_neg (by simp), append_nil]

theorem notMem_of_splitOnce {c : Char} (h : splitOnce c x = some (a, b)) : c ∉ a := by
  unfold splitOnce at h
  split at h
  · cases h
  · cases h
    intro hmem
    exact absurd (mem_takeWhile_imp hmem) (by simp)

/-- **When keys do not meet**: the keys of two records differ, whatever the
prefix, unless a topic brings them together; and an index member is read back
as the pair it was built from unless the topic holds a `|`. -/
theorem keys_do_not_alias (pre : List Char) {r r' : Record} (hne : r ≠ r')
    (topic name : List Char) :
    (r.key pre ≠ r'.key pre ↔ ¬ r.Meets r') ∧
      (splitOnce '|' (subComposite topic name) = some (topic, name) ↔ '|' ∉ topic) := by
  refine ⟨not_congr ⟨fun h => ?_, fun h => ?_⟩, notMem_of_splitOnce, splitOnce_append⟩
  · exact Record.meets_of_joined hne (List.append_cancel_left h)
  · exact congrArg (pre ++ ·) (Record.joined_of_meets h)

theorem separators_in_names :
    Record.key [] (.blob "a:b".toList "c".toList) ≠
      Record.key [] (.blob "c".toList "b:a|d".toList) ∧
    splitOnce '|' (subComposite "c".toList "b:a|d".toList) =
      some ("c".toList, "b:a|d".toList) := by
  have hne : Record.blob "a:b".toList "c".toList ≠ .blob "c".toList "b:a|d".toList := by decide
  have hboth := keys_do_not_alias [] hne "c".toList "b:a|d".toList
  refine ⟨hboth.1.mpr ?_, hboth.2.mpr (by decide)⟩
  rintro (⟨htopic, -⟩ | ⟨u, htopic, -⟩ | ⟨u, htopic, -⟩)
  · exact absurd htopic (by decide)
  · exact absurd (List.cons.inj htopic).1 (by decide)
  · exact absurd (List.cons.inj htopic).1 (by decide)

/-- A `:` that moves from the topic to the name, a topic that is one of the
backend's words, and a `|` in a topic. -/
theorem topics_alias :
    Record.key [] (.blob "a:b".toList "c".toList) = Record.key [] (.blob "a".toList "b:c".toList) ∧
    Record.key [] (.blob "pending".toList "a:b".toList) =
      Record.key [] (.backlog .pending "a".toList "b".toList) ∧
    splitOnce '|' (subComposite "a|b".toList "c".toList) = some ("a".toList, "b|c".toList) :=
  ⟨rfl, rfl, rfl⟩

end FlexiQ.Redis.Names
