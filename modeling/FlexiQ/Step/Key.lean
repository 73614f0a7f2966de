/-
# `Step.Key` — how a step is named

`step/key.rs`: a step is `name#occurrence` when it is numbered and
`name:key` when the caller pinned it to data.  A name may contain neither
separator, and that one restriction is what makes the naming injective: the
FIRST separator of a step key ends the name and says which form it is.
`stepKeyOf_injective` reads name, form and key back.
-/
import FlexiQ.Core.Job
import FlexiQ.Lib.Text

namespace FlexiQ.Step

def maxNameBytes : Nat := 128

def maxKeyBytes : Nat := 256

def occurrenceSeparator : Char := '#'

def keySeparator : Char := ':'

/-- `abbreviate`: at most 48 characters of a quoted value. -/
def abbreviate (value : String) : String :=
  if 48 < value.length then String.ofList (value.toList.take 48) ++ "…" else value

def validateName (name : String) : Result Unit :=
  if name.isEmpty then
    .error (.config "a step name must not be empty")
  else if maxNameBytes < name.utf8ByteSize then
    .error (.config ("step name '" ++ abbreviate name ++ "' is " ++ toString name.utf8ByteSize
      ++ " bytes, over the " ++ toString maxNameBytes ++ " byte limit"))
  else
    match [occurrenceSeparator, keySeparator].find? (fun c => name.toList.contains c) with
    | some separator =>
      .error (.config ("step name '" ++ abbreviate name ++ "' contains '"
        ++ String.singleton separator ++ "', which separates a name from its key"))
    | none => .ok ()

def validateKey (name key : String) : Result Unit :=
  if key.isEmpty then
    .error (.config ("step '" ++ abbreviate name
      ++ "' was given an empty key; omit the key to number it by occurrence"))
  else if maxKeyBytes < key.utf8ByteSize then
    .error (.config ("key '" ++ abbreviate key ++ "' of step '" ++ abbreviate name ++ "' is "
      ++ toString key.utf8ByteSize ++ " bytes, over the " ++ toString maxKeyBytes
      ++ " byte limit"))
  else .ok ()

/-- `StepKey::derive`: `name#occurrence`. -/
def derive (name : String) (occurrence : Nat) : Result String := do
  validateName name
  return name ++ String.singleton occurrenceSeparator ++ toString occurrence

/-- `StepKey::explicit`: `name:key`. -/
def explicit (name key : String) : Result String := do
  validateName name
  validateKey name key
  return name ++ String.singleton keySeparator ++ key

def ValidName (name : String) : Prop :=
  validateName name = .ok ()
  deriving Decidable

def ValidKey (name key : String) : Prop :=
  validateKey name key = .ok ()
  deriving Decidable

/-! ## The two forms never collide -/

/-- The two characters a name is kept free of. -/
def isSeparator (c : Char) : Bool :=
  c == occurrenceSeparator || c == keySeparator

theorem ValidName.no_separator {name : String} (h : ValidName name) :
    ∀ c ∈ name.toList, isSeparator c = false := by
  unfold ValidName validateName at h
  split at h
  · cases h
  split at h
  · cases h
  split at h
  · cases h
  · next hnone =>
    rw [List.find?_eq_none] at hnone
    simp only [List.mem_cons, List.not_mem_nil, or_false, forall_eq_or_imp, forall_eq,
      List.contains_eq_mem, decide_eq_true_eq] at hnone
    intro c hc
    by_contra hsep
    simp only [isSeparator, Bool.not_eq_false, Bool.or_eq_true, beq_iff_eq] at hsep
    rcases hsep with rfl | rfl
    · exact hnone.1 hc
    · exact hnone.2 hc

/-- The key a step of this name is stored under: numbered, or pinned. -/
def stepKeyOf (name : String) : String ⊕ Nat → String
  | .inl key => name ++ String.singleton keySeparator ++ key
  | .inr occurrence => name ++ String.singleton occurrenceSeparator ++ toString occurrence

theorem derive_of_valid {name : String} (h : ValidName name) (n : Nat) :
    derive name n = .ok (stepKeyOf name (.inr n)) := by
  simp only [derive, stepKeyOf, show validateName name = .ok () from h]
  rfl

theorem explicit_of_valid {name key : String} (h : ValidName name) (hk : ValidKey name key) :
    explicit name key = .ok (stepKeyOf name (.inl key)) := by
  simp only [explicit, stepKeyOf, show validateName name = .ok () from h,
    show validateKey name key = .ok () from hk]
  rfl

/-- **Step keys are injective on valid names**: the name, the form and the
key or occurrence can all be read back. -/
theorem stepKeyOf_injective {name name' : String} {tag tag' : String ⊕ Nat}
    (hn : ValidName name) (hn' : ValidName name')
    (h : stepKeyOf name tag = stepKeyOf name' tag') : name = name' ∧ tag = tag' := by
  have hsplit := congrArg String.toList h
  have hne : occurrenceSeparator ≠ keySeparator := by decide
  have split {c d : Char} {x y : List Char} (hc : isSeparator c = true) (hd : isSeparator d = true)
      (e : name.toList ++ c :: x = name'.toList ++ d :: y) :=
    Lib.split_at_first hn.no_separator hn'.no_separator hc hd e
  rcases tag with key | n <;> rcases tag' with key' | m
  all_goals
    simp only [stepKeyOf, String.toList_append, String.toList_singleton,
      List.append_assoc, List.singleton_append] at hsplit
    obtain ⟨h₁, h₂, h₃⟩ := split (by decide) (by decide) hsplit
  · exact ⟨String.toList_injective h₁, by rw [String.toList_injective h₃]⟩
  · exact absurd h₂.symm hne
  · exact absurd h₂ hne
  · have hdigits : Nat.toDigits 10 n = Nat.toDigits 10 m := by simpa [toString, Nat.repr] using h₃
    rw [Lib.toDigits_injective hdigits]
    exact ⟨String.toList_injective h₁, rfl⟩

def stepKey (name : String) : String ⊕ Nat → Result String
  | .inl key => explicit name key
  | .inr occurrence => derive name occurrence

theorem stepKey_ok {name k : String} {tag : String ⊕ Nat} (h : stepKey name tag = .ok k) :
    ValidName name ∧ k = stepKeyOf name tag := by
  cases tag with
  | inl key =>
    obtain ⟨_, hname, h⟩ := bind_eq_ok.mp h
    obtain ⟨_, _, h⟩ := bind_eq_ok.mp h
    exact ⟨hname, (Except.ok.inj h).symm⟩
  | inr occurrence =>
    obtain ⟨_, hname, h⟩ := bind_eq_ok.mp h
    exact ⟨hname, (Except.ok.inj h).symm⟩

end FlexiQ.Step
