/-
# `Worker.Allowlist` — one rule in either address family

`parse_entry` checks a prefix length against the family the entry is WRITTEN
in; `network_contains` compares after folding an IPv4-mapped base to IPv4,
with the length as it was.  So a CIDR entry in the mapped form is read with a
length over IPv4.  For every other entry the two families agree: a rule
permits exactly the addresses that share its first bits, in whichever form an
address is handed in.
-/
import FlexiQ.Worker.Egress
import Mathlib.Tactic.IntervalCases

namespace FlexiQ.Egress

open FlexiQ.Lib

/-! ## Entries -/

/-- The width of the family an address is written in. -/
def IpAddr.bits : IpAddr → Nat
  | .v4 _ => 32
  | .v6 _ => 128

def validatePrefix (base : IpAddr) (width : Nat) : Except String Unit :=
  if width > base.bits then
    .error ("prefix /" ++ toString width ++ " exceeds /" ++ toString base.bits
      ++ " for this address family")
  else .ok ()

structure Malformed where
  entry : String
  reason : String

section Entry
variable (parse : String → Option IpAddr) (parseU8 : String → Option Nat) (segment : String)

/-- `parse_entry`, over the parsers of `std`. -/
def parseEntry : Except Malformed AllowRule :=
  let malformed (reason : String) : Except Malformed AllowRule := .error ⟨segment, reason⟩
  if '/' ∈ segment.toList then
    let left := String.ofList (segment.toList.takeWhile (· ≠ '/'))
    let right := String.ofList (segment.toList.dropWhile (· ≠ '/')).tail
    if '/' ∈ right.toList then malformed "a CIDR entry takes exactly one '/'"
    else match parse left with
      | none => malformed ("'" ++ left ++ "' is not an IP address")
      | some base => match parseU8 right with
        | none => malformed ("'" ++ right ++ "' is not a valid prefix length")
        | some width => match validatePrefix base width with
          | .error reason => malformed reason
          | .ok () => .ok (.network base width)
  else match parse segment with
    | some address => .ok (.network address address.bits)
    | none => match segment.toList with
      | ['.'] => malformed "a suffix rule needs a name after the leading dot"
      | '.' :: _ => .ok (.suffix segment)
      | _ => .ok (.host segment)

variable {parse parseU8 segment}

theorem parseEntry_network {base : IpAddr} {width : Nat}
    (h : parseEntry parse parseU8 segment = .ok (.network base width)) : width ≤ base.bits := by
  unfold parseEntry at h
  dsimp only at h
  repeat' split at h
  all_goals cases h
  · next hvalid =>
    unfold validatePrefix at hvalid
    split at hvalid
    · cases hvalid
    · next hle => exact not_lt.mp hle
  · exact le_rfl

theorem parseEntry_bare {base : IpAddr} {width : Nat} (hbare : '/' ∉ segment.toList)
    (h : parseEntry parse parseU8 segment = .ok (.network base width)) : width = base.bits := by
  unfold parseEntry at h
  rw [if_neg hbare] at h
  repeat' split at h
  all_goals cases h
  rfl

end Entry

/-! ## One meaning in either family -/

/-- `::ffff:a.b.c.d`. -/
def mapped (v4 : Vector UInt8 4) : Vector UInt8 16 :=
  #v[0, 0, 0, 0, 0, 0, 0, 0, 0, 0, 255, 255, v4.get 0, v4.get 1, v4.get 2, v4.get 3]

theorem foldMapped_mapped (v4 : Vector UInt8 4) : foldMapped (.v6 (mapped v4)) = .v4 v4 := by
  have hfold : toIpv4Mapped (mapped v4) = some v4 := by
    refine (if_pos rfl).trans (congrArg some (Vector.ext fun i hi => ?_))
    interval_cases i <;> rfl
  simp [foldMapped, hfold]

theorem foldMapped_genuine {v6 : Vector UInt8 16} (h : toIpv4Mapped v6 = none) :
    foldMapped (.v6 v6) = .v6 v6 := by
  simp [foldMapped, h]

theorem inNetwork_mapped (base : IpAddr) (width : Nat) (v4 : Vector UInt8 4) :
    InNetwork base width (.v6 (mapped v4)) ↔ InNetwork base width (.v4 v4) := by
  simp only [InNetwork, foldMapped_mapped]
  exact Iff.rfl

theorem inNetwork_self {base : IpAddr} (hplain : ∀ v6, base = .v6 v6 → toIpv4Mapped v6 = none) :
    InNetwork base base.bits base := by
  cases base with
  | v4 b => exact ⟨le_rfl, fun _ _ => rfl⟩
  | v6 b =>
    rw [InNetwork, foldMapped_genuine (hplain b rfl)]
    exact ⟨le_rfl, fun _ _ => rfl⟩

/-- **What an entry permits, in either family.**  A CIDR entry in the mapped
form permits what the same length permits in the plain one: nothing past 32. -/
theorem entry_in_either_family {parse : String → Option IpAddr} {parseU8 : String → Option Nat}
    {segment : String} {base : IpAddr} {width : Nat}
    (hentry : parseEntry parse parseU8 segment = .ok (.network base width)) :
    (∀ v4, networkContains base width (.v6 (mapped v4)) = networkContains base width (.v4 v4)) ∧
    (∀ b a, base = .v4 b → (networkContains base width (.v4 a) = true ↔
      ∀ i < width, bit b.toList i = bit a.toList i)) ∧
    ('/' ∈ segment.toList → ∀ b address, base = .v6 (mapped b) →
      networkContains base width address = networkContains (.v4 b) width address ∧
      (32 < width → networkContains base width address = false)) ∧
    ('/' ∉ segment.toList → (∀ v6, base = .v6 v6 → toIpv4Mapped v6 = none) →
      networkContains base width base = true) ∧
    (∀ b a, base = .v6 b → toIpv4Mapped b = none → toIpv4Mapped a = none →
      (networkContains base width (.v6 a) = true ↔
        ∀ i < width, bit b.toList i = bit a.toList i)) := by
  have hwidth := parseEntry_network hentry
  refine ⟨fun v4 => ?_, ?_, ?_, fun hbare hplain => ?_, ?_⟩
  · rw [Bool.eq_iff_iff, networkContains_iff, networkContains_iff]
    exact inNetwork_mapped base width v4
  · rintro b a rfl
    rw [networkContains_iff]
    exact and_iff_right hwidth
  · rintro - b address rfl
    have hfold : networkContains (.v6 (mapped b)) width address =
        networkContains (.v4 b) width address := by
      unfold networkContains
      rw [foldMapped_mapped]
      rfl
    refine ⟨hfold, fun hlong => Bool.eq_false_iff.mpr fun hin => ?_⟩
    rw [hfold, networkContains_iff] at hin
    unfold InNetwork at hin
    split at hin
    · exact absurd hin.1 (by omega)
    · next heq _ => cases heq
    · exact hin
  · rw [networkContains_iff, parseEntry_bare hbare hentry]
    exact inNetwork_self hplain
  · rintro b a rfl hb ha
    rw [networkContains_iff, InNetwork, foldMapped_genuine hb, foldMapped_genuine ha]
    exact and_iff_right hwidth

/-- The parsers on the texts of one entry. -/
def readAs (text : String) (base : IpAddr) (number : String) (width : Nat) :
    (String → Option IpAddr) × (String → Option Nat) :=
  (fun s => if s = text then some base else none, fun s => if s = number then some width else none)

theorem plain_entry_permits_mapped :
    networkContains (.v4 #v[10, 0, 0, 0]) 8 (.v6 (mapped #v[10, 0, 0, 7])) = true :=
  ((@entry_in_either_family (readAs "10.0.0.0" (.v4 #v[10, 0, 0, 0]) "8" 8).1
    (readAs "10.0.0.0" (.v4 #v[10, 0, 0, 0]) "8" 8).2 "10.0.0.0/8" _ _ rfl).1 _).trans (by decide)

theorem mapped_entry_permits_nothing :
    let (parse, parseU8) := readAs "::ffff:10.0.0.0" (.v6 (mapped #v[10, 0, 0, 0])) "104" 104
    parseEntry parse parseU8 "::ffff:10.0.0.0/104" =
        .ok (.network (.v6 (mapped #v[10, 0, 0, 0])) 104) ∧
      networkContains (.v4 #v[10, 0, 0, 0]) 8 (.v4 #v[10, 0, 0, 7]) = true ∧
      networkContains (.v6 (mapped #v[10, 0, 0, 0])) 104 (.v4 #v[10, 0, 0, 7]) = false :=
  ⟨rfl, by decide, by decide⟩

end FlexiQ.Egress
