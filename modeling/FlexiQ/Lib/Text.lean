/-
# `Lib.Text` — decimal numbers and separators in a text

A record written into one text, field after field, and read back by its
separators: numbers are written in decimal, a prefix of any shape is
recovered as whatever stands before the LAST separator, and two numbers at
the end of a text as its trailing runs of digits.
-/
import Mathlib.Data.List.TakeWhile
import Mathlib.Data.Int.Basic

namespace FlexiQ.Lib

open List

/-! ## Decimal numbers -/

def decimal (n : Int) : List Char :=
  if n < 0 then '-' :: Nat.toDigits 10 n.natAbs else Nat.toDigits 10 n.natAbs

theorem isDigit_of_mem_decimal {n : Int} (hn : 0 ≤ n) {c : Char} (hc : c ∈ decimal n) :
    c.isDigit = true := by
  rw [decimal, if_neg (by omega)] at hc
  exact Nat.isDigit_of_mem_toDigits (by decide) (by decide) hc

theorem decimal_ne_nil (n : Int) : decimal n ≠ [] := by
  unfold decimal
  split
  · exact cons_ne_nil _ _
  · exact ne_nil_of_length_pos Nat.length_toDigits_pos

theorem not_mem_toDigits {c : Char} (hdigit : c.isDigit = false) (m : Nat) :
    c ∉ Nat.toDigits 10 m := by
  intro hc
  rw [Nat.isDigit_of_mem_toDigits (by decide) (by decide) hc] at hdigit
  cases hdigit

theorem not_mem_decimal {n : Int} {c : Char} (hdigit : c.isDigit = false) (hminus : c ≠ '-') :
    c ∉ decimal n := by
  unfold decimal
  split
  · intro hc
    rcases mem_cons.mp hc with h | h
    · exact hminus h
    · exact not_mem_toDigits hdigit _ h
  · exact not_mem_toDigits hdigit _

theorem toDigits_injective {a b : Nat} (h : Nat.toDigits 10 a = Nat.toDigits 10 b) : a = b := by
  have hof := congrArg (fun ds => Nat.ofDigitChars 10 ds 0) h
  simpa [Nat.ofDigitChars_toDigits] using hof

theorem decimal_injective {n m : Int} (h : decimal n = decimal m) : n = m := by
  have hminus : ∀ a : Nat, '-' ∉ Nat.toDigits 10 a := not_mem_toDigits (by decide)
  unfold decimal at h
  split at h <;> split at h
  · have := toDigits_injective (List.cons.inj h).2
    omega
  · exact absurd (h ▸ mem_cons_self) (hminus m.natAbs)
  · exact absurd (h.symm ▸ mem_cons_self) (hminus n.natAbs)
  · have := toDigits_injective h
    omega

def ofDecimal (text : List Char) : Int := Nat.ofDigitChars 10 text 0

theorem ofDecimal_decimal {n : Int} (hn : 0 ≤ n) : ofDecimal (decimal n) = n := by
  rw [ofDecimal, decimal, if_neg (by omega), Nat.ofDigitChars_toDigits (by decide) (by decide)]
  omega

/-! ## What stands before the first separator -/

theorem split_at_first {p : Char → Bool} {a b x y : List Char} {c d : Char}
    (ha : ∀ z ∈ a, p z = false) (hb : ∀ z ∈ b, p z = false) (hc : p c = true)
    (hd : p d = true) (h : a ++ c :: x = b ++ d :: y) : a = b ∧ c = d ∧ x = y := by
  have take : ∀ {l r : List Char} {e : Char}, (∀ z ∈ l, p z = false) → p e = true →
      (l ++ e :: r).takeWhile (fun z => !p z) = l := by
    intro l r e hl he
    rw [takeWhile_append_of_pos (by simpa using hl)]
    simp [he]
  have hab : a = b := by
    rw [← take ha hc (r := x), h, take hb hd]
  subst hab
  have htail := append_cancel_left h
  exact ⟨rfl, by simpa using htail⟩

theorem cut {a b x y : List Char} (h : a ++ ':' :: x = b ++ ':' :: y)
    (ha : ':' ∉ a := by decide) (hb : ':' ∉ b := by decide) : a = b ∧ x = y := by
  have hcolon : ∀ {w : List Char}, ':' ∉ w → ∀ z ∈ w, (z == ':') = false := by
    intro w hw z hz
    exact beq_eq_false_iff_ne.mpr fun hzc => hw (hzc ▸ hz)
  obtain ⟨hab, -, hxy⟩ := split_at_first (hcolon ha) (hcolon hb) (beq_self_eq_true _)
    (beq_self_eq_true _) h
  exact ⟨hab, hxy⟩

/-- A text that begins with a field free of `c`, cut before some `c`: the field
is in the first part. -/
theorem field_first {c : Char} {a x w y : List Char} (ha : c ∉ a) (h : a ++ x = w ++ c :: y) :
    ∃ u, w = a ++ u ∧ x = u ++ c :: y := by
  rcases append_eq_append_iff.mp h with ⟨u, hw, hx⟩ | ⟨u, haw, hy⟩
  · exact ⟨u, hw, hx⟩
  · cases u with
    | nil => exact ⟨[], by simpa using haw.symm, by simpa using hy.symm⟩
    | cons d u =>
      obtain ⟨rfl, -⟩ := cons.inj hy
      exact absurd (haw ▸ mem_append_right w mem_cons_self) ha

/-! ## What stands before the last separator -/

/-- What stands before the last `c`; the whole text if there is none. -/
def beforeLast (c : Char) (text : List Char) : List Char :=
  match text.reverse.dropWhile (· ≠ c) with
  | [] => text
  | _ :: rest => rest.reverse

theorem beforeLast_append {c : Char} {a b : List Char} (h : c ∉ b) :
    beforeLast c (a ++ c :: b) = a := by
  have hrev : (a ++ c :: b).reverse = b.reverse ++ c :: a.reverse := by simp
  have hskip : (b.reverse ++ c :: a.reverse).dropWhile (· ≠ c) = c :: a.reverse := by
    rw [dropWhile_append_of_pos]
    · rw [dropWhile_cons_of_neg (by simp)]
    · intro x hx
      have hne : x ≠ c := by
        rintro rfl
        exact h (mem_reverse.mp hx)
      simpa using hne
  rw [beforeLast, hrev, hskip]
  simp

/-! ## Trailing runs of digits -/

def trailingRun (a b : Char) (text : List Char) : Option (List Char) :=
  let last := text.reverse.takeWhile Char.isDigit
  match text.reverse.dropWhile Char.isDigit with
  | [] => none
  | sep :: rest =>
    let first := rest.takeWhile Char.isDigit
    match rest.dropWhile Char.isDigit with
    | [] => none
    | start :: _ =>
      if sep = b ∧ start = a ∧ last ≠ [] ∧ first ≠ [] then some last.reverse else none

section Runs

variable {a b : Char} {front run : List Char}

theorem takeWhile_run (front : List Char) {x : Char} (hx : x.isDigit = false)
    (hrun : ∀ c ∈ run, c.isDigit = true) :
    ((front ++ x :: run).reverse.takeWhile Char.isDigit = run.reverse) ∧
      (front ++ x :: run).reverse.dropWhile Char.isDigit = x :: front.reverse := by
  have hrev : (front ++ x :: run).reverse = run.reverse ++ x :: front.reverse := by simp
  have hpos : ∀ c ∈ run.reverse, c.isDigit = true := fun c hc => hrun c (mem_reverse.mp hc)
  rw [hrev, takeWhile_append_of_pos hpos, dropWhile_append_of_pos hpos,
    takeWhile_cons_of_neg (by simp [hx]), dropWhile_cons_of_neg (by simp [hx])]
  simp

theorem trailingRun_append {first : List Char} (ha : a.isDigit = false) (hb : b.isDigit = false)
    (hfirst : ∀ c ∈ first, c.isDigit = true) (hne : first ≠ [])
    (hrun : ∀ c ∈ run, c.isDigit = true) (hne' : run ≠ []) :
    trailingRun a b (front ++ a :: first ++ b :: run) = some run := by
  obtain ⟨htake, hdrop⟩ := takeWhile_run (front ++ a :: first) hb hrun
  obtain ⟨htake', hdrop'⟩ := takeWhile_run front ha hfirst
  unfold trailingRun
  simp only [htake, hdrop, htake', hdrop', ne_eq, reverse_eq_nil_iff, hne, hne',
    not_false_eq_true, and_self, if_true, reverse_reverse]

theorem isDigit_of_trailingRun {text run : List Char} (h : trailingRun a b text = some run) :
    ∀ c ∈ run, c.isDigit = true := by
  unfold trailingRun at h
  dsimp only at h
  repeat' split at h
  all_goals try cases h
  intro c hc
  exact mem_takeWhile_imp (mem_reverse.mp hc)

theorem trailingRun_single {x : Char} (hx : x.isDigit = false) (hne : x ≠ b)
    (hrun : ∀ c ∈ run, c.isDigit = true) : trailingRun a b (front ++ x :: run) = none := by
  obtain ⟨htake, hdrop⟩ := takeWhile_run front hx hrun
  unfold trailingRun
  simp only [hdrop, hne, false_and, if_false]
  split <;> rfl

end Runs

end FlexiQ.Lib
