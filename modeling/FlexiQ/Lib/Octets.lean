/-
# `Lib.Octets` — the bits of a text of octets

Octets stand for the bits they hold, the most significant first.  A mask of
leading ones keeps the first bits of an octet (`masked_eq_iff`), and a prefix
of octets is as many whole octets (`take_eq_iff`): together they compare the
first bits of two texts.
-/
import Mathlib.Data.List.Basic
import Mathlib.Order.MinMax

namespace FlexiQ.Lib

/-- Bit `i`, the first one being the most significant. -/
def bit (octets : List UInt8) (i : Nat) : Bool :=
  (octets.getD (i / 8) 0).toBitVec.getMsbD (i % 8)

theorem octet_eq_iff {x y : UInt8} :
    x = y ↔ ∀ i < 8, x.toBitVec.getMsbD i = y.toBitVec.getMsbD i :=
  ⟨fun h _ _ => by rw [h], fun h => UInt8.toBitVec_inj.mp (BitVec.eq_of_getMsbD_eq h)⟩

theorem mask_bit : ∀ r < 8, 0 < r → ∀ i < 8,
    ((0xff : UInt8) <<< (8 - r).toUInt8).toBitVec.getMsbD i = decide (i < r) := by
  decide

theorem masked_eq_iff {x y : UInt8} {r : Nat} (hpos : 0 < r) (hr : r < 8) :
    x &&& (0xff : UInt8) <<< (8 - r).toUInt8 = y &&& (0xff : UInt8) <<< (8 - r).toUInt8 ↔
      ∀ i < r, x.toBitVec.getMsbD i = y.toBitVec.getMsbD i := by
  rw [octet_eq_iff]
  constructor
  · intro h i hi
    have hbit := h i (by omega)
    simp only [UInt8.toBitVec_and, BitVec.getMsbD_and, mask_bit r hr hpos i (by omega), hi,
      decide_true, Bool.and_true] at hbit
    exact hbit
  · intro h i hi
    rw [UInt8.toBitVec_and, UInt8.toBitVec_and, BitVec.getMsbD_and, BitVec.getMsbD_and,
      mask_bit r hr hpos i hi]
    by_cases hir : i < r
    · rw [h i hir]
    · simp [hir]

theorem take_eq_iff {a b : List UInt8} (hlen : a.length = b.length) {k : Nat} :
    a.take k = b.take k ↔ ∀ j < k, a.getD j 0 = b.getD j 0 := by
  constructor
  · intro h j hj
    have hget := congrArg (fun l => l[j]?) h
    simp only [List.getElem?_take, hj, if_true] at hget
    simp [List.getD_eq_getElem?_getD, hget]
  · intro h
    refine List.ext_getElem (by simp [hlen]) fun j hj hj' => ?_
    simp only [List.length_take, lt_min_iff] at hj hj'
    simpa [List.getD_eq_getElem?_getD, hj.2, hj'.2] using h j hj.1

end FlexiQ.Lib
