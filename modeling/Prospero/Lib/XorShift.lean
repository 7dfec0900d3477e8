import Mathlib.Data.Fintype.EquivFin
import Mathlib.Data.BitVec

/-!
# Xor-shifts

A xor-shift combines a word with a shifted copy of itself.  It is linear over exclusive or, and
a word that a nonzero shift leaves unchanged is zero: bit by bit, each bit equals one further
along, and past the end of the word there are only zeros.  So every xor-shift of a word of any
width is injective.

## Outline

1. Words fixed by a shift.
2. Xor-shifts: linearity and injectivity.
-/

namespace XorShift

variable {w k : ℕ}

/-! ## Words fixed by a shift -/

/-- Only the zero word is its own shift to the right: a bit equals those `k`, `2 * k`, … places
above it. -/
lemma eq_zero_of_ushiftRight_eq (hk : 0 < k) {z : BitVec w} (h : z >>> k = z) : z = 0 := by
  have hbit : ∀ d i, w ≤ i + d → z.getLsbD i = false := by
    intro d
    induction d with
    | zero => exact fun i hi => BitVec.getLsbD_of_ge z i hi
    | succ d ih =>
      intro i hi
      rw [← h, BitVec.getLsbD_ushiftRight]
      exact ih (k + i) (by omega)
  refine BitVec.eq_of_getLsbD_eq fun i _ => ?_
  rw [hbit w i (Nat.le_add_left w i)]
  exact (BitVec.getLsbD_zero).symm

/-- Only the zero word is its own shift to the left. -/
lemma eq_zero_of_shiftLeft_eq (hk : 0 < k) {z : BitVec w} (h : z <<< k = z) : z = 0 := by
  have hbit : ∀ d i, i < d → z.getLsbD i = false := by
    intro d
    induction d with
    | zero => exact fun i hi => absurd hi (Nat.not_lt_zero i)
    | succ d ih =>
      intro i hi
      rw [← h, BitVec.getLsbD_shiftLeft]
      by_cases hlow : i < k
      · simp [hlow]
      · rw [ih (i - k) (by omega), Bool.and_false]
  refine BitVec.eq_of_getLsbD_eq fun i _ => ?_
  rw [hbit (i + 1) i (Nat.lt_succ_self i)]
  exact (BitVec.getLsbD_zero).symm

/-! ## Xor-shifts -/

/-- The word combined with its shift to the right by `k` places. -/
def right (k : ℕ) (x : BitVec w) : BitVec w := x ^^^ x >>> k

/-- The word combined with its shift to the left by `k` places. -/
def left (k : ℕ) (x : BitVec w) : BitVec w := x ^^^ x <<< k

@[simp] lemma right_zero : right k (0 : BitVec w) = 0 := by simp [right]

@[simp] lemma left_zero : left k (0 : BitVec w) = 0 := by simp [left]

/-- The shift to the right keeps exclusive or. -/
lemma right_xor (x y : BitVec w) : right k (x ^^^ y) = right k x ^^^ right k y := by
  rw [right, right, right, BitVec.ushiftRight_xor_distrib]
  ac_rfl

/-- The shift to the left keeps exclusive or. -/
lemma left_xor (x y : BitVec w) : left k (x ^^^ y) = left k x ^^^ left k y := by
  rw [left, left, left, BitVec.shiftLeft_xor_distrib]
  ac_rfl

/-- A map that keeps exclusive or, and sends only zero to zero, is injective. -/
lemma injective_of_linear {f : BitVec w → BitVec w} (hlinear : ∀ x y, f (x ^^^ y) = f x ^^^ f y)
    (hzero : ∀ z, f z = 0 → z = 0) : Function.Injective f := by
  intro x y h
  have hdiff : f (x ^^^ y) = 0 := by
    rw [hlinear, h]
    exact BitVec.xor_self
  exact BitVec.xor_eq_zero_iff.mp (hzero _ hdiff)

lemma right_injective (hk : 0 < k) : Function.Injective (right k : BitVec w → BitVec w) :=
  injective_of_linear right_xor fun _ h =>
    eq_zero_of_ushiftRight_eq hk (BitVec.xor_eq_zero_iff.mp h).symm

lemma left_injective (hk : 0 < k) : Function.Injective (left k : BitVec w → BitVec w) :=
  injective_of_linear left_xor fun _ h =>
    eq_zero_of_shiftLeft_eq hk (BitVec.xor_eq_zero_iff.mp h).symm

end XorShift
