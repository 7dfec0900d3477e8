import Mathlib.Tactic.Common
import Mathlib.Tactic.Linarith
import Mathlib.Algebra.Order.Ring.Nat
import Mathlib.Data.Nat.Bitwise

/-!
# Alignment helpers

The word-level helpers shared by the planner and the suballocator (`memory/mem.h`).  All of them
work on wrapping 64-bit words; the theorems say what they compute on natural numbers, and where the
documented precondition of `pai_mem_align_up` is needed.
-/

namespace Prospero

/-- `pai_mem_is_pow2`. -/
def paiMemIsPow2 (v : UInt64) : Bool := v != 0 && v &&& (v - 1) == 0

/-- `pai_mem_align_up`. -/
def paiMemAlignUp (v align : UInt64) : UInt64 := (v + align - 1) &&& ~~~(align - 1)

/-- The documented precondition of `pai_mem_align_up`: `v <= UINT64_MAX - (align - 1)`. -/
def AlignInRange (v align : UInt64) : Prop :=
  v.toNat + (align.toNat - 1) < 0x10000000000000000

instance (v align : UInt64) : Decidable (AlignInRange v align) :=
  inferInstanceAs (Decidable (_ < _))

/-- The test accepts exactly the powers of two. -/
theorem paiMemIsPow2_iff {v : UInt64} : paiMemIsPow2 v = true ↔ ∃ k < 64, v.toNat = 2 ^ k := by
  have hne : v ≠ 0 ↔ v.toNat ≠ 0 := by
    rw [ne_eq, ← UInt64.toNat_inj]
    rfl
  have hiff : paiMemIsPow2 v = true ↔ v.toNat.isPowerOfTwo := by
    rw [← Nat.ne_zero_and_sub_one_eq_zero_iff_isPowerOfTwo]
    by_cases hv : v = 0
    · subst hv
      decide
    · have hpos : 0 < v.toNat := Nat.pos_of_ne_zero (hne.mp hv)
      have hle : (1 : UInt64) ≤ v := UInt64.le_iff_toNat_le.mpr hpos
      have hsub : (v - 1).toNat = v.toNat - 1 := UInt64.toNat_sub_of_le _ _ hle
      simp only [paiMemIsPow2, Bool.and_eq_true, bne_iff_ne, beq_iff_eq, ← UInt64.toNat_inj,
        UInt64.toNat_and, hsub]
      exact and_congr_left' hne
  rw [hiff, Nat.isPowerOfTwo]
  constructor
  · rintro ⟨k, hk⟩
    refine ⟨k, ?_, hk⟩
    have hlt : 2 ^ k < 2 ^ 64 := hk ▸ v.toNat_lt
    exact (Nat.pow_lt_pow_iff_right (by decide)).mp hlt
  · rintro ⟨k, -, hk⟩
    exact ⟨k, hk⟩

/-- Masking off the `k` low bits of a 64-bit number. -/
theorem and_mask_eq {w k : ℕ} (hw : w < 2 ^ 64) (hk : k < 64) :
    w &&& (2 ^ 64 - 1 - (2 ^ k - 1)) = w / 2 ^ k * 2 ^ k := by
  have hpow : 2 ^ k - 1 < 2 ^ 64 := by
    have : 2 ^ k < 2 ^ 64 := Nat.pow_lt_pow_right (by decide) hk
    omega
  have hmask : 2 ^ 64 - 1 - (2 ^ k - 1) = 2 ^ 64 - ((2 ^ k - 1) + 1) := by omega
  refine Nat.eq_of_testBit_eq fun i => ?_
  rw [Nat.testBit_and, hmask, Nat.testBit_two_pow_sub_succ hpow, Nat.testBit_two_pow_sub_one,
    Nat.testBit_mul_two_pow, Nat.testBit_div_two_pow]
  by_cases hi : i < 64
  · by_cases hki : k ≤ i
    · simp [hi, hki, Nat.sub_add_cancel hki]
    · simp [hki]
      omega
  · have hbit : w.testBit i = false :=
      Nat.testBit_eq_false_of_lt (hw.trans_le (Nat.pow_le_pow_right (by decide) (by omega)))
    by_cases hki : k ≤ i
    · simp [hbit, Nat.sub_add_cancel hki]
    · omega

/-- `pai_mem_align_up` on natural numbers: add with wrap, then round down. -/
theorem toNat_paiMemAlignUp (v : UInt64) {align : UInt64} (hpow : paiMemIsPow2 align = true) :
    (paiMemAlignUp v align).toNat =
      (v.toNat + (align.toNat - 1)) % 2 ^ 64 / align.toNat * align.toNat := by
  obtain ⟨k, hk, halign⟩ := paiMemIsPow2_iff.mp hpow
  have hpos : 0 < align.toNat := halign ▸ Nat.two_pow_pos k
  have hle : (1 : UInt64) ≤ align := UInt64.le_iff_toNat_le.mpr hpos
  have hsub : (align - 1).toNat = align.toNat - 1 := UInt64.toNat_sub_of_le _ _ hle
  have hsum : (v + align - 1).toNat = (v.toNat + (align.toNat - 1)) % 2 ^ 64 := by
    have hassoc : v + align - 1 = v + (align - 1) := by
      rw [UInt64.sub_eq_add_neg, UInt64.sub_eq_add_neg, UInt64.add_assoc]
    rw [hassoc, UInt64.toNat_add, hsub]
  rw [paiMemAlignUp, UInt64.toNat_and, UInt64.toNat_not, hsum, hsub, halign]
  exact and_mask_eq (Nat.mod_lt _ (by decide)) hk

/-- In range, `pai_mem_align_up` gives the next multiple of the alignment. -/
theorem paiMemAlignUp_of_inRange {v align : UInt64} (hpow : paiMemIsPow2 align = true)
    (hrange : AlignInRange v align) :
    align.toNat ∣ (paiMemAlignUp v align).toNat ∧ v.toNat ≤ (paiMemAlignUp v align).toNat ∧
      (paiMemAlignUp v align).toNat < v.toNat + align.toNat := by
  obtain ⟨k, -, halign⟩ := paiMemIsPow2_iff.mp hpow
  have hpos : 0 < align.toNat := halign ▸ Nat.two_pow_pos k
  have hlt : v.toNat + (align.toNat - 1) < 2 ^ 64 := hrange
  rw [toNat_paiMemAlignUp v hpow, Nat.mod_eq_of_lt hlt]
  refine ⟨Dvd.intro_left _ rfl, ?_, ?_⟩
  · have hdiv := Nat.div_add_mod (v.toNat + (align.toNat - 1)) align.toNat
    have hmod := Nat.mod_lt (v.toNat + (align.toNat - 1)) hpos
    rw [Nat.mul_comm]
    omega
  · have hle := Nat.div_mul_le_self (v.toNat + (align.toNat - 1)) align.toNat
    omega

/-- Out of range, `pai_mem_align_up` wraps to zero. -/
theorem paiMemAlignUp_of_not_inRange {v align : UInt64} (hpow : paiMemIsPow2 align = true)
    (hrange : ¬ AlignInRange v align) : paiMemAlignUp v align = 0 := by
  have hv := v.toNat_lt
  have halign := align.toNat_lt
  have hge : 2 ^ 64 ≤ v.toNat + (align.toNat - 1) := not_lt.mp hrange
  have hmod : (v.toNat + (align.toNat - 1)) % 2 ^ 64 = v.toNat + (align.toNat - 1) - 2 ^ 64 := by
    rw [Nat.mod_eq_sub_mod hge, Nat.mod_eq_of_lt (by omega)]
  rw [← UInt64.toNat_inj, toNat_paiMemAlignUp v hpow, hmod, Nat.div_eq_of_lt (by omega), Nat.zero_mul]
  rfl

end Prospero
