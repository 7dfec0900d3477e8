import Mathlib

/-!
# Binary64 arithmetic

Correct rounding to 53 bits with exponents from `-1074` on, as a function on the rationals, and the
numbers of type `Float` against it: sums and products of nonnegative floats are the rounded sums and
products, and comparisons are those of the rationals.  Only nonnegative numbers are treated, and overflow
is left out.

### Outline

* `roundEven` and `rnd`, which are monotone and leave representable numbers alone;
* the shifts of the float model, which carry a round bit and a sticky bit (`At`);
* packing and unpacking;
* `Is x q`: the float `x` is the rational `q`.
-/

namespace Binary64

/-! ## Rounding -/

/-- The nearest integer; in the middle the even one. -/
def roundEven (x : ℚ) : ℤ :=
  if x - ⌊x⌋ < 1 / 2 then ⌊x⌋ else if 1 / 2 < x - ⌊x⌋ then ⌊x⌋ + 1 else ⌊x⌋ + ⌊x⌋ % 2

lemma floor_le_roundEven (x : ℚ) : ⌊x⌋ ≤ roundEven x := by
  unfold roundEven
  split_ifs <;> omega

lemma roundEven_le_floor (x : ℚ) : roundEven x ≤ ⌊x⌋ + 1 := by
  unfold roundEven
  split_ifs <;> omega

lemma roundEven_intCast (n : ℤ) : roundEven n = n := by
  rw [roundEven, Int.floor_intCast, sub_self, if_pos (by norm_num)]

lemma roundEven_mono {x y : ℚ} (h : x ≤ y) : roundEven x ≤ roundEven y := by
  have hfloor := Int.floor_le_floor h
  rcases hfloor.lt_or_eq with hlt | heq
  · exact (roundEven_le_floor x).trans ((Int.add_one_le_iff.mpr hlt).trans (floor_le_roundEven y))
  · rw [roundEven, roundEven, heq]
    split_ifs
    all_goals first
      | omega
      | linarith

/-- The exponent of the last place of the floats around a positive number. -/
def lastPlace (x : ℚ) : ℤ := max (Int.log 2 x - 52) (-1074)

/-- The float nearest to a nonnegative number, in the middle the one with the even mantissa; exponents are
not bounded above. -/
def rnd (x : ℚ) : ℚ := roundEven (x / 2 ^ lastPlace x) * 2 ^ lastPlace x

/-- A mantissa of 53 bits and an exponent that is not too small. -/
def Representable (x : ℚ) : Prop := ∃ (m : ℕ) (e : ℤ), m < 2 ^ 53 ∧ -1074 ≤ e ∧ x = m * 2 ^ e

lemma two_zpow_pos (e : ℤ) : (0 : ℚ) < 2 ^ e := zpow_pos (by norm_num) e

@[simp] lemma rnd_zero : rnd 0 = 0 := by
  have h := roundEven_intCast 0
  rw [Int.cast_zero] at h
  rw [rnd, zero_div, h, Int.cast_zero, zero_mul]

lemma rnd_nonneg {x : ℚ} (h : 0 ≤ x) : 0 ≤ rnd x := by
  have hdiv : (0 : ℚ) ≤ x / 2 ^ lastPlace x := div_nonneg h (two_zpow_pos _).le
  have hround := roundEven_mono hdiv
  rw [show roundEven 0 = 0 from roundEven_intCast 0] at hround
  exact mul_nonneg (by exact_mod_cast hround) (two_zpow_pos _).le

lemma lastPlace_mono {x y : ℚ} (hx : 0 < x) (h : x ≤ y) : lastPlace x ≤ lastPlace y := by
  have hlog := Int.log_mono_right (b := 2) hx h
  rw [lastPlace, lastPlace]
  omega

/-- Rounding is monotone. -/
lemma rnd_mono {x y : ℚ} (hx : 0 ≤ x) (h : x ≤ y) : rnd x ≤ rnd y := by
  rcases hx.eq_or_lt with rfl | hpos
  · rw [rnd_zero]
    exact rnd_nonneg h
  · have hpos' : 0 < y := hpos.trans_le h
    rcases (lastPlace_mono hpos h).eq_or_lt with heq | hlt
    · rw [rnd, rnd, heq]
      have hdiv : x / 2 ^ lastPlace y ≤ y / 2 ^ lastPlace y :=
        div_le_div_of_nonneg_right h (two_zpow_pos _).le
      exact mul_le_mul_of_nonneg_right (by exact_mod_cast roundEven_mono hdiv) (two_zpow_pos _).le
    · -- the mantissa of `y` has 53 bits, so a power of two separates the two results
      have hlog : lastPlace y = Int.log 2 y - 52 := by
        unfold lastPlace at hlt ⊢
        omega
      have hlogx : Int.log 2 x + 1 ≤ lastPlace x + 53 := by
        rw [lastPlace]
        omega
      have hx53 : x / 2 ^ lastPlace x ≤ ((2 ^ 53 : ℤ) : ℚ) := by
        rw [div_le_iff₀ (two_zpow_pos _)]
        have hlt' : x < 2 ^ (Int.log 2 x + 1) := by
          have := Int.lt_zpow_succ_log_self (b := 2) one_lt_two x
          exact_mod_cast this
        refine hlt'.le.trans ((zpow_le_zpow_right₀ one_le_two hlogx).trans_eq ?_)
        rw [zpow_add₀ two_ne_zero, mul_comm]
        norm_num
      have hy52 : ((2 ^ 52 : ℤ) : ℚ) ≤ y / 2 ^ lastPlace y := by
        rw [le_div_iff₀ (two_zpow_pos _), hlog]
        have hle := Int.zpow_log_le_self (b := 2) one_lt_two hpos'
        have hcalc : ((2 ^ 52 : ℤ) : ℚ) * 2 ^ (Int.log 2 y - 52) = 2 ^ Int.log 2 y := by
          rw [zpow_sub₀ two_ne_zero, mul_div_left_comm]
          norm_num
        rw [hcalc]
        exact_mod_cast hle
      have hleft : (roundEven (x / 2 ^ lastPlace x) : ℚ) ≤ 2 ^ 53 := by
        have := roundEven_mono hx53
        rw [roundEven_intCast] at this
        exact_mod_cast this
      have hright : (2 ^ 52 : ℚ) ≤ roundEven (y / 2 ^ lastPlace y) := by
        have := roundEven_mono hy52
        rw [roundEven_intCast] at this
        exact_mod_cast this
      calc rnd x ≤ 2 ^ 53 * 2 ^ lastPlace x := mul_le_mul_of_nonneg_right hleft (two_zpow_pos _).le
        _ = 2 ^ 52 * 2 ^ (lastPlace x + 1) := by
          rw [zpow_add₀ two_ne_zero]
          ring
        _ ≤ 2 ^ 52 * 2 ^ lastPlace y :=
          mul_le_mul_of_nonneg_left (zpow_le_zpow_right₀ one_le_two (by omega)) (by norm_num)
        _ ≤ rnd y := mul_le_mul_of_nonneg_right hright (two_zpow_pos _).le

/-- A mantissa of 53 bits bounds the exponent of the last place. -/
lemma lastPlace_le {m : ℕ} {e : ℤ} (hpos : 0 < m) (hm : m < 2 ^ 53) (he : -1074 ≤ e) :
    lastPlace ((m : ℚ) * 2 ^ e) ≤ e := by
  have hx : (0 : ℚ) < m * 2 ^ e := mul_pos (by exact_mod_cast hpos) (two_zpow_pos e)
  have hlog : Int.log 2 ((m : ℚ) * 2 ^ e) < 53 + e := by
    rw [← Int.lt_zpow_iff_log_lt one_lt_two hx]
    have hm' : (m : ℚ) < 2 ^ 53 := by exact_mod_cast hm
    have hmul := mul_lt_mul_of_pos_right hm' (two_zpow_pos e)
    rw [zpow_add₀ (by norm_num)]
    exact_mod_cast hmul
  rw [lastPlace]
  omega

/-- A representable number is not rounded. -/
lemma rnd_of_representable {x : ℚ} (h : Representable x) : rnd x = x := by
  obtain ⟨m, e, hm, he, rfl⟩ := h
  rcases Nat.eq_zero_or_pos m with rfl | hpos
  · rw [Nat.cast_zero, zero_mul, rnd_zero]
  · have hle := lastPlace_le hpos hm he
    obtain ⟨k, hk⟩ := Int.eq_ofNat_of_zero_le (sub_nonneg.mpr hle)
    have hdiv : (m : ℚ) * 2 ^ e / 2 ^ lastPlace ((m : ℚ) * 2 ^ e) = ((m * 2 ^ k : ℤ) : ℚ) := by
      rw [mul_div_assoc, ← zpow_sub₀ two_ne_zero, hk]
      push_cast
      rfl
    rw [rnd, hdiv, roundEven_intCast, ← hdiv, div_mul_cancel₀ _ (two_zpow_pos _).ne']

/-- Representable numbers bound the rounded number as they bound the number. -/
lemma rnd_le {x y : ℚ} (hx : 0 ≤ x) (h : x ≤ y) (hy : Representable y) : rnd x ≤ y :=
  (rnd_mono hx h).trans_eq (rnd_of_representable hy)

lemma le_rnd {x y : ℚ} (hy : Representable y) (hpos : 0 ≤ y) (h : y ≤ x) : y ≤ rnd x :=
  (rnd_of_representable hy).symm.trans_le (rnd_mono hpos h)

lemma representable_natCast {n : ℕ} (h : n < 2 ^ 53) : Representable n :=
  ⟨n, 0, h, by norm_num, by rw [zpow_zero, mul_one]⟩

/-- The exponent of the last place around a number whose magnitude is known. -/
lemma lastPlace_of_le {x : ℚ} {e : ℤ} (he : -1074 ≤ e) (hlo : 2 ^ (e + 52) ≤ x) (hhi : x < 2 ^ (e + 53)) :
    lastPlace x = e := by
  have hpos : 0 < x := (two_zpow_pos _).trans_le hlo
  have hle : e + 52 ≤ Int.log 2 x := by
    rw [← Int.zpow_le_iff_le_log one_lt_two hpos]
    exact_mod_cast hlo
  have hlt : Int.log 2 x < e + 53 := by
    rw [← Int.lt_zpow_iff_log_lt one_lt_two hpos]
    exact_mod_cast hhi
  rw [lastPlace]
  omega

/-- A rounded number is representable. -/
lemma representable_rnd {x : ℚ} (hx : 0 ≤ x) : Representable (rnd x) := by
  rcases hx.eq_or_lt with rfl | hpos
  · rw [rnd_zero]
    exact ⟨0, 0, by norm_num, by norm_num, by norm_num⟩
  · have hlow : -1074 ≤ lastPlace x := le_max_right _ _
    have hlt : x < 2 ^ (lastPlace x + 53) := by
      have hlog := Int.lt_zpow_succ_log_self (b := 2) one_lt_two x
      refine lt_of_lt_of_le (by exact_mod_cast hlog) (zpow_le_zpow_right₀ one_le_two ?_)
      rw [lastPlace]
      omega
    have hle : x / 2 ^ lastPlace x ≤ ((2 ^ 53 : ℤ) : ℚ) := by
      rw [div_le_iff₀ (two_zpow_pos _)]
      rw [zpow_add₀ two_ne_zero, mul_comm] at hlt
      exact_mod_cast hlt.le
    have hround := roundEven_mono hle
    rw [roundEven_intCast] at hround
    have hnonneg := roundEven_mono (div_nonneg hx (two_zpow_pos (lastPlace x)).le)
    rw [show roundEven 0 = 0 from roundEven_intCast 0] at hnonneg
    obtain ⟨m, hm⟩ := Int.eq_ofNat_of_zero_le hnonneg
    rw [rnd, hm]
    rw [hm] at hround
    have hround' : m ≤ 2 ^ 53 := by exact_mod_cast hround
    rcases hround'.lt_or_eq with hsmall | rfl
    · exact ⟨m, _, hsmall, hlow, rfl⟩
    · refine ⟨2 ^ 52, lastPlace x + 1, by norm_num, by omega, ?_⟩
      rw [zpow_add_one₀ two_ne_zero]
      push_cast
      ring

/-! ## Shifts -/

open Float.Model Float.Model.UnpackedFloat

/-- A mantissa with a round bit and a sticky bit stands for a number. -/
def At : ExtendedMantissa → ℚ → Prop
  | ⟨m, false, false⟩, x => x = m
  | ⟨m, false, true⟩, x => m < x ∧ x < m + 1 / 2
  | ⟨m, true, false⟩, x => x = m + 1 / 2
  | ⟨m, true, true⟩, x => m + 1 / 2 < x ∧ x < m + 1

/-- A shift by one place halves the number. -/
lemma At.shiftRightOne {em : ExtendedMantissa} {x : ℚ} (h : At em x) : At em.shiftRightOne (x / 2) := by
  obtain ⟨m, round, sticky⟩ := em
  have hodd : ∀ k : ℕ, (2 * k + 1) / 2 = k := fun k => by omega
  obtain ⟨k, rfl | rfl⟩ := Nat.even_or_odd' m
  · have hshift : ExtendedMantissa.shiftRightOne ⟨2 * k, round, sticky⟩ =
      ⟨k, false, round || sticky⟩ := by
      simp [ExtendedMantissa.shiftRightOne]
    rw [hshift]
    cases round <;> cases sticky
    all_goals
      simp only [At, Bool.or_false, Bool.or_true, Nat.cast_mul, Nat.cast_ofNat] at h ⊢
      first
        | linarith
        | exact ⟨by linarith, by linarith⟩
  · have hshift : ExtendedMantissa.shiftRightOne ⟨2 * k + 1, round, sticky⟩ =
        ⟨k, true, round || sticky⟩ := by
      simp [ExtendedMantissa.shiftRightOne, hodd]
    rw [hshift]
    cases round <;> cases sticky
    all_goals
      simp only [At, Bool.or_false, Bool.or_true, Nat.cast_add, Nat.cast_mul, Nat.cast_ofNat,
        Nat.cast_one] at h ⊢
      first
        | linarith
        | exact ⟨by linarith, by linarith⟩

/-- A mantissa is shifted by `n` places. -/
lemma at_shiftRight (m n : ℕ) :
    At (ExtendedMantissa.ofMantissaAndAccuracy m .exact >>> n) ((m : ℚ) / 2 ^ n) := by
  change At (Nat.repeat ExtendedMantissa.shiftRightOne n
    (ExtendedMantissa.ofMantissaAndAccuracy m .exact)) _
  induction n with
  | zero => simp [Nat.repeat, ExtendedMantissa.ofMantissaAndAccuracy, At]
  | succ n ih =>
    rw [Nat.repeat, pow_succ, ← div_div]
    exact ih.shiftRightOne

/-- The bits tell how to round. -/
lemma At.roundedMantissa {em : ExtendedMantissa} {x : ℚ} (h : At em x) :
    (em.roundedMantissa : ℤ) = roundEven x := by
  obtain ⟨m, round, sticky⟩ := em
  have hfloor : (m : ℚ) ≤ x → x < m + 1 → ⌊x⌋ = m := fun hle hlt =>
    Int.floor_eq_iff.mpr ⟨by exact_mod_cast hle, by exact_mod_cast hlt⟩
  rw [roundEven]
  cases round <;> cases sticky <;> simp only [At] at h
  · rw [hfloor (by linarith) (by linarith), if_pos (by push_cast; linarith)]
    rfl
  · rw [hfloor (by linarith) (by linarith), if_pos (by push_cast; linarith)]
    rfl
  · rw [hfloor (by linarith) (by linarith), if_neg (by push_cast; linarith),
      if_neg (by push_cast; linarith)]
    rfl
  · rw [hfloor (by linarith) (by linarith), if_neg (by push_cast; linarith),
      if_pos (by push_cast; linarith)]
    rfl

/-! ## Rounding of the model -/

/-- Mantissa and exponent of a positive float. -/
structure Canonical (m : ℕ) (e : ℤ) : Prop where
  /-- The mantissa is positive. -/
  pos : 0 < m
  /-- It has at most 53 bits. -/
  lt : m < 2 ^ 53
  /-- The exponent is not too small. -/
  le : -1074 ≤ e
  /-- It has 53 bits, but for the smallest exponent. -/
  normal : 2 ^ 52 ≤ m ∨ e = -1074

/-- The unpacked float is the nonnegative number `q`, with a positive sign. -/
def UnpackedIs (f : UnpackedFloat) (q : ℚ) : Prop :=
  (f = .zero .positive ∧ q = 0) ∨
    ∃ m e h, f = .finite .positive m e h ∧ Canonical m e ∧ q = m * 2 ^ e

lemma Canonical.representable {m : ℕ} {e : ℤ} (h : Canonical m e) : Representable ((m : ℚ) * 2 ^ e) :=
  ⟨m, e, h.lt, h.le, rfl⟩

lemma UnpackedIs.representable {f : UnpackedFloat} {q : ℚ} (h : UnpackedIs f q) : Representable q := by
  obtain ⟨-, rfl⟩ | ⟨m, e, -, -, hcanon, rfl⟩ := h
  · exact ⟨0, 0, by norm_num, by norm_num, by norm_num⟩
  · exact hcanon.representable

lemma targetExponent_eq (m : ℕ) (e : ℤ) :
    Format.binary64.targetExponent (totalExponent m e) = max ((m.log2 : ℤ) + e - 52) (-1074) := by
  simp only [Format.targetExponent, totalExponent, Format.mantissaBits, Format.minExponent]
  norm_num
  omega

/-- The exponent the model rounds to is that of the last place. -/
lemma lastPlace_eq {m : ℕ} (hm : 0 < m) (e : ℤ) :
    lastPlace ((m : ℚ) * 2 ^ e) = max ((m.log2 : ℤ) + e - 52) (-1074) := by
  have hx : (0 : ℚ) < m * 2 ^ e := mul_pos (by exact_mod_cast hm) (two_zpow_pos e)
  have hlo : (2 : ℚ) ^ m.log2 ≤ m := by exact_mod_cast Nat.log2_self_le hm.ne'
  have hhi : (m : ℚ) < 2 ^ (m.log2 + 1) := by exact_mod_cast Nat.lt_log2_self
  have hle : (m.log2 : ℤ) + e ≤ Int.log 2 ((m : ℚ) * 2 ^ e) := by
    rw [← Int.zpow_le_iff_le_log one_lt_two hx, Nat.cast_ofNat, zpow_add₀ two_ne_zero]
    exact mul_le_mul_of_nonneg_right (by exact_mod_cast hlo) (two_zpow_pos e).le
  have hlt : Int.log 2 ((m : ℚ) * 2 ^ e) < (m.log2 + 1 : ℕ) + e := by
    rw [← Int.lt_zpow_iff_log_lt one_lt_two hx, Nat.cast_ofNat, zpow_add₀ two_ne_zero]
    exact mul_lt_mul_of_pos_right (by exact_mod_cast hhi) (two_zpow_pos e)
  rw [lastPlace]
  push_cast at hlt
  omega

/-- A mantissa that fits is not shifted. -/
lemma shiftToTargetExponent_small {m : ℕ} {e : ℤ} (hm : m < 2 ^ 53) (he : -1074 ≤ e) :
    shiftToTargetExponent Format.binary64 m e .exact = (⟨m, false, false⟩, e) := by
  have hlog : m.log2 ≤ 52 := by
    rcases Nat.eq_zero_or_pos m with rfl | hpos
    · simp
    · exact Nat.le_of_lt_succ ((Nat.log2_lt hpos.ne').mpr hm)
  have hnone : (max ((m.log2 : ℤ) + e - 52) (-1074) - e).toNat = 0 := by omega
  rw [shiftToTargetExponent, targetExponent_eq, shiftToExponent, hnone, Nat.cast_zero, add_zero]
  rfl

/-- A mantissa that overflowed is shifted by one place. -/
lemma shiftToTargetExponent_carry {e : ℤ} (he : -1074 ≤ e) :
    shiftToTargetExponent Format.binary64 (2 ^ 53) e .exact = (⟨2 ^ 52, false, false⟩, e + 1) := by
  have hone : (max (((2 ^ 53 : ℕ).log2 : ℤ) + e - 52) (-1074) - e).toNat = 1 := by
    rw [Nat.log2_two_pow]
    omega
  rw [shiftToTargetExponent, targetExponent_eq, shiftToExponent, hone]
  rfl

/-- The model rounds a mantissa that is not too short correctly. -/
lemma unpackedIs_roundWithAccuracy {m : ℕ} {e : ℤ} (hm : 0 < m)
    (he : e ≤ lastPlace ((m : ℚ) * 2 ^ e)) :
    UnpackedIs (roundWithAccuracy Format.binary64 .positive m e .exact) (rnd (m * 2 ^ e)) := by
  obtain ⟨n, hn⟩ := Int.eq_ofNat_of_zero_le (sub_nonneg.mpr he)
  have hlast := lastPlace_eq hm e
  have htarget : lastPlace ((m : ℚ) * 2 ^ e) = e + n := by omega
  have hshift : shiftToTargetExponent Format.binary64 m e .exact =
      (ExtendedMantissa.ofMantissaAndAccuracy m .exact >>> n, e + n) := by
    rw [shiftToTargetExponent, targetExponent_eq, ← hlast, shiftToExponent, hn]
    rfl
  have hrounded := (at_shiftRight m n).roundedMantissa
  generalize hr : (ExtendedMantissa.ofMantissaAndAccuracy m .exact >>> n).roundedMantissa = r at hrounded
  have hvalue : rnd ((m : ℚ) * 2 ^ e) = r * 2 ^ (e + n) := by
    have hdiv : (m : ℚ) * 2 ^ e / 2 ^ (e + (n : ℤ)) = m / 2 ^ n := by
      rw [zpow_add₀ two_ne_zero, zpow_natCast, mul_comm (m : ℚ), mul_div_mul_left _ _
          (two_zpow_pos e).ne']
    rw [rnd, htarget, hdiv, ← hrounded, Int.cast_natCast]
  have hlow : -1074 ≤ e + (n : ℤ) := by
    rw [← htarget, hlast]
    omega
  -- the rounded mantissa has at most 53 bits, but for the overflow to `2 ^ 53`
  have hle : r ≤ 2 ^ 53 := by
    have hlt : (m : ℚ) / 2 ^ n ≤ ((2 ^ 53 : ℤ) : ℚ) := by
      rw [div_le_iff₀ (by positivity)]
      have hbits : m < 2 ^ (53 + n) :=
        Nat.lt_log2_self.trans_le (Nat.pow_le_pow_right (by norm_num) (by omega))
      have hcast : (m : ℚ) < 2 ^ (53 + n) := by exact_mod_cast hbits
      rw [pow_add] at hcast
      push_cast
      exact hcast.le
    have hround := roundEven_mono hlt
    rw [roundEven_intCast, ← hrounded] at hround
    exact_mod_cast hround
  have hnormal : 2 ^ 52 ≤ r ∨ e + (n : ℤ) = -1074 := by
    by_cases hsmall : e + (n : ℤ) = -1074
    · exact Or.inr hsmall
    · refine Or.inl ?_
      have hlt : ((2 ^ 52 : ℤ) : ℚ) ≤ (m : ℚ) / 2 ^ n := by
        rw [le_div_iff₀ (by positivity)]
        have hbits : 2 ^ (52 + n) ≤ m :=
          (Nat.pow_le_pow_right (by norm_num) (by omega)).trans (Nat.log2_self_le hm.ne')
        have hcast : (2 : ℚ) ^ (52 + n) ≤ m := by exact_mod_cast hbits
        rw [pow_add] at hcast
        push_cast
        exact hcast
      have hround := roundEven_mono hlt
      rw [roundEven_intCast, ← hrounded] at hround
      exact_mod_cast hround
  rw [hvalue, roundWithAccuracy, hshift]
  dsimp only
  rw [hr]
  rcases hle.lt_or_eq with hlt | rfl
  · rw [shiftToTargetExponent_small hlt hlow]
    dsimp only
    by_cases hzero : r = 0
    · rw [dif_pos hzero, hzero, Nat.cast_zero, zero_mul]
      exact Or.inl ⟨rfl, rfl⟩
    · rw [dif_neg hzero]
      exact Or.inr ⟨r, e + n, _, rfl, ⟨Nat.pos_of_ne_zero hzero, hlt, hlow, hnormal⟩, rfl⟩
  · rw [shiftToTargetExponent_carry hlow]
    dsimp only
    rw [dif_neg (by norm_num)]
    refine Or.inr ⟨2 ^ 52, e + n + 1, _, rfl, ⟨by norm_num, by norm_num, by omega, Or.inl le_rfl⟩, ?_⟩
    rw [zpow_add_one₀ two_ne_zero (e + n)]
    push_cast
    ring

/-- The model rounds a positive mantissa correctly. -/
lemma unpackedIs_round {m : ℕ} (hm : 0 < m) (e : ℤ) :
    UnpackedIs (UnpackedFloat.round Format.binary64 .positive m e) (rnd (m * 2 ^ e)) := by
  have hlast := lastPlace_eq hm e
  rw [UnpackedFloat.round, targetExponent_eq, ← hlast, decreaseExponent]
  dsimp only
  generalize hs : (e - lastPlace ((m : ℚ) * 2 ^ e)).toNat = s
  have hvalue : ((m <<< s : ℕ) : ℚ) * 2 ^ (e - (s : ℤ)) = m * 2 ^ e := by
    rw [Nat.shiftLeft_eq, zpow_sub₀ two_ne_zero, zpow_natCast]
    push_cast
    field_simp
  rw [← hvalue]
  refine unpackedIs_roundWithAccuracy (by rw [Nat.shiftLeft_eq]; positivity) ?_
  rw [hvalue]
  omega

/-! ## Arithmetic of the model -/

/-- A positive mantissa with a smaller exponent. -/
lemma decreaseExponent_eq {e e' : ℤ} (m : ℕ) (h : e' ≤ e) :
    ∃ m', decreaseExponent m e e' = (m', e') ∧ (m' : ℚ) * 2 ^ e' = m * 2 ^ e := by
  obtain ⟨n, hn⟩ := Int.eq_ofNat_of_zero_le (sub_nonneg.mpr h)
  refine ⟨m <<< n, ?_, ?_⟩
  · rw [decreaseExponent, hn, Int.toNat_natCast, show e - (n : ℤ) = e' by omega]
  · rw [Nat.shiftLeft_eq, show e = e' + n by omega, zpow_add₀ two_ne_zero, zpow_natCast]
    push_cast
    ring

lemma UnpackedIs.nonneg {f : UnpackedFloat} {p : ℚ} (h : UnpackedIs f p) : 0 ≤ p := by
  obtain ⟨-, rfl⟩ | ⟨m, e, -, -, -, rfl⟩ := h
  · exact le_rfl
  · exact mul_nonneg (Nat.cast_nonneg m) (two_zpow_pos e).le

/-- The model adds correctly. -/
lemma UnpackedIs.add {f g : UnpackedFloat} {p q : ℚ} (hf : UnpackedIs f p) (hg : UnpackedIs g q) :
    UnpackedIs (UnpackedFloat.add Format.binary64 f g) (rnd (p + q)) := by
  have hp := rnd_of_representable hf.representable
  have hq := rnd_of_representable hg.representable
  obtain ⟨rfl, rfl⟩ | ⟨m, e, hm, rfl, hcanon, rfl⟩ := hf
  · rw [zero_add, hq]
    obtain ⟨rfl, rfl⟩ | ⟨m', e', hm', rfl, hcanon', rfl⟩ := hg
    · exact Or.inl ⟨rfl, rfl⟩
    · exact Or.inr ⟨m', e', hm', rfl, hcanon', rfl⟩
  · obtain ⟨rfl, rfl⟩ | ⟨m', e', hm', rfl, hcanon', rfl⟩ := hg
    · rw [add_zero, hp]
      exact Or.inr ⟨m, e, hm, rfl, hcanon, rfl⟩
    · obtain ⟨a, ha, hap⟩ := decreaseExponent_eq m (min_le_left e e')
      obtain ⟨b, hb, hbq⟩ := decreaseExponent_eq m' (min_le_right e e')
      have hpos : 0 < a + b := by
        have hvalue : (0 : ℚ) < a * 2 ^ min e e' := by
          rw [hap]
          exact mul_pos (by exact_mod_cast hm) (two_zpow_pos e)
        have ha0 : (0 : ℚ) < a := (mul_pos_iff_of_pos_right (two_zpow_pos _)).mp hvalue
        have ha0' : 0 < a := by exact_mod_cast ha0
        omega
      have hsum : UnpackedFloat.add Format.binary64 (.finite .positive m e hm)
          (.finite .positive m' e' hm') =
          UnpackedFloat.round Format.binary64 .positive (a + b) (min e e') := by
        rw [UnpackedFloat.add]
        dsimp only
        rw [ha, hb]
        dsimp only
        have hsign : Sign.positive.apply (a : ℤ) + Sign.positive.apply (b : ℤ) = ((a + b : ℕ) : ℤ) := by
          push_cast
          rfl
        rw [hsign, UnpackedFloat.normalize, show compare ((a + b : ℕ) : ℤ) 0 = .gt by
          rw [Int.compare_eq_gt]
          exact_mod_cast hpos, Int.toNat_natCast]
      rw [hsum, ← hap, ← hbq, ← add_mul]
      have hround := unpackedIs_round hpos (min e e')
      push_cast at hround
      exact hround

/-- The model multiplies correctly. -/
lemma UnpackedIs.mul {f g : UnpackedFloat} {p q : ℚ} (hf : UnpackedIs f p) (hg : UnpackedIs g q) :
    UnpackedIs (UnpackedFloat.mul Format.binary64 f g) (rnd (p * q)) := by
  obtain ⟨rfl, rfl⟩ | ⟨m, e, hm, rfl, hcanon, rfl⟩ := hf
  · rw [zero_mul, rnd_zero]
    obtain ⟨rfl, -⟩ | ⟨m', e', hm', rfl, -, -⟩ := hg
    · exact Or.inl ⟨rfl, rfl⟩
    · exact Or.inl ⟨rfl, rfl⟩
  · obtain ⟨rfl, rfl⟩ | ⟨m', e', hm', rfl, hcanon', rfl⟩ := hg
    · rw [mul_zero, rnd_zero]
      exact Or.inl ⟨rfl, rfl⟩
    · have hproduct : (m : ℚ) * 2 ^ e * (m' * 2 ^ e') = ((m * m' : ℕ) : ℚ) * 2 ^ (e + e') := by
        rw [zpow_add₀ two_ne_zero]
        push_cast
        ring
      have hpos : 0 < m * m' := Nat.mul_pos hm hm'
      rw [hproduct]
      refine unpackedIs_roundWithAccuracy hpos ?_
      rw [lastPlace_eq hpos]
      -- a factor with 53 bits makes the product long enough, and without one the exponent is small
      have hlog : 52 ≤ (m * m').log2 ∨ e + e' ≤ -1074 := by
        have hlong : ∀ a b : ℕ, 0 < b → 2 ^ 52 ≤ a → 52 ≤ (a * b).log2 := fun a b hb ha =>
          (Nat.le_log2 (Nat.mul_ne_zero (by omega) hb.ne')).mpr (ha.trans (Nat.le_mul_of_pos_right a hb))
        rcases hcanon.normal with hlarge | hsmall
        · exact Or.inl (hlong m m' hm' hlarge)
        · rcases hcanon'.normal with hlarge' | hsmall'
          · rw [Nat.mul_comm]
            exact Or.inl (hlong m' m hm hlarge')
          · exact Or.inr (by omega)
      omega

/-- The model compares correctly. -/
lemma UnpackedIs.compare {f g : UnpackedFloat} {p q : ℚ} (hf : UnpackedIs f p) (hg : UnpackedIs g q) :
    UnpackedFloat.compare f g = some (Ord.compare p q) := by
  -- a smaller exponent makes a smaller number
  have hexp : ∀ {m m' : ℕ} {e e' : ℤ}, Canonical m e → Canonical m' e' → e < e' →
      (m : ℚ) * 2 ^ e < m' * 2 ^ e' := by
    intro m m' e e' hcanon hcanon' hlt
    have hm : (m : ℚ) < 2 ^ 53 := by exact_mod_cast hcanon.lt
    have hm' : (2 : ℚ) ^ 52 ≤ m' := by
      have hle := hcanon.le
      exact_mod_cast hcanon'.normal.resolve_right (by omega)
    calc (m : ℚ) * 2 ^ e < 2 ^ 53 * 2 ^ e := mul_lt_mul_of_pos_right hm (two_zpow_pos e)
      _ = 2 ^ 52 * 2 ^ (e + 1) := by
        rw [zpow_add_one₀ two_ne_zero]
        ring
      _ ≤ 2 ^ 52 * 2 ^ e' :=
        mul_le_mul_of_nonneg_left (zpow_le_zpow_right₀ one_le_two (by omega)) (by norm_num)
      _ ≤ m' * 2 ^ e' := mul_le_mul_of_nonneg_right hm' (two_zpow_pos e').le
  obtain ⟨rfl, rfl⟩ | ⟨m, e, hm, rfl, hcanon, rfl⟩ := hf
  · obtain ⟨rfl, rfl⟩ | ⟨m', e', hm', rfl, -, rfl⟩ := hg
    · rw [compare_eq_iff_eq.mpr rfl]
      rfl
    · have hpos : (0 : ℚ) < m' * 2 ^ e' := mul_pos (by exact_mod_cast hm') (two_zpow_pos e')
      rw [compare_lt_iff_lt.mpr hpos]
      rfl
  · obtain ⟨rfl, rfl⟩ | ⟨m', e', hm', rfl, hcanon', rfl⟩ := hg
    · have hpos : (0 : ℚ) < m * 2 ^ e := mul_pos (by exact_mod_cast hm) (two_zpow_pos e)
      rw [compare_gt_iff_gt.mpr hpos]
      rfl
    · rw [UnpackedFloat.compare]
      rcases lt_trichotomy e e' with hlt | rfl | hgt
      · rw [compare_lt_iff_lt.mpr hlt, compare_lt_iff_lt.mpr (hexp hcanon hcanon' hlt)]
        rfl
      · rw [compare_eq_iff_eq.mpr rfl, Ordering.eq_then]
        rcases lt_trichotomy m m' with hlt | rfl | hgt
        · rw [compare_lt_iff_lt.mpr hlt, compare_lt_iff_lt.mpr]
          exact mul_lt_mul_of_pos_right (by exact_mod_cast hlt) (two_zpow_pos e)
        · rw [compare_eq_iff_eq.mpr rfl, compare_eq_iff_eq.mpr rfl]
        · rw [compare_gt_iff_gt.mpr hgt, compare_gt_iff_gt.mpr]
          exact mul_lt_mul_of_pos_right (by exact_mod_cast hgt) (two_zpow_pos e)
      · rw [compare_gt_iff_gt.mpr hgt, compare_gt_iff_gt.mpr (hexp hcanon' hcanon hgt)]
        rfl

/-! ## Packing -/

/-- The sign bit of a positive float. -/
lemma signBit_packComponents {spec : Format} (exponent : BitVec spec.exponentBits)
    (mantissa : BitVec spec.mantissaBitsWithoutImplicit) :
    Sign.ofBitVec (unpackSign (packComponents spec .positive exponent mantissa)) = .positive := by
  have hbit : unpackSign (packComponents spec .positive exponent mantissa) = 0#1 := by
    ext i hi
    obtain rfl : i = 0 := by omega
    simp [unpackSign, packComponents, BitVec.getLsbD_append, BitVec.getElem_append, Sign.toBitVec]
  rw [hbit]
  rfl

/-- What the fields of a positive float with 53 bits are unpacked to. -/
lemma unpack_normal {exponent : BitVec 11} {mantissa : BitVec 52} (hmax : exponent ≠ -1#11)
    (hmin : exponent ≠ 0#11) :
    ∃ h, UnpackedFloat.unpack Format.binary64
    (packComponents Format.binary64 .positive exponent mantissa) =
      .finite .positive (2 ^ 52 + mantissa.toNat) ((exponent.toNat : ℤ) - 1075) h := by
  have hmantissa : (1#1 ++ mantissa).toNat = 2 ^ 52 + mantissa.toNat := by
    rw [BitVec.toNat_append, ← Nat.shiftLeft_add_eq_or_of_lt mantissa.isLt, Nat.shiftLeft_eq]
    rfl
  refine ⟨by positivity, ?_⟩
  unfold UnpackedFloat.unpack
  simp only [unpackExponent_packComponents, unpackMantissa_packComponents, signBit_packComponents,
    if_neg hmax, if_neg hmin, hmantissa]
  rfl

/-- What the fields of a positive float with fewer bits are unpacked to. -/
lemma unpack_subnormal {mantissa : BitVec 52} (hne : mantissa ≠ 0#52) :
    ∃ h, UnpackedFloat.unpack Format.binary64 (packComponents Format.binary64 .positive 0#11 mantissa) =
      .finite .positive mantissa.toNat (-1074) h := by
  have hpos : 0 < mantissa.toNat := Nat.pos_of_ne_zero fun h0 => hne (BitVec.eq_of_toNat_eq h0)
  have hzero : (0#11 : BitVec 11) ≠ -1#11 := by decide
  refine ⟨hpos, ?_⟩
  unfold UnpackedFloat.unpack
  simp only [unpackExponent_packComponents, unpackMantissa_packComponents, signBit_packComponents,
    if_neg hzero, dif_neg hne, if_true]
  rfl

/-- A positive float of the format is packed without loss. -/
lemma unpack_pack_finite {m : ℕ} {e : ℤ} (hm : 0 < m) (h : Canonical m e) (he : e ≤ 971) :
    (Float.Model.pack (.finite .positive m e hm)).unpack = .finite .positive m e hm := by
  have hle := h.le
  have hlt := h.lt
  have hbias : (e + Format.binary64.exponentBias + Format.binary64.mantissaBitsWithoutImplicit).toNat =
      (e + 1075).toNat := by
    rw [show (Format.binary64.exponentBias : ℤ) = 1023 from rfl,
      show (Format.binary64.mantissaBitsWithoutImplicit : ℤ) = 52 from rfl, add_assoc]
    rfl
  have hfinite : ¬ 2 ^ Format.binary64.exponentBits ≤ (e + 1075).toNat + 1 := by
    rw [show 2 ^ Format.binary64.exponentBits = 2048 from rfl]
    omega
  have hbits : Format.binary64.mantissaBits = 53 := rfl
  have hpack : Float.Model.pack (.finite .positive m e hm) = ⟨⟨UnpackedFloat.pack Format.binary64
      (.finite .positive m e hm)⟩, by simp⟩ := rfl
  rw [hpack, Float.Model.unpack]
  dsimp only
  rw [UnpackedFloat.pack]
  dsimp only
  rw [hbias, if_neg hfinite, hbits]
  by_cases hlarge : 2 ^ 52 ≤ m
  · have hlog : m.log2 + 1 = 53 := by rw [(Nat.log2_eq_iff hm.ne').mpr ⟨hlarge, hlt⟩]
    have hexp : (BitVec.ofNat 11 (e + 1075).toNat).toNat = (e + 1075).toNat := by
      rw [BitVec.toNat_ofNat]
      exact Nat.mod_eq_of_lt (by omega)
    have hmax : BitVec.ofNat 11 (e + 1075).toNat ≠ -1#11 := by
      intro heq
      have hnat := congrArg BitVec.toNat heq
      rw [hexp, show (-1#11).toNat = 2047 from rfl] at hnat
      omega
    have hmin : BitVec.ofNat 11 (e + 1075).toNat ≠ 0#11 := by
      intro heq
      have hnat := congrArg BitVec.toNat heq
      rw [hexp, show (0#11).toNat = 0 from rfl] at hnat
      omega
    obtain ⟨hpos, hunpack⟩ := @unpack_normal _ (BitVec.ofNat 52 m) hmax hmin
    have hm' : 2 ^ 52 + (BitVec.ofNat 52 m).toNat = m := by
      rw [BitVec.toNat_ofNat]
      omega
    rw [if_pos hlog, hunpack]
    congr 1
    rw [hexp]
    omega
  · have hlog : ¬ m.log2 + 1 = 53 := by
      have := (Nat.log2_lt hm.ne').mpr (not_le.mp hlarge)
      omega
    obtain rfl := h.normal.resolve_left hlarge
    have hm' : (BitVec.ofNat 52 m).toNat = m := by
      rw [BitVec.toNat_ofNat]
      exact Nat.mod_eq_of_lt (not_le.mp hlarge)
    have hne : BitVec.ofNat 52 m ≠ 0#52 := by
      intro heq
      have hnat := congrArg BitVec.toNat heq
      rw [hm', show (0#52).toNat = 0 from rfl] at hnat
      omega
    obtain ⟨hpos, hunpack⟩ := unpack_subnormal hne
    rw [if_neg hlog, hunpack]
    congr 1

/-- A number below the largest float is packed without loss. -/
lemma UnpackedIs.unpack_pack {f : UnpackedFloat} {q : ℚ} (h : UnpackedIs f q) (hq : q < 2 ^ 1024) :
    (Float.Model.pack f).unpack = f := by
  obtain ⟨rfl, -⟩ | ⟨m, e, hm, rfl, hcanon, rfl⟩ := h
  · rfl
  · refine unpack_pack_finite hm hcanon ?_
    by_contra hlarge
    have hm' : (2 : ℚ) ^ 52 ≤ m := by exact_mod_cast hcanon.normal.resolve_right (by omega)
    have hle : (2 : ℚ) ^ (972 : ℤ) ≤ 2 ^ e := zpow_le_zpow_right₀ one_le_two (by omega)
    refine absurd hq (not_lt.mpr ?_)
    calc (2 : ℚ) ^ 1024 = 2 ^ 52 * 2 ^ (972 : ℤ) := by
          rw [show (972 : ℤ) = (972 : ℕ) from rfl, zpow_natCast, ← pow_add]
      _ ≤ (m : ℚ) * 2 ^ e := mul_le_mul hm' hle (two_zpow_pos _).le (Nat.cast_nonneg m)

/-- The positive floats are unpacked to a mantissa and an exponent of the format. -/
lemma canonical_of_unpack {x : Float.Model} {m : ℕ} {e : ℤ} {hm : 0 < m}
    (h : x.unpack = .finite .positive m e hm) : Canonical m e := by
  rw [Float.Model.unpack, UnpackedFloat.unpack] at h
  dsimp only at h
  have hbias : ((Format.binary64.exponentBias : ℤ) + (52 : ℕ)) = 1075 := rfl
  split_ifs at h with hmax hinf hmin hzero
  · obtain ⟨-, rfl, rfl⟩ := UnpackedFloat.finite.inj h
    have hlt := (@unpackMantissa Format.binary64 x.toBits.toBitVec).isLt
    refine ⟨hm, by omega, ?_, Or.inr ?_⟩
    all_goals
      rw [hmin]
      rfl
  · obtain ⟨-, rfl, rfl⟩ := UnpackedFloat.finite.inj h
    have hpos : (@unpackExponent Format.binary64 x.toBits.toBitVec).toNat ≠ 0 :=
      fun h0 => hmin (BitVec.eq_of_toNat_eq h0)
    have hlt := (@unpackMantissa Format.binary64 x.toBits.toBitVec).isLt
    have hmantissa : (1#1 ++ @unpackMantissa Format.binary64 x.toBits.toBitVec).toNat =
        2 ^ 52 + (@unpackMantissa Format.binary64 x.toBits.toBitVec).toNat := by
      rw [BitVec.toNat_append, ← Nat.shiftLeft_add_eq_or_of_lt (BitVec.isLt _), Nat.shiftLeft_eq]
      rfl
    rw [hmantissa]
    rw [show 2 ^ Format.binary64.mantissaBitsWithoutImplicit = 2 ^ 52 from rfl] at hlt
    exact ⟨by positivity, by omega, by omega, Or.inl (by omega)⟩

/-! ## Floats -/

/-- The float is the nonnegative number `q`, with a positive sign. -/
def Is (x : Float) (q : ℚ) : Prop := UnpackedIs x.toModel.unpack q

/-- The float is a nonnegative number, with a positive sign. -/
def isNumber (x : Float) : Bool :=
  match x.toModel.unpack with
  | .zero .positive => true
  | .finite .positive _ _ _ => true
  | _ => false

lemma exists_is {x : Float} (h : isNumber x = true) : ∃ q, Is x q := by
  unfold isNumber at h
  split at h
  · next hx => exact ⟨0, Or.inl ⟨hx, rfl⟩⟩
  · next m e hm hx => exact ⟨m * 2 ^ e, Or.inr ⟨m, e, hm, hx, canonical_of_unpack hx, rfl⟩⟩
  · cases h

/-- A float that is unpacked to a mantissa and an exponent. -/
lemma is_of_unpack {x : Float} {m : ℕ} {e : ℤ} {hm : 0 < m} {q : ℚ}
    (h : x.toModel.unpack = .finite .positive m e hm) (hq : q = m * 2 ^ e) : Is x q :=
  Or.inr ⟨m, e, hm, h, canonical_of_unpack h, hq⟩

/-- Integers below `2 ^ 53` are converted exactly. -/
lemma is_toFloat {n : UInt64} (h : n.toNat < 2 ^ 53) : Is n.toFloat n.toNat := by
  have hunpacked : UnpackedIs (UnpackedFloat.ofUInt64 Format.binary64 n) n.toNat := by
    rw [UnpackedFloat.ofUInt64, UnpackedFloat.ofNat, UnpackedFloat.ofInt, UnpackedFloat.normalize]
    rcases Nat.eq_zero_or_pos n.toNat with hzero | hpos
    · rw [hzero]
      exact Or.inl ⟨rfl, by norm_num⟩
    · have hround := unpackedIs_round hpos 0
      rw [zpow_zero, mul_one, rnd_of_representable (representable_natCast h)] at hround
      rw [show compare (n.toNat : ℤ) 0 = .gt by
        rw [Int.compare_eq_gt]
        exact_mod_cast hpos]
      exact hround
  have hlt : (n.toNat : ℚ) < 2 ^ 1024 := by
    have hn : (n.toNat : ℚ) < 2 ^ 53 := by exact_mod_cast h
    exact hn.trans (pow_lt_pow_right₀ one_lt_two (by norm_num))
  rw [Is]
  exact (hunpacked.unpack_pack hlt).symm ▸ hunpacked

section Floats

variable {x y x' y' : Float} {p q p' q' : ℚ}

lemma Is.nonneg (h : Is x p) : 0 ≤ p := UnpackedIs.nonneg h

lemma Is.representable (h : Is x p) : Representable p := UnpackedIs.representable h

/-- Sums are rounded correctly. -/
lemma Is.add (hx : Is x p) (hy : Is y q) (hfinite : rnd (p + q) < 2 ^ 1024) :
    Is (x + y) (rnd (p + q)) := by
  have hadd := UnpackedIs.add hx hy
  have hrun : (x + y).toModel.unpack =
      UnpackedFloat.add Format.binary64 x.toModel.unpack y.toModel.unpack :=
    hadd.unpack_pack hfinite
  rw [Is, hrun]
  exact hadd

/-- Products are rounded correctly. -/
lemma Is.mul (hx : Is x p) (hy : Is y q) (hfinite : rnd (p * q) < 2 ^ 1024) :
    Is (x * y) (rnd (p * q)) := by
  have hmul := UnpackedIs.mul hx hy
  have hrun : (x * y).toModel.unpack =
      UnpackedFloat.mul Format.binary64 x.toModel.unpack y.toModel.unpack :=
    hmul.unpack_pack hfinite
  rw [Is, hrun]
  exact hmul

lemma Is.lt_iff (hx : Is x p) (hy : Is y q) : x < y ↔ p < q := by
  have hcompare := UnpackedIs.compare hx hy
  have hrun : x < y ↔ (UnpackedFloat.compare x.toModel.unpack y.toModel.unpack == some .lt) = true := by
    change (decide (x.toModel < y.toModel)) = true ↔ _
    rw [decide_eq_true_eq]
    rfl
  rw [hrun, hcompare, beq_iff_eq, Option.some_inj, compare_lt_iff_lt]

lemma Is.le_iff (hx : Is x p) (hy : Is y q) : x ≤ y ↔ p ≤ q := by
  have hcompare := UnpackedIs.compare hx hy
  have hrun : x ≤ y ↔
      ((UnpackedFloat.compare x.toModel.unpack y.toModel.unpack).any Ordering.isLE) = true := by
    change (decide (x.toModel ≤ y.toModel)) = true ↔ _
    rw [decide_eq_true_eq]
    rfl
  rw [hrun, hcompare, Option.any_some, Ordering.isLE_iff_ne_gt, compare_gt_iff_gt, not_lt]

/-- A float is one number. -/
lemma Is.unique (hp : Is x p) (hq : Is x q) : p = q := by
  have hpq := UnpackedIs.compare hp hq
  have hpp := UnpackedIs.compare hp hp
  rw [hpp, Option.some_inj, compare_eq_iff_eq.mpr rfl] at hpq
  exact compare_eq_iff_eq.mp hpq.symm

end Floats

end Binary64
