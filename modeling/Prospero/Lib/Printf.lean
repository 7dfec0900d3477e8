import Mathlib.Data.Nat.Digits.Lemmas
import Mathlib.Data.Nat.Log
import Mathlib.Tactic.IntervalCases
import Prospero.Lib.Rfc8259

/-!
# Printed numbers

The texts of the C conversions `%u`, `%x`, `%08x` and of `%.7g` for a value of IEEE single precision,
which is given by its bits.  `%.7g` rounds the exact value to seven decimal digits, halves to even.

Decimal numbers are numbers of the JSON grammar (`number_decimal`), and so is the text of `%.7g` exactly
for the finite values (`number_general7`, `not_number_general7`).
-/

namespace Printf

open Rfc8259

/-! ## Integers -/

/-- A decimal digit. -/
def digit (d : ℕ) : UInt8 := UInt8.ofNat (48 + d)

/-- A digit of `%x`. -/
def hexDigit (d : ℕ) : UInt8 := if d < 10 then digit d else UInt8.ofNat (87 + d)

/-- `%u`. -/
def decimal (n : ℕ) : List UInt8 := if n = 0 then [48] else ((Nat.digits 10 n).map digit).reverse

/-- `%x`. -/
def hex (n : ℕ) : List UInt8 := if n = 0 then [48] else ((Nat.digits 16 n).map hexDigit).reverse

/-- The text, with zeros in front of it up to a width. -/
def zeroPadded (width : ℕ) (text : List UInt8) : List UInt8 :=
  List.replicate (width - text.length) 48 ++ text

/-! ## `%.7g` -/

/-- The value is neither infinite nor a NaN. -/
def IsFinite (bits : UInt32) : Prop := bits.toNat / 0x800000 % 0x100 ≠ 0xFF

instance (bits : UInt32) : Decidable (IsFinite bits) := inferInstanceAs (Decidable (_ ≠ _))

/-- The quotient, rounded to the nearest integer, halves to even. -/
def roundHalfEven (num den : ℕ) : ℕ :=
  let q := num / den
  if 2 * (num % den) < den then q
  else if den < 2 * (num % den) then q + 1
  else if q % 2 = 0 then q
  else q + 1

/-- A decimal fraction with `width` digits, without its trailing zeros. -/
def fraction (width f : ℕ) : List UInt8 :=
  let digits := (((Nat.digits 10 f).map digit ++ List.replicate width 48).take width).dropWhile (· = 48)
  if digits = [] then [] else 46 :: digits.reverse

/-- The decimal number `q / 10 ^ width`. -/
def fixed (width q : ℕ) : List UInt8 := decimal (q / 10 ^ width) ++ fraction width (q % 10 ^ width)

/-- The integer with seven digits and the exponent of a positive quotient. -/
def sevenDigits (num den : ℕ) : ℕ × ℤ :=
  let exp : ℤ := if den ≤ num then Nat.log 10 (num / den) else -Nat.clog 10 ((num + den - 1) / num)
  let q := if exp ≤ 6 then roundHalfEven (num * 10 ^ (6 - exp).toNat) den
    else roundHalfEven num (den * 10 ^ (exp - 6).toNat)
  if q = 10000000 then (1000000, exp + 1) else (q, exp)

/-- `%.7g` of a positive quotient. -/
def general (num den : ℕ) : List UInt8 :=
  let (q, exp) := sevenDigits num den
  if exp < -4 ∨ 7 ≤ exp then
    fixed 6 q ++ 101 :: (if exp < 0 then 45 else 43) :: zeroPadded 2 (decimal exp.natAbs)
  else fixed (6 - exp).toNat q

/-- `%.7g` of the absolute value. -/
def general7Abs (bits : UInt32) : List UInt8 :=
  let exp := bits.toNat / 0x800000 % 0x100
  let frac := bits.toNat % 0x800000
  if exp = 0xFF then if frac = 0 then [105, 110, 102] else [110, 97, 110]
  else if exp = 0 ∧ frac = 0 then [48]
  else if exp = 0 then general frac (2 ^ 149)
  else if 150 ≤ exp then general ((0x800000 + frac) * 2 ^ (exp - 150)) 1
  else general (0x800000 + frac) (2 ^ (150 - exp))

/-- `%.7g`. -/
def general7 (bits : UInt32) : List UInt8 :=
  if bits.toNat / 0x80000000 = 1 then 45 :: general7Abs bits else general7Abs bits

/-! ## Digits -/

/-- A decimal digit is one. -/
lemma isDigit_digit {d : ℕ} (h : d < 10) : isDigit (digit d) := by
  unfold digit
  interval_cases d <;> decide

/-- The value of a decimal digit. -/
lemma toNat_digit {d : ℕ} (h : d < 10) : (digit d).toNat - 48 = d := by
  unfold digit
  interval_cases d <;> rfl

/-- A number with more than one digit. -/
lemma decimal_step {n : ℕ} (h : 10 ≤ n) : decimal n = decimal (n / 10) ++ [digit (n % 10)] := by
  have hdiv : n / 10 ≠ 0 := by omega
  rw [decimal, if_neg (by omega), decimal, if_neg hdiv, Nat.digits_def' (by decide) (by omega)]
  simp

/-- A number with one digit. -/
lemma decimal_of_lt {n : ℕ} (h : n < 10) : decimal n = [digit n] := by
  unfold decimal
  split_ifs with hzero
  · rw [hzero]
    rfl
  · rw [Nat.digits_of_lt 10 n hzero h]
    rfl

/-- One digit more. -/
lemma digits_concat {t r : List UInt8} {c : UInt8} {v w : ℕ} (h : Digits t (c :: r) v w)
    (hc : isDigit c) : Digits t r v (w * 10 + (c.toNat - 48)) := by
  generalize hs : c :: r = s at h
  induction h with
  | nil =>
    subst hs
    exact .cons hc .nil
  | cons hd _ ih => exact .cons hd (ih hs)

/-- The digits of a number have its value. -/
lemma digits_decimal (n : ℕ) (r : List UInt8) : Digits (decimal n ++ r) r 0 n := by
  induction n using Nat.strong_induction_on generalizing r with
  | _ n ih =>
    by_cases hn : n < 10
    · have hone := Digits.cons (r := r) (v := 0) (isDigit_digit hn) .nil
      rw [toNat_digit hn, Nat.zero_mul, Nat.zero_add] at hone
      rw [decimal_of_lt hn]
      exact hone
    · have hlast : n % 10 < 10 := Nat.mod_lt _ (by decide)
      have hmore := digits_concat (ih (n / 10) (by omega) (digit (n % 10) :: r)) (isDigit_digit hlast)
      rw [toNat_digit hlast, show n / 10 * 10 + n % 10 = n by omega] at hmore
      rw [decimal_step (by omega), List.append_assoc]
      exact hmore

/-- A positive number starts with a digit that is not zero. -/
lemma decimal_head {n : ℕ} (hn : 0 < n) : ∃ c t, decimal n = c :: t ∧ isDigit c ∧ c ≠ 48 := by
  induction n using Nat.strong_induction_on with
  | _ n ih =>
    by_cases hlt : n < 10
    · refine ⟨digit n, [], decimal_of_lt hlt, isDigit_digit hlt, ?_⟩
      unfold digit
      interval_cases n <;> decide
    · obtain ⟨c, t, ht, hc⟩ := ih (n / 10) (by omega) (by omega)
      exact ⟨c, t ++ [digit (n % 10)], by rw [decimal_step (by omega), ht]; rfl, hc⟩

/-- A decimal number is an `int`. -/
lemma intPart_decimal (n : ℕ) (r : List UInt8) : IntPart (decimal n ++ r) r := by
  rcases Nat.eq_zero_or_pos n with rfl | hn
  · exact .zero
  · obtain ⟨c, t, ht, hc, hne⟩ := decimal_head hn
    have hdigits := digits_decimal n r
    rw [ht, List.cons_append] at hdigits ⊢
    generalize hs : c :: (t ++ r) = s at hdigits ⊢
    cases hdigits with
    | nil =>
      have := congrArg List.length hs
      simp only [List.length_cons, List.length_append] at this
      omega
    | cons _ h =>
      obtain ⟨rfl, rfl⟩ := List.cons.inj hs
      exact .digits hc hne h

/-- **A decimal number is a number.** -/
theorem number_decimal (m n : ℕ) (r : List UInt8) : Number m (decimal n ++ r) r :=
  ⟨_, _, _, .absent, intPart_decimal n r, .absent, .absent⟩

/-! ## `%.7g` -/

/-- A run of digits. -/
lemma exists_digits {t : List UInt8} (h : ∀ c ∈ t, isDigit c) (r : List UInt8) (v : ℕ) :
    ∃ w, Digits (t ++ r) r v w := by
  induction t generalizing v with
  | nil => exact ⟨v, .nil⟩
  | cons c t ih =>
    obtain ⟨hc, ht⟩ := List.forall_mem_cons.mp h
    obtain ⟨w, hw⟩ := ih ht (v * 10 + (c.toNat - 48))
    exact ⟨w, .cons hc hw⟩

/-- A fraction is a `frac`, or nothing. -/
lemma fracPart_fraction (width f : ℕ) (r : List UInt8) : FracPart (fraction width f ++ r) r := by
  have hall : ∀ c ∈ ((((Nat.digits 10 f).map digit ++ List.replicate width 48).take width).dropWhile
      (· = 48)).reverse, isDigit c := by
    intro c hc
    have hmem := List.mem_of_mem_take ((List.dropWhile_sublist _).subset (List.mem_reverse.mp hc))
    rcases List.mem_append.mp hmem with h | h
    · obtain ⟨d, hd, rfl⟩ := List.mem_map.mp h
      exact isDigit_digit (Nat.digits_lt_base (by decide) hd)
    · rw [(List.mem_replicate.mp h).2]
      decide
  unfold fraction
  simp only
  split_ifs with hnil
  · exact .absent
  · generalize hds : ((((Nat.digits 10 f).map digit ++ List.replicate width 48).take width).dropWhile
      (· = 48)).reverse = ds at hall ⊢
    cases ds with
    | nil => exact absurd (List.reverse_eq_nil_iff.mp hds) hnil
    | cons c t =>
      obtain ⟨hc, ht⟩ := List.forall_mem_cons.mp hall
      obtain ⟨w, hw⟩ := exists_digits ht r 0
      exact .present hc hw

/-- A number without a sign. -/
def Unsigned (m : ℕ) (t r : List UInt8) : Prop :=
  ∃ frac exp, IntPart t frac ∧ FracPart frac exp ∧ ExpPart m exp r

/-- Digits with a fraction, and whatever exponent follows. -/
lemma unsigned_fixed {m : ℕ} (width q : ℕ) {exp r : List UInt8} (h : ExpPart m exp r) :
    Unsigned m (fixed width q ++ exp) r := by
  rw [fixed, List.append_assoc]
  exact ⟨_, _, intPart_decimal _ _, fracPart_fraction _ _ _, h⟩

/-- Zeros in front do not change a value. -/
lemma digits_zeroPadded {t r : List UInt8} {w : ℕ} (h : Digits t r 0 w) (k : ℕ) :
    Digits (List.replicate k 48 ++ t) r 0 w := by
  induction k with
  | zero => exact h
  | succ k ih => exact .cons (by decide) ih

/-- The printed exponent. -/
lemma expPart_exponent {m : ℕ} {exp : ℤ} (h : exp.natAbs ≤ m) (r : List UInt8) :
    ExpPart m ((101 :: (if exp < 0 then 45 else 43) :: zeroPadded 2 (decimal exp.natAbs)) ++ r) r := by
  have hdigits : Digits (zeroPadded 2 (decimal exp.natAbs) ++ r) r 0 exp.natAbs := by
    rw [zeroPadded, List.append_assoc]
    exact digits_zeroPadded (digits_decimal _ _) _
  have hsign : (if exp < 0 then 45 else 43 : UInt8) = 43 ∨ (if exp < 0 then 45 else 43 : UInt8) = 45 := by
    split_ifs
    · exact Or.inr rfl
    · exact Or.inl rfl
  have hcons : ∃ c u, zeroPadded 2 (decimal exp.natAbs) ++ r = c :: u ∧ isDigit c := by
    unfold zeroPadded
    rcases Nat.eq_zero_or_pos exp.natAbs with hzero | hpos
    · rw [hzero]
      exact ⟨48, 48 :: r, rfl, by decide⟩
    · cases hk : 2 - (decimal exp.natAbs).length with
      | zero =>
        obtain ⟨c, t, ht, hc, -⟩ := decimal_head hpos
        exact ⟨c, t ++ r, by rw [ht]; rfl, hc⟩
      | succ k => exact ⟨48, _, rfl, by decide⟩
  obtain ⟨c, u, hu, hc⟩ := hcons
  rw [hu] at hdigits
  rw [List.cons_append, List.cons_append, hu]
  exact .present (Or.inl rfl) (.present hsign) hc hdigits h

/-- The exponent is bounded as the quotient is. -/
lemma sevenDigits_exp {num den : ℕ} (hnum : num < 10 ^ 40 * den) (hden : den ≤ 10 ^ 60) :
    (sevenDigits num den).2.natAbs ≤ 60 := by
  have hexp : ∀ e : ℤ, (e = if den ≤ num then (Nat.log 10 (num / den) : ℤ)
      else -Nat.clog 10 ((num + den - 1) / num)) → -60 ≤ e ∧ e ≤ 59 := by
    intro e he
    split_ifs at he with hle
    · have : Nat.log 10 (num / den) < 40 := by
        apply Nat.log_lt_of_lt_pow'
        · decide
        · exact Nat.div_lt_of_lt_mul (by rwa [Nat.mul_comm] at hnum)
      omega
    · have : Nat.clog 10 ((num + den - 1) / num) ≤ 60 := by
        apply Nat.clog_le_of_le_pow
        refine le_trans ?_ hden
        rcases Nat.eq_zero_or_pos num with rfl | hpos
        · simp
        · apply Nat.div_le_of_le_mul
          obtain ⟨a, rfl⟩ : ∃ a, num = a + 1 := ⟨num - 1, by omega⟩
          obtain ⟨b, rfl⟩ : ∃ b, den = b + 1 := ⟨den - 1, by omega⟩
          have : (a + 1) * (b + 1) = a * b + a + b + 1 := by ring
          omega
      omega
  unfold sevenDigits
  simp only
  have := hexp _ rfl
  split_ifs <;> simp only <;> omega

/-- The text of a quotient. -/
lemma unsigned_general {num den : ℕ} (hnum : num < 10 ^ 40 * den) (hden : den ≤ 10 ^ 60) {m : ℕ}
    (hm : 60 ≤ m) (r : List UInt8) : Unsigned m (general num den ++ r) r := by
  have hexp := sevenDigits_exp hnum hden
  unfold general
  simp only
  by_cases hlarge : (sevenDigits num den).2 < -4 ∨ 7 ≤ (sevenDigits num den).2
  · rw [if_pos hlarge, List.append_assoc]
    exact unsigned_fixed _ _ (expPart_exponent (hexp.trans hm) r)
  · rw [if_neg hlarge]
    exact unsigned_fixed _ _ .absent

/-- The text of a finite value is zero, or that of a quotient of bounded size. -/
lemma general7Abs_cases {bits : UInt32} (h : IsFinite bits) :
    general7Abs bits = [48] ∨ ∃ num den, num < 10 ^ 40 * den ∧ den ≤ 10 ^ 60 ∧
      general7Abs bits = general num den := by
  have hfrac : bits.toNat % 0x800000 < 0x800000 := Nat.mod_lt _ (by decide)
  have hlt : bits.toNat / 0x800000 % 0x100 < 0x100 := Nat.mod_lt _ (by decide)
  unfold general7Abs
  simp only
  rw [if_neg h]
  generalize bits.toNat / 0x800000 % 0x100 = exp at hlt
  generalize bits.toNat % 0x800000 = frac at hfrac
  split_ifs with hzero hsub hbig
  · exact Or.inl rfl
  · exact Or.inr ⟨_, _, by omega, by norm_num, rfl⟩
  · refine Or.inr ⟨_, _, ?_, by norm_num, rfl⟩
    have hpow : 2 ^ (exp - 150) ≤ 2 ^ 105 := Nat.pow_le_pow_right (by decide) (by omega)
    have : (0x800000 + frac) * 2 ^ (exp - 150) ≤ 0x1000000 * 2 ^ 105 :=
      Nat.mul_le_mul (by omega) hpow
    exact this.trans_lt (by norm_num)
  · refine Or.inr ⟨_, _, ?_, ?_, rfl⟩
    · have hpos : 0 < 2 ^ (150 - exp) := Nat.two_pow_pos _
      have : 0x1000000 * 1 ≤ 10 ^ 40 * 2 ^ (150 - exp) := Nat.mul_le_mul (by norm_num) hpos
      omega
    · exact (Nat.pow_le_pow_right (by decide) (by omega : 150 - exp ≤ 150)).trans (by norm_num)

/-- The text of the absolute value of a finite value. -/
lemma unsigned_general7Abs {bits : UInt32} (h : IsFinite bits) {m : ℕ} (hm : 60 ≤ m)
    (r : List UInt8) : Unsigned m (general7Abs bits ++ r) r := by
  rcases general7Abs_cases h with hzero | ⟨num, den, hnum, hden, hgeneral⟩
  · rw [hzero]
    exact ⟨_, _, .zero, .absent, .absent⟩
  · rw [hgeneral]
    exact unsigned_general hnum hden hm r

/-- **The text of a finite value is a number.** -/
theorem number_general7 {bits : UInt32} (h : IsFinite bits) {m : ℕ} (hm : 60 ≤ m) (r : List UInt8) :
    Number m (general7 bits ++ r) r := by
  obtain ⟨frac, exp, hint, hfrac, hexp⟩ := unsigned_general7Abs h hm r
  unfold general7
  split_ifs
  · exact ⟨_, _, _, .present, hint, hfrac, hexp⟩
  · exact ⟨_, _, _, .absent, hint, hfrac, hexp⟩

/-- The text of an infinite value or of a NaN starts no number. -/
theorem not_number_general7 {bits : UInt32} (h : ¬ IsFinite bits) (m : ℕ) (r r' : List UInt8) :
    ¬ Number m (general7 bits ++ r) r' := by
  have hspecial : bits.toNat / 0x800000 % 0x100 = 0xFF := not_not.mp h
  unfold general7 general7Abs
  simp only
  rw [if_pos hspecial]
  rintro ⟨int, frac, exp, hminus, hint, -⟩
  split_ifs at hminus with hneg hinf hinf
  all_goals
    cases hminus <;>
    · rcases hint with _ | ⟨hc, _, _⟩
      exact absurd hc (by decide)

/-! ## Lengths -/

/-- A number below `10 ^ k` has at most `k` digits. -/
lemma length_decimal_le {n k : ℕ} (hk : 0 < k) (h : n < 10 ^ k) : (decimal n).length ≤ k := by
  unfold decimal
  split_ifs with hzero
  · exact hk
  · rw [List.length_reverse, List.length_map, Nat.length_digits 10 n (by decide) hzero]
    exact Nat.log_lt_of_lt_pow hzero h

/-- Rounding adds at most one. -/
lemma roundHalfEven_le (num den : ℕ) : roundHalfEven num den ≤ num + 1 := by
  have := Nat.div_le_self num den
  unfold roundHalfEven
  simp only
  split_ifs <;> omega

/-- A fraction is as long as its digits and the point. -/
lemma length_fraction_le (width f : ℕ) : (fraction width f).length ≤ width + 1 := by
  unfold fraction
  simp only
  split_ifs
  · exact Nat.zero_le _
  · rw [List.length_cons, List.length_reverse]
    have h := ((List.dropWhile_sublist (fun c : UInt8 => decide (c = 48))
      (l := ((Nat.digits 10 f).map digit ++ List.replicate width 48).take width))).length_le
    rw [List.length_take] at h
    omega

/-- The text of a quotient is short. -/
lemma length_general_le {num den : ℕ} (hnum : num < 10 ^ 40 * den) (hden : den ≤ 10 ^ 60) :
    (general num den).length ≤ 500 := by
  have hexp := sevenDigits_exp hnum hden
  have hq : (sevenDigits num den).1 < 10 ^ 200 := by
    have hlt : num < 10 ^ 100 := hnum.trans_le (by
      calc 10 ^ 40 * den ≤ 10 ^ 40 * 10 ^ 60 := Nat.mul_le_mul_left _ hden
        _ = 10 ^ 100 := by norm_num)
    revert hexp
    unfold sevenDigits
    simp only
    generalize (if den ≤ num then (Nat.log 10 (num / den) : ℤ)
      else -Nat.clog 10 ((num + den - 1) / num)) = exp
    have hround : ∀ (a : ℕ) (_ : a < 10 ^ 199) (b : ℕ), roundHalfEven a b < 10 ^ 200 := by
      intro a ha b
      have h := roundHalfEven_le a b
      have : (10 : ℕ) ^ 199 + 1 ≤ 10 ^ 200 := by norm_num
      omega
    have hscale : -61 ≤ exp → num * 10 ^ (6 - exp).toNat < 10 ^ 199 := by
      intro he
      calc num * 10 ^ (6 - exp).toNat ≤ num * 10 ^ 67 :=
            Nat.mul_le_mul_left _ (Nat.pow_le_pow_right (by decide) (by omega))
        _ < 10 ^ 100 * 10 ^ 67 := Nat.mul_lt_mul_of_pos_right hlt (by norm_num)
        _ ≤ 10 ^ 199 := by norm_num
    split_ifs with hsmall hcarry hcarry <;> simp only <;> intro he
    · norm_num
    · exact hround _ (hscale (by omega)) _
    · norm_num
    · exact hround _ (hlt.trans (by norm_num)) _
  have hdecimal : ∀ w, (decimal ((sevenDigits num den).1 / 10 ^ w)).length ≤ 200 := fun w =>
    length_decimal_le (by decide) ((Nat.div_le_self _ _).trans_lt hq)
  have hfixed : ∀ w ≤ 66, (fixed w (sevenDigits num den).1).length ≤ 300 := by
    intro w hw
    have h1 := hdecimal w
    have h2 := length_fraction_le w ((sevenDigits num den).1 % 10 ^ w)
    rw [fixed, List.length_append]
    omega
  unfold general
  simp only
  by_cases hlarge : (sevenDigits num den).2 < -4 ∨ 7 ≤ (sevenDigits num den).2
  · rw [if_pos hlarge, List.length_append, List.length_cons, List.length_cons, zeroPadded,
      List.length_append, List.length_replicate]
    have h1 := hfixed 6 (by decide)
    have h2 : (decimal (sevenDigits num den).2.natAbs).length ≤ 100 :=
      length_decimal_le (by decide) (hexp.trans_lt (by norm_num))
    omega
  · rw [if_neg hlarge]
    exact (hfixed _ (by omega)).trans (by decide)

/-- The text of `%.7g` is short. -/
lemma length_general7_le (bits : UInt32) : (general7 bits).length ≤ 501 := by
  have habs : (general7Abs bits).length ≤ 500 := by
    by_cases h : IsFinite bits
    · rcases general7Abs_cases h with hzero | ⟨num, den, hnum, hden, hgeneral⟩
      · rw [hzero]
        decide
      · rw [hgeneral]
        exact length_general_le hnum hden
    · unfold general7Abs
      simp only
      rw [if_pos (not_not.mp h)]
      split_ifs <;> decide
  unfold general7
  split_ifs
  · rw [List.length_cons]
    omega
  · omega

end Printf
