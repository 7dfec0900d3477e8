import Prospero.Lib.Binary64
import Prospero.Lib.Lexing
import Prospero.Lib.Printf

/-!
# Texts of numbers

The finite numbers of binary64 and the texts that ECMAScript gives them.  `Number::toString` takes the
shortest decimal that rounds to the number, of several the closest one, and lays it out with an exponent
when it is very large or very small.

### Outline

* the numbers, and the operations that stay among them;
* decimals, the decimal of a number and its text (`Prints`);
* the digits of a text in front of the point and behind it (`Positional`);
* a power of ten that rounds to at most the number is at most its decimal (`Shortest.pow_le_value`).
-/

namespace NumberText

open Binary64 Rfc8259 Printf
open Lexing (digitsValue)

/-! ## Numbers -/

/-- A finite number of binary64; the two zeros are one number. -/
structure Number where
  /-- Its value. -/
  val : ℚ
  /-- It has a mantissa and an exponent of the format. -/
  representable : Representable |val|
  /-- It is below the largest number. -/
  lt_max : |val| < 2 ^ 1024

namespace Number

/-- The larger of two numbers. -/
def max (x y : Number) : Number := if x.val ≤ y.val then y else x

/-- The smaller of two numbers. -/
def min (x y : Number) : Number := if x.val ≤ y.val then x else y

lemma val_max (x y : Number) : (max x y).val = Max.max x.val y.val := by
  unfold max
  split_ifs with h
  · exact (max_eq_right h).symm
  · exact (max_eq_left (le_of_not_ge h)).symm

lemma val_min (x y : Number) : (min x y).val = Min.min x.val y.val := by
  unfold min
  split_ifs with h
  · exact (min_eq_left h).symm
  · exact (min_eq_right (le_of_not_ge h)).symm

/-- A number is an integer, or its integer part is small. -/
lemma floor_cases (x : Number) : (⌊x.val⌋ : ℚ) = x.val ∨ ∃ n : ℕ, n < 2 ^ 53 ∧ |(⌊x.val⌋ : ℚ)| = n := by
  obtain ⟨m, e, hm, -, hval⟩ := x.representable
  rcases le_or_gt 0 e with he | he
  · left
    obtain ⟨k, rfl⟩ := Int.eq_ofNat_of_zero_le he
    have hint : |x.val| = ((m * 2 ^ k : ℤ) : ℚ) := by
      rw [hval]
      push_cast
      rfl
    rcases abs_choice x.val with habs | habs
    · rw [← habs, hint, Int.floor_intCast]
    · rw [← neg_eq_iff_eq_neg.mpr habs, hint, ← Int.cast_neg, Int.floor_intCast]
  · right
    refine ⟨⌊x.val⌋.natAbs, ?_, ?_⟩
    · have hone : (2 : ℚ) ^ e ≤ 1 := zpow_le_one_of_nonpos₀ one_le_two he.le
      have hle : |x.val| ≤ m := by
        rw [hval]
        exact mul_le_of_le_one_right (Nat.cast_nonneg m) hone
      obtain ⟨hlo, hhi⟩ := abs_le.mp hle
      have hfloorHi : ⌊x.val⌋ ≤ m := by
        have := (Int.floor_le x.val).trans hhi
        exact_mod_cast this
      have hfloorLo : -(m : ℤ) ≤ ⌊x.val⌋ := Int.le_floor.mpr (by exact_mod_cast hlo)
      omega
    · rw [Nat.cast_natAbs, Int.cast_abs]

/-- `Math.floor`. -/
def floor (x : Number) : Number where
  val := ⌊x.val⌋
  representable := by
    rcases x.floor_cases with h | ⟨n, hn, h⟩
    · rw [h]
      exact x.representable
    · rw [h]
      exact representable_natCast hn
  lt_max := by
    rcases x.floor_cases with h | ⟨n, hn, h⟩
    · rw [h]
      exact x.lt_max
    · rw [h]
      have hn' : (n : ℚ) < 2 ^ 53 := by exact_mod_cast hn
      exact hn'.trans (pow_lt_pow_right₀ one_lt_two (by norm_num))

/-- A literal: the number nearest to a decimal. -/
def literal (q : ℚ) (h : 0 ≤ q ∧ q ≤ 2 ^ 1000) : Number where
  val := rnd q
  representable := by
    rw [abs_of_nonneg (rnd_nonneg h.1)]
    exact representable_rnd h.1
  lt_max := by
    rw [abs_of_nonneg (rnd_nonneg h.1)]
    have hmax : Representable (2 ^ 1000) := ⟨1, 1000, by norm_num, by norm_num, by norm_num⟩
    exact (rnd_le h.1 h.2 hmax).trans_lt (pow_lt_pow_right₀ one_lt_two (by norm_num))

end Number

/-! ## Decimals -/

/-- A decimal `s * 10 ^ (n - k)`, with the `k` digits of `s`. -/
structure Decimal where
  /-- The digits. -/
  s : ℕ
  /-- Their number. -/
  k : ℕ
  /-- The position of the point. -/
  n : ℤ
  /-- There are digits. -/
  k_pos : 1 ≤ k
  /-- The first digit is not zero. -/
  le_s : 10 ^ (k - 1) ≤ s
  /-- There are no more. -/
  s_lt : s < 10 ^ k

namespace Decimal

/-- The value. -/
def value (d : Decimal) : ℚ := d.s * 10 ^ (d.n - d.k)

/-- The text of a decimal, as `Number::toString` lays it out. -/
def text (d : Decimal) : List UInt8 :=
  let digits := decimal d.s
  if -5 ≤ d.n ∧ d.n ≤ 21 then
    if d.k ≤ d.n then digits ++ List.replicate (d.n - d.k).toNat 48
    else if 0 < d.n then digits.take d.n.toNat ++ 46 :: digits.drop d.n.toNat
    else 48 :: 46 :: (List.replicate (-d.n).toNat 48 ++ digits)
  else
    (if d.k = 1 then digits else digits.take 1 ++ 46 :: digits.drop 1) ++
      101 :: (if d.n < 0 then 45 else 43) :: decimal (d.n - 1).natAbs

end Decimal

/-- The decimal that `Number::toString` chooses for a positive number. -/
structure Shortest (x : ℚ) (d : Decimal) : Prop where
  /-- It rounds to the number. -/
  rounds : rnd d.value = x
  /-- No decimal with fewer digits does. -/
  shortest : ∀ d' : Decimal, rnd d'.value = x → d.k ≤ d'.k
  /-- No decimal with as many digits is closer. -/
  closest : ∀ d' : Decimal, d'.k = d.k → rnd d'.value = x → |d.value - x| ≤ |d'.value - x|

/-- The text of a number. -/
def Prints (x : ℚ) (text : List UInt8) : Prop :=
  (x = 0 ∧ text = [48]) ∨ (0 < x ∧ ∃ d, Shortest x d ∧ text = d.text) ∨
    (x < 0 ∧ ∃ d, Shortest (-x) d ∧ text = 45 :: d.text)

/-! ## Rows of digits -/

lemma digitsValue_append (a b : List UInt8) :
    digitsValue (a ++ b) = digitsValue a * 10 ^ b.length + digitsValue b := by
  induction b using List.reverseRecOn with
  | nil => simp [digitsValue]
  | append_singleton b c ih =>
    have hstep : ∀ l : List UInt8, digitsValue (l ++ [c]) = digitsValue l * 10 + (c.toNat - 48) :=
        fun l => by
      rw [digitsValue, List.foldl_append]
      rfl
    rw [← List.append_assoc, hstep, hstep, ih, List.length_append, List.length_singleton, pow_succ]
    ring

lemma digitsValue_lt {a : List UInt8} (h : ∀ c ∈ a, isDigit c) : digitsValue a < 10 ^ a.length := by
  induction a using List.reverseRecOn with
  | nil => exact Nat.one_pos
  | append_singleton a c ih =>
    rw [List.forall_mem_append, List.forall_mem_singleton] at h
    have hlt := ih h.1
    have hc : c.toNat ≤ 57 := UInt8.le_iff_toNat_le.mp h.2.2
    rw [digitsValue_append, List.length_append, List.length_singleton, pow_one, pow_succ,
      show digitsValue [c] = 0 * 10 + (c.toNat - 48) from rfl]
    omega

lemma digitsValue_zeros (n : ℕ) : digitsValue (List.replicate n 48) = 0 := by
  induction n with
  | zero => rfl
  | succ n ih =>
    rw [List.replicate_succ', digitsValue_append, ih]
    rfl

lemma isDigit_decimal (n : ℕ) : ∀ c ∈ decimal n, isDigit c := fun c hc => by
  have h := Lexing.isDigit_decimal n c hc
  simpa [Lexing.isDigit] using h

lemma isDigit_zeros (n : ℕ) : ∀ c ∈ List.replicate n (48 : UInt8), isDigit c := fun c hc => by
  rw [List.eq_of_mem_replicate hc]
  decide

namespace Decimal

variable (d : Decimal)

lemma s_pos : 0 < d.s := (Nat.pow_pos (by norm_num)).trans_le d.le_s

lemma digitsValue_decimal : digitsValue (decimal d.s) = d.s := Lexing.digitsValue_decimal d.s

/-- The digits of `s` are `k` digits. -/
lemma length_decimal : (decimal d.s).length = d.k := by
  refine le_antisymm (length_decimal_le d.k_pos d.s_lt) ?_
  by_contra hshort
  have hlt := digitsValue_lt (isDigit_decimal d.s)
  rw [d.digitsValue_decimal] at hlt
  have hle : 10 ^ (decimal d.s).length ≤ 10 ^ (d.k - 1) := Nat.pow_le_pow_right (by norm_num) (by omega)
  exact absurd d.le_s (not_le.mpr (hlt.trans_le hle))

/-- The first digit is not zero. -/
lemma head_decimal : ∃ c more, decimal d.s = c :: more ∧ isDigit c ∧ c ≠ 48 := decimal_head d.s_pos

/-- The position of the point bounds the value. -/
lemma value_bounds : 10 ^ (d.n - 1) ≤ d.value ∧ d.value < 10 ^ d.n := by
  have hten : (10 : ℚ) ≠ 0 := by norm_num
  have hpos : (0 : ℚ) < 10 ^ (d.n - d.k) := zpow_pos (by norm_num) _
  have hk := d.k_pos
  have hlo : (10 : ℚ) ^ (d.k - 1) ≤ d.s := by exact_mod_cast d.le_s
  have hhi : (d.s : ℚ) < 10 ^ d.k := by exact_mod_cast d.s_lt
  constructor
  · calc (10 : ℚ) ^ (d.n - 1) = 10 ^ (d.k - 1) * 10 ^ (d.n - d.k) := by
          rw [← zpow_natCast, ← zpow_add₀ hten]
          congr 1
          omega
      _ ≤ d.value := mul_le_mul_of_nonneg_right hlo hpos.le
  · calc d.value < 10 ^ d.k * 10 ^ (d.n - d.k) := mul_lt_mul_of_pos_right hhi hpos
      _ = 10 ^ d.n := by
          rw [← zpow_natCast, ← zpow_add₀ hten]
          congr 1
          omega

lemma value_pos : 0 < d.value := (zpow_pos (by norm_num) _).trans_le d.value_bounds.1

/-- A lower bound for the value is one for the position of the point. -/
lemma lt_n_of_le {j : ℤ} (h : 10 ^ j ≤ d.value) : j < d.n :=
  (zpow_lt_zpow_iff_right₀ (by norm_num : (1 : ℚ) < 10)).mp (h.trans_lt d.value_bounds.2)

/-- An upper bound for the value is one for the position of the point. -/
lemma n_le_of_lt {j : ℤ} (h : d.value < 10 ^ j) : d.n ≤ j := by
  have := (zpow_lt_zpow_iff_right₀ (by norm_num : (1 : ℚ) < 10)).mp (d.value_bounds.1.trans_lt h)
  omega

end Decimal

/-! ## The digits of a text -/

/-- A point and the digits behind it, if there are any. -/
def point (frac : List UInt8) : List UInt8 := if frac = [] then [] else 46 :: frac

lemma point_of_ne {frac : List UInt8} (h : frac ≠ []) : point frac = 46 :: frac := if_neg h

/-- The text of a decimal without an exponent, and the digits before and behind its point. -/
structure Positional (d : Decimal) (int frac : List UInt8) : Prop where
  /-- The text. -/
  text : d.text = int ++ point frac
  /-- The integer part is zero, or starts with another digit. -/
  head : int = [48] ∨ ∃ c more, int = c :: more ∧ c ≠ 48
  /-- The integer part is made of digits. -/
  int_digits : ∀ c ∈ int, isDigit c
  /-- There are at most 21 of them. -/
  int_length : int.length ≤ 21
  /-- The fraction is made of digits. -/
  frac_digits : ∀ c ∈ frac, isDigit c
  /-- The integer part is the integer part of the value. -/
  int_le : (digitsValue int : ℚ) ≤ d.value
  /-- The value is below the next integer. -/
  lt_int : d.value < digitsValue int + 1
  /-- The fraction of a number that is not small starts with a digit that is not zero, or its second
  digit is such a digit. -/
  frac_head : d.value < 1 → 1 / 100 ≤ d.value →
    ∃ c more, c ≠ 48 ∧ (frac = c :: more ∨ frac = 48 :: c :: more)

/-- An integer. -/
lemma plain_of_le (d : Decimal) (hk : d.k ≤ d.n) (hn : d.n ≤ 21) :
    Positional d (decimal d.s ++ List.replicate (d.n - d.k).toNat 48) [] := by
  have hkpos := d.k_pos
  obtain ⟨c, more, hdigits, hc, hne⟩ := d.head_decimal
  have hvalue : (digitsValue (decimal d.s ++ List.replicate (d.n - d.k).toNat 48) : ℚ) = d.value := by
    rw [digitsValue_append, digitsValue_zeros, d.digitsValue_decimal, List.length_replicate,
        Decimal.value,
      ← Int.toNat_of_nonneg (sub_nonneg.mpr hk), zpow_natCast, Int.toNat_natCast]
    push_cast
    ring
  refine ⟨?_, Or.inr ⟨c, more ++ List.replicate (d.n - d.k).toNat 48, by rw [hdigits]; rfl, hne⟩, ?_, ?_,
    fun c hc => absurd hc List.not_mem_nil, hvalue.le, by rw [hvalue]; linarith, fun hlt => ?_⟩
  · rw [Decimal.text, if_pos ⟨by omega, hn⟩, if_pos hk]
    exact (List.append_nil _).symm
  · exact List.forall_mem_append.mpr ⟨isDigit_decimal _, isDigit_zeros _⟩
  · rw [List.length_append, List.length_replicate, d.length_decimal]
    omega
  · have hn0 := d.n_le_of_lt (show d.value < 10 ^ (0 : ℤ) by rwa [zpow_zero])
    omega

/-- A number with digits before and behind the point. -/
lemma plain_of_lt (d : Decimal) (hpos : 0 < d.n) (hk : d.n < d.k) (hn : d.n ≤ 21) :
    Positional d ((decimal d.s).take d.n.toNat) ((decimal d.s).drop d.n.toNat) := by
  obtain ⟨c, more, hdigits, hc, hne⟩ := d.head_decimal
  have hlen := d.length_decimal
  have hall := isDigit_decimal d.s
  have hdrop : (decimal d.s).drop d.n.toNat ≠ [] := by
    rw [ne_eq, List.drop_eq_nil_iff]
    omega
  have hfrac : ∀ c ∈ (decimal d.s).drop d.n.toNat, isDigit c :=
      fun c hc => hall c (List.mem_of_mem_drop hc)
  have hsplit : d.s = digitsValue ((decimal d.s).take d.n.toNat) * 10 ^ (d.k - d.n.toNat) +
      digitsValue ((decimal d.s).drop d.n.toNat) := by
    have happend := digitsValue_append ((decimal d.s).take d.n.toNat) ((decimal d.s).drop d.n.toNat)
    rwa [List.take_append_drop, d.digitsValue_decimal, List.length_drop, hlen] at happend
  have hrest := digitsValue_lt hfrac
  rw [List.length_drop, hlen] at hrest
  have hscale : (0 : ℚ) < 10 ^ (d.k - d.n.toNat) := by positivity
  have hvalue : d.value = d.s / 10 ^ (d.k - d.n.toNat) := by
    rw [Decimal.value, show d.n - d.k = -((d.k - d.n.toNat : ℕ) : ℤ) by omega, zpow_neg, zpow_natCast,
      div_eq_mul_inv]
  refine ⟨?_, Or.inr ?_, fun c hc => hall c (List.mem_of_mem_take hc), ?_, hfrac, ?_, ?_, fun hlt => ?_⟩
  · rw [Decimal.text, if_pos ⟨by omega, hn⟩, if_neg (by omega), if_pos hpos, point_of_ne hdrop]
  · obtain ⟨j, hj⟩ : ∃ j, d.n.toNat = j + 1 := ⟨d.n.toNat - 1, by omega⟩
    exact ⟨c, more.take j, by rw [hdigits, hj, List.take_succ_cons], hne⟩
  · rw [List.length_take]
    omega
  · rw [hvalue, le_div_iff₀ hscale]
    have hle : digitsValue ((decimal d.s).take d.n.toNat) * 10 ^ (d.k - d.n.toNat) ≤ d.s := by omega
    exact_mod_cast hle
  · rw [hvalue, div_lt_iff₀ hscale]
    have hlt : d.s < (digitsValue ((decimal d.s).take d.n.toNat) + 1) * 10 ^ (d.k - d.n.toNat) := by
      rw [Nat.add_mul, Nat.one_mul]
      omega
    exact_mod_cast hlt
  · have hn0 := d.n_le_of_lt (show d.value < 10 ^ (0 : ℤ) by rwa [zpow_zero])
    omega

/-- A number below one. -/
lemma plain_of_nonpos (d : Decimal) (hlow : -5 ≤ d.n) (hn : d.n ≤ 0) :
    Positional d [48] (List.replicate (-d.n).toNat 48 ++ decimal d.s) := by
  have hkpos := d.k_pos
  obtain ⟨c, more, hdigits, hc, hne⟩ := d.head_decimal
  have hone : d.value < 1 := by
    have hlt := d.value_bounds.2.trans_le (zpow_le_zpow_right₀ (by norm_num : (1 : ℚ) ≤ 10) hn)
    rwa [zpow_zero] at hlt
  have hfrac : List.replicate (-d.n).toNat 48 ++ decimal d.s ≠ [] := by
    rw [hdigits]
    exact List.append_ne_nil_of_right_ne_nil _ (List.cons_ne_nil _ _)
  have hzero : digitsValue [48] = 0 := rfl
  refine ⟨?_, Or.inl rfl, ?_, by decide, List.forall_mem_append.mpr ⟨isDigit_zeros _, isDigit_decimal _⟩,
      ?_, ?_,
    fun _ hle => ?_⟩
  · rw [Decimal.text, if_pos ⟨hlow, by omega⟩, if_neg (by omega), if_neg (by omega), point_of_ne hfrac]
    rfl
  · rw [List.forall_mem_singleton]
    decide
  · rw [hzero, Nat.cast_zero]
    exact d.value_pos.le
  · rw [hzero, Nat.cast_zero, zero_add]
    exact hone
  · have hn2 := d.lt_n_of_le (show (10 : ℚ) ^ (-2 : ℤ) ≤ d.value by norm_num; linarith)
    have hcases : d.n = 0 ∨ d.n = -1 := by omega
    refine ⟨c, more, hne, ?_⟩
    rcases hcases with h0 | h1
    · rw [h0, hdigits]
      exact Or.inl rfl
    · rw [h1, hdigits]
      exact Or.inr rfl

/-- A decimal that is neither too large nor too small has a plain text. -/
lemma exists_plain (d : Decimal) (hlow : -5 ≤ d.n) (hn : d.n ≤ 21) : ∃ int frac, Positional d int frac := by
  rcases le_or_gt d.n 0 with hneg | hpos
  · exact ⟨_, _, plain_of_nonpos d hlow hneg⟩
  · rcases le_or_gt (d.k : ℤ) d.n with hk | hk
    · exact ⟨_, _, plain_of_le d hk hn⟩
    · exact ⟨_, _, plain_of_lt d hpos hk hn⟩

/-- The text of a decimal with an exponent. -/
lemma text_exponent (d : Decimal) (h : ¬ (-5 ≤ d.n ∧ d.n ≤ 21)) :
    ∃ c frac, isDigit c ∧ c ≠ 48 ∧ (∀ c ∈ frac, isDigit c) ∧
      d.text = c :: (point frac ++ 101 :: (if d.n < 0 then 45 else 43) :: decimal (d.n - 1).natAbs) := by
  obtain ⟨c, more, hdigits, hc, hne⟩ := d.head_decimal
  have hall := isDigit_decimal d.s
  have hlen := d.length_decimal
  rw [hdigits] at hall hlen
  refine ⟨c, more, hc, hne, (List.forall_mem_cons.mp hall).2, ?_⟩
  rw [Decimal.text, if_neg h, hdigits]
  by_cases hone : d.k = 1
  · obtain rfl : more = [] := by
      rw [List.length_cons] at hlen
      exact List.length_eq_zero_iff.mp (by omega)
    rw [if_pos hone]
    rfl
  · rw [if_neg hone]
    have hmore : more ≠ [] := by
      rintro rfl
      exact hone hlen.symm
    rw [point_of_ne hmore]
    rfl

/-! ## Powers of ten -/

/-- A power of ten that rounds to at most the number is at most its decimal, unless the decimal below the
power of ten rounds alike. -/
lemma Shortest.pow_le_value {x : ℚ} {d : Decimal} (h : Shortest x d) {j : ℤ}
    (hgap : rnd (9 * 10 ^ (j - 1)) < rnd (10 ^ j)) (hx : rnd (10 ^ j) ≤ x) : 10 ^ j ≤ d.value := by
  by_contra hlt
  have hlt := not_le.mp hlt
  have hten : (10 : ℚ) ≠ 0 := by norm_num
  -- the power of ten rounds to the number as well, so the decimal has one digit
  have hsame : rnd (10 ^ j) = x :=
    le_antisymm hx (h.rounds ▸ rnd_mono d.value_pos.le hlt.le)
  have hone : d.k = 1 := by
    have hshort := h.shortest ⟨1, 1, j + 1, le_rfl, by norm_num, by norm_num⟩ (by
      rw [← hsame, Decimal.value]
      norm_num)
    have hk := d.k_pos
    exact le_antisymm hshort hk
  have hn := d.n_le_of_lt hlt
  have hs : (d.s : ℚ) ≤ 9 := by
    have hlt' := d.s_lt
    rw [hone] at hlt'
    exact_mod_cast Nat.le_of_lt_succ hlt'
  have hle : d.value ≤ 9 * 10 ^ (j - 1) := by
    rw [Decimal.value, hone]
    exact mul_le_mul hs (zpow_le_zpow_right₀ (by norm_num) (by push_cast; omega))
      (zpow_pos (by norm_num) _).le (by norm_num)
  have hrounds := rnd_mono d.value_pos.le hle
  rw [h.rounds, ← hsame] at hrounds
  exact absurd hgap (not_lt.mpr hrounds)

lemma representable_one : Representable 1 := ⟨1, 0, by norm_num, by norm_num, by norm_num⟩

/-- Two floats apart show that a power of ten and nine tenths of it do not round alike. -/
lemma gap_of {j : ℤ} {a b : ℚ} (ha : Representable a) (hb : Representable b)
    (hnine : 9 * 10 ^ (j - 1) ≤ a)
    (hpos : 0 ≤ b) (hab : a < b) (hten : b ≤ 10 ^ j) : rnd (9 * 10 ^ (j - 1)) < rnd (10 ^ j) := by
  have hnonneg : (0 : ℚ) ≤ 9 * 10 ^ (j - 1) := mul_nonneg (by norm_num) (zpow_pos (by norm_num) _).le
  exact (rnd_le hnonneg hnine ha).trans_lt (hab.trans_le (le_rnd hb hpos hten))

lemma gap_zero : rnd (9 * 10 ^ ((0 : ℤ) - 1)) < rnd (10 ^ (0 : ℤ)) :=
  @gap_of 0 (15 / 16) 1 ⟨15, -4, by norm_num, by norm_num, by norm_num⟩ representable_one (by norm_num)
    (by norm_num) (by norm_num) (by norm_num)

/-- The decimal of a number that is below a float is below it. -/
lemma Shortest.value_lt {x y : ℚ} {d : Decimal} (h : Shortest x d) (hy : Representable y) (hpos : 0 ≤ y)
    (hlt : x < y) : d.value < y := by
  by_contra hge
  have hle := le_rnd hy hpos (not_lt.mp hge)
  rw [h.rounds] at hle
  exact absurd hlt (not_lt.mpr hle)

/-- A printed positive number has a decimal. -/
lemma Prints.exists_decimal {x : ℚ} {text : List UInt8} (h : Prints x text) (hpos : 0 < x) :
    ∃ d, Shortest x d ∧ text = d.text := by
  obtain ⟨rfl, -⟩ | ⟨-, hd⟩ | ⟨hneg, -⟩ := h
  · exact absurd hpos (lt_irrefl _)
  · exact hd
  · exact absurd hpos (not_lt.mpr hneg.le)

/-- One is printed as one digit. -/
lemma Shortest.text_one {d : Decimal} (h : Shortest 1 d) : d.text = [49] := by
  have hone : d.k = 1 := by
    have hshort := h.shortest ⟨1, 1, 1, le_rfl, by norm_num, by norm_num⟩ (by
      rw [Decimal.value]
      norm_num
      exact rnd_of_representable representable_one)
    have hk := d.k_pos
    exact le_antisymm hshort hk
  have hvalue : (10 : ℚ) ^ (0 : ℤ) ≤ d.value := h.pow_le_value gap_zero (by
    rw [zpow_zero, rnd_of_representable representable_one])
  have hlt : d.value < 10 ^ (1 : ℤ) :=
    h.value_lt ⟨10, 0, by norm_num, by norm_num, by norm_num⟩ (by norm_num) (by norm_num)
  have hn : d.n = 1 := by
    have hlo := d.lt_n_of_le hvalue
    have hhi := d.n_le_of_lt hlt
    omega
  have hs : d.s < 10 := by
    have hlt' := d.s_lt
    rwa [hone, pow_one] at hlt'
  have hval : d.value = d.s := by
    rw [Decimal.value, hn, hone]
    norm_num
  have hround := h.rounds
  rw [hval, rnd_of_representable (representable_natCast (by omega))] at hround
  have hs1 : d.s = 1 := by exact_mod_cast hround
  rw [Decimal.text, hn, hone, hs1]
  rfl

end NumberText
