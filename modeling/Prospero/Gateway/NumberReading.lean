import Prospero.Gateway.NumberValues

/-!
# Reading printed numbers

What `parse_number` returns for the texts of `Number::toString`.

### Outline

* bounds for the two digit loops: a fraction keeps a number below one at most one, and an integer is at
  most `2 ^ 64` exactly when its digits are below `18446744073709553000`;
* the runs of the parser on plain texts and on texts with an exponent;
* `Reads`, the result for a printed number, and the numbers it stays above and below.
-/

namespace Prospero

open Binary64 NumberText Rfc8259
open Lexing (digitsValue)

/-! ## Bounds for fractions -/

lemma representable_zero : Representable 0 := is_zero.representable

lemma is_one : Is 1 1 := @is_of_unpack _ (2 ^ 52) (-52) (by norm_num) _ rfl (by norm_num)

lemma is_nine : Is 9 9 := @is_of_unpack _ (2 ^ 49 * 9) (-49) (by norm_num) _ rfl (by norm_num)

lemma is_sixteen : Is 16 16 := @is_of_unpack _ (2 ^ 48 * 16) (-48) (by norm_num) _ rfl (by norm_num)

/-- The digits of a known text. -/
lemma digits_of_all {digits : List UInt8} (h : digits.all (fun c => decide (isDigit c)) = true) :
    ∀ c ∈ digits, isDigit c :=
  fun c hc => of_decide_eq_true (List.all_eq_true.mp h c hc)

/-- The fraction loop on twenty nines, from zero and from nine. -/
lemma nines_runs : ((nines 20 0).1 ≤ 1 ∧ (1 : Float) + digitValue 57 * (nines 20 0).2 ≤ 1) ∧
    (nines 20 9).1 ≤ 16 ∧ (16 : Float) + digitValue 57 * (nines 20 9).2 ≤ 16 := by
  decide +kernel

/-- A fraction is at most one. -/
lemma frac_le_one {digits : List UInt8} (hdigits : ∀ c ∈ digits, isDigit c) :
    (fracFold (0, tenth) digits).1 ≤ 1 :=
  fracFold_le_of_nines is_zero is_one (by norm_num) (by norm_num) nines_runs.1.1 nines_runs.1.2
    le_rfl representable_zero le_rfl hdigits

/-- A digit and a fraction are at most sixteen. -/
lemma frac_le_sixteen {p : ℚ} {digits : List UInt8} (hp : 0 ≤ p) (hrep : Representable p) (hp9 : p ≤ 9)
    (hdigits : ∀ c ∈ digits, isDigit c) : (fracFold (p, tenth) digits).1 ≤ 16 :=
  fracFold_le_of_nines is_nine is_sixteen (by norm_num) (by norm_num) nines_runs.2.1 nines_runs.2.2
    hp hrep hp9 hdigits

lemma one_le_digitOf {c : UInt8} (hc : isDigit c) (hne : c ≠ 48) : 1 ≤ digitOf c := by
  have hlo := UInt8.le_iff_toNat_le.mp hc.1
  rw [show (48 : UInt8).toNat = 48 from rfl] at hlo
  have hne' : c.toNat ≠ 48 := fun heq => hne (UInt8.toNat_inj.mp heq)
  unfold digitOf
  omega

/-- A digit that is not zero adds the weight of its place. -/
lemma weight_le_fracRound {q f : ℚ} {c : UInt8} (hq : 0 ≤ q) (hf : 0 ≤ f) (hrep : Representable f)
    (hc : isDigit c) (hne : c ≠ 48) : f ≤ (fracRound (q, f) c).1 := by
  have hone : (1 : ℚ) ≤ digitOf c := by exact_mod_cast one_le_digitOf hc hne
  have hterm : f ≤ rnd (digitOf c * f) := le_rnd hrep hf (le_mul_of_one_le_left hf hone)
  exact le_rnd hrep hf (hterm.trans (le_add_of_nonneg_left hq))

/-- A fraction whose first or second digit is not zero is positive. -/
lemma frac_pos {q : ℚ} {digits : List UInt8} (hq : 0 ≤ q) (hrep : Representable q)
    (hdigits : ∀ c ∈ digits, isDigit c)
    (h : ∃ c more, c ≠ 48 ∧ (digits = c :: more ∨ digits = 48 :: c :: more)) :
    0 < (fracFold (q, tenth) digits).1 := by
  have hrept : Representable tenth := is_tenth.representable
  obtain ⟨c, more, hne, rfl | rfl⟩ := h
  · have hc := (List.forall_mem_cons.mp hdigits).1
    obtain ⟨hle, hrep'⟩ := le_fracRound c hq hrep tenth_pos.le
    obtain ⟨hf', -, hrepf'⟩ := @fracRound_snd q tenth c tenth_pos.le hrept
    have hmore := (fracFold_spec more (hq.trans hle) hrep' hf' hrepf').1.1
    exact tenth_pos.trans_le ((weight_le_fracRound hq tenth_pos.le hrept hc hne).trans hmore)
  · obtain ⟨hzero, hdigits⟩ := List.forall_mem_cons.mp hdigits
    have hc := (List.forall_mem_cons.mp hdigits).1
    obtain ⟨hle₁, hrep₁⟩ := le_fracRound 48 hq hrep tenth_pos.le
    obtain ⟨hf₁, -, hrepf₁⟩ := @fracRound_snd q tenth 48 tenth_pos.le hrept
    have hq₁ := hq.trans hle₁
    obtain ⟨hle₂, hrep₂⟩ := le_fracRound c hq₁ hrep₁ hf₁
    obtain ⟨hf₂, -, hrepf₂⟩ := @fracRound_snd (fracRound (q, tenth) 48).1 _ c hf₁ hrepf₁
    have hmore := (fracFold_spec more (hq₁.trans hle₂) hrep₂ hf₂ hrepf₂).1.1
    -- the weight of the second place
    have hsmall : Representable (1 / 128) := ⟨1, -7, by norm_num, by norm_num, by norm_num⟩
    have hweight : 1 / 128 ≤ (fracRound (q, tenth) 48).2 := by
      refine le_rnd hsmall (by norm_num) ?_
      rw [tenth]
      norm_num
    have hpos : (0 : ℚ) < (fracRound (q, tenth) 48).2 := lt_of_lt_of_le (by norm_num) hweight
    exact hpos.trans_le ((weight_le_fracRound hq₁ hf₁ hrepf₁ hc hne).trans hmore)

/-! ## Bounds for integers -/

lemma is_pow64 : Is 18446744073709551616 (2 ^ 64) :=
  @is_of_unpack _ (2 ^ 52) 12 (by norm_num) _ rfl (by norm_num)

/-- The integer loop on floats. -/
def floatFold (v : Float) (digits : List UInt8) : Float :=
    digits.foldl (fun v c => v * 10 + digitValue c) v

/-- The integer loop on the texts that stay at most `2 ^ 64`. -/
lemma floatFold_le_runs : floatFold 0 (List.replicate 19 57) ≤ 18446744073709551616 ∧
    floatFold 1844674407370954 (List.replicate 4 57) ≤ 18446744073709551616 ∧
    floatFold 1844674407370955 (50 :: List.replicate 3 57) ≤ 18446744073709551616 := by
  decide +kernel

/-- The integer loop on the texts that end above `2 ^ 64`. -/
lemma lt_floatFold_runs : 18446744073709551616 < floatFold 1844674407370955 (51 :: List.replicate 3 48) ∧
    18446744073709551616 < floatFold 1844674407370956 (List.replicate 4 48) ∧
    18446744073709551616 < floatFold 0 (49 :: List.replicate 20 48) := by
  decide +kernel

section Compare

variable {v : Float} {q : ℚ} {digits : List UInt8}

lemma is_floatFold (hv : Is v q) (hq : q ≤ 2 ^ 60) (hlen : digits.length ≤ 21)
    (hdigits : ∀ c ∈ digits, isDigit c) : Is (floatFold v digits) (intFold q digits) :=
  (is_intFold hv hq (by norm_num) (by omega) hdigits).1

lemma intFold_le_pow64 (hv : Is v q) (hq : q ≤ 2 ^ 60) (hlen : digits.length ≤ 21)
    (hdigits : ∀ c ∈ digits, isDigit c) (h : floatFold v digits ≤ 18446744073709551616) :
    intFold q digits ≤ 2 ^ 64 :=
  ((is_floatFold hv hq hlen hdigits).le_iff is_pow64).mp h

lemma pow64_lt_intFold (hv : Is v q) (hq : q ≤ 2 ^ 60) (hlen : digits.length ≤ 21)
    (hdigits : ∀ c ∈ digits, isDigit c) (h : 18446744073709551616 < floatFold v digits) :
    2 ^ 64 < intFold q digits :=
  (is_pow64.lt_iff (is_floatFold hv hq hlen hdigits)).mp h

end Compare

lemma intFold_append (q : ℚ) (a b : List UInt8) : intFold q (a ++ b) = intFold (intFold q a) b :=
  List.foldl_append

/-- Digits do not make a number smaller. -/
lemma le_intFold {q : ℚ} (hq : 0 ≤ q) (hrep : Representable q) (digits : List UInt8) :
    q ≤ intFold q digits := by
  induction digits generalizing q with
  | nil => exact le_rfl
  | cons c digits ih =>
    have hten : q ≤ rnd (q * 10) := le_rnd hrep hq (by linarith)
    have hdigit : (0 : ℚ) ≤ digitOf c := Nat.cast_nonneg _
    have hround : q ≤ intRound q c := le_rnd hrep hq (by linarith)
    have hrep' : Representable (intRound q c) := representable_rnd (by linarith)
    exact hround.trans (ih (hq.trans hround) hrep')

/-- An integer that does not start with a zero is at least one. -/
lemma one_le_intFold {c : UInt8} (hc : isDigit c) (hne : c ≠ 48) (more : List UInt8) :
    1 ≤ intFold 0 (c :: more) := by
  have hone : Representable 1 := is_one.representable
  have hdigit : (1 : ℚ) ≤ digitOf c := by exact_mod_cast one_le_digitOf hc hne
  have hten : 0 ≤ rnd (0 * 10) := rnd_nonneg (by norm_num)
  have hround : 1 ≤ intRound 0 c := le_rnd hone zero_le_one (by linarith)
  have hrep : Representable (intRound 0 c) := representable_rnd (by linarith)
  exact hround.trans (le_intFold (zero_le_one.trans hround) hrep more)

/-- Digits are at least zeros. -/
lemma forall₂_zeros (digits : List UInt8) :
    List.Forall₂ (fun c d => digitOf c ≤ digitOf d) (List.replicate digits.length 48) digits := by
  induction digits with
  | nil => exact .nil
  | cons c digits ih => exact .cons (Nat.zero_le _) ih

/-- Nineteen digits are at most nineteen nines. -/
lemma intFold_le_of_short {int : List UInt8} (hdigits : ∀ c ∈ int, isDigit c) (hlen : int.length ≤ 19) :
    intFold 0 int ≤ 2 ^ 64 := by
  have hsplit : List.replicate 19 (57 : UInt8) =
      List.replicate (19 - int.length) 57 ++ List.replicate int.length 57 := by
    rw [← List.replicate_add]
    congr 1
    omega
  have hmono : intFold 0 int ≤ intFold 0 (List.replicate 19 57) := by
    rw [hsplit, intFold_append]
    exact intFold_mono le_rfl (intFold_nonneg le_rfl _) (forall₂_nines hdigits)
  exact hmono.trans (intFold_le_pow64 is_zero (by norm_num) (by decide) (isDigit_nines 19)
    floatFold_le_runs.1)

/-- The first sixteen and the last four of twenty digits. -/
lemma exists_split {int : List UInt8} (hdigits : ∀ c ∈ int, isDigit c) (hlen : int.length = 20) :
    ∃ a b, int = a ++ b ∧ a.length = 16 ∧ b.length = 4 ∧ (∀ c ∈ a, isDigit c) ∧ (∀ c ∈ b, isDigit c) ∧
      digitsValue int = digitsValue a * 10 ^ 4 + digitsValue b := by
  have hb : (int.drop 16).length = 4 := by
    rw [List.length_drop]
    omega
  refine ⟨int.take 16, int.drop 16, (List.take_append_drop 16 int).symm, ?_, hb,
    fun c hc => hdigits c (List.mem_of_mem_take hc), fun c hc => hdigits c (List.mem_of_mem_drop hc), ?_⟩
  · rw [List.length_take]
    omega
  · have happend := digitsValue_append (int.take 16) (int.drop 16)
    rwa [List.take_append_drop, hb] at happend

/-- The first of four digits are the thousands. -/
lemma exists_thousands {b : List UInt8} (hdigits : ∀ c ∈ b, isDigit c) (hlen : b.length = 4) :
    ∃ c more, b = c :: more ∧ isDigit c ∧ more.length = 3 ∧ (∀ c ∈ more, isDigit c) ∧
      digitOf c * 1000 ≤ digitsValue b ∧ digitsValue b < (digitOf c + 1) * 1000 := by
  obtain ⟨c, more, rfl⟩ := List.exists_cons_of_length_eq_add_one hlen
  obtain ⟨hc, hmore⟩ := List.forall_mem_cons.mp hdigits
  have hlen' : more.length = 3 := by
    rw [List.length_cons] at hlen
    omega
  have hvalue := digitsValue_append [c] more
  have hlt := digitsValue_lt hmore
  rw [hlen'] at hvalue hlt
  rw [show digitsValue [c] = 0 * 10 + digitOf c from rfl, List.singleton_append] at hvalue
  exact ⟨c, more, rfl, hc, hlen', hmore, by omega, by omega⟩

/-- Sixteen digits that are an integer of 53 bits. -/
lemma intFold_exact_zero {a : List UInt8} (h : digitsValue a < 2 ^ 53) : intFold 0 a = digitsValue a := by
  have hexact := @intFold_exact 0 a h
  rwa [Nat.cast_zero] at hexact

lemma is_below : Is 1844674407370954 1844674407370954 :=
  @is_of_unpack _ (1844674407370954 * 2 ^ 2) (-2) (by norm_num) _ rfl (by norm_num)

lemma is_at : Is 1844674407370955 1844674407370955 :=
  @is_of_unpack _ (1844674407370955 * 2 ^ 2) (-2) (by norm_num) _ rfl (by norm_num)

lemma is_above : Is 1844674407370956 1844674407370956 :=
  @is_of_unpack _ (1844674407370956 * 2 ^ 2) (-2) (by norm_num) _ rfl (by norm_num)

/-- The digits of an integer do not start with a zero, unless they are one. -/
def Leading (int : List UInt8) : Prop := int = [48] ∨ ∃ c more, int = c :: more ∧ c ≠ 48

lemma Leading.pow_le {int : List UInt8} (h : Leading int) (hdigits : ∀ c ∈ int, isDigit c) {n : ℕ}
    (hn : 0 < n) (hlen : n < int.length) : 10 ^ n ≤ digitsValue int := by
  obtain rfl | ⟨c, more, rfl, hne⟩ := h
  · rw [List.length_singleton] at hlen
    omega
  · obtain ⟨hc, -⟩ := List.forall_mem_cons.mp hdigits
    have hvalue := digitsValue_append [c] more
    rw [show digitsValue [c] = 0 * 10 + digitOf c from rfl, List.singleton_append] at hvalue
    have hone := one_le_digitOf hc hne
    rw [List.length_cons] at hlen
    have hpow : 10 ^ n ≤ 10 ^ more.length := Nat.pow_le_pow_right (by norm_num) (by omega)
    calc 10 ^ n ≤ 1 * 10 ^ more.length := by rwa [one_mul]
      _ ≤ (0 * 10 + digitOf c) * 10 ^ more.length := Nat.mul_le_mul_right _ (by omega)
      _ ≤ digitsValue (c :: more) := by
          rw [hvalue]
          exact Nat.le_add_right _ _

/-- Digits below `18446744073709553000` are read as at most `2 ^ 64`. -/
lemma intFold_le {int : List UInt8} (h : Leading int) (hdigits : ∀ c ∈ int, isDigit c)
    (hlt : digitsValue int < 18446744073709553000) : intFold 0 int ≤ 2 ^ 64 := by
  rcases Nat.lt_trichotomy int.length 20 with hlen | hlen | hlen
  · exact intFold_le_of_short hdigits (by omega)
  · obtain ⟨a, b, rfl, ha, hb, hda, hdb, hvalue⟩ := exists_split hdigits hlen
    obtain ⟨c, more, rfl, hc, hmore, hdmore, hlo, hhi⟩ := exists_thousands hdb hb
    have ha' : digitsValue a ≤ 1844674407370955 := by omega
    rw [intFold_append, intFold_exact_zero (by omega)]
    rcases Nat.lt_or_ge (digitsValue a) 1844674407370955 with hless | hge
    · have hcast : (digitsValue a : ℚ) ≤ 1844674407370954 := by exact_mod_cast Nat.le_of_lt_succ hless
      have hmono := intFold_mono (Nat.cast_nonneg _) hcast (forall₂_nines hdb)
      rw [hb] at hmono
      exact hmono.trans (intFold_le_pow64 is_below (by norm_num) (by decide) (isDigit_nines 4)
        floatFold_le_runs.2.1)
    · have heq : digitsValue a = 1844674407370955 := by omega
      have htwo : digitOf c ≤ digitOf 50 := by
        rw [show digitOf 50 = 2 from rfl]
        omega
      have hmono := @intFold_mono 1844674407370955 1844674407370955 (c :: more)
          (50 :: List.replicate 3 57)
        (by norm_num) le_rfl (.cons htwo (hmore ▸ forall₂_nines hdmore))
      rw [heq]
      push_cast
      exact hmono.trans (intFold_le_pow64 is_at (by norm_num) (by decide) (digits_of_all rfl)
        floatFold_le_runs.2.2)
  · have hpow := h.pow_le hdigits (show 0 < 20 by norm_num) hlen
    omega

/-- Other digits are read as more. -/
lemma lt_intFold {int : List UInt8} (h : Leading int) (hdigits : ∀ c ∈ int, isDigit c)
    (hmax : int.length ≤ 21) (hle : 18446744073709553000 ≤ digitsValue int) : 2 ^ 64 < intFold 0 int := by
  have hbound := digitsValue_lt hdigits
  rcases Nat.lt_trichotomy int.length 20 with hlen | hlen | hlen
  · have hpow : 10 ^ int.length ≤ 10 ^ 19 := Nat.pow_le_pow_right (by norm_num) (by omega)
    omega
  · obtain ⟨a, b, rfl, ha, hb, hda, hdb, hvalue⟩ := exists_split hdigits hlen
    obtain ⟨c, more, rfl, hc, hmore, hdmore, hlo, hhi⟩ := exists_thousands hdb hb
    have hltb := digitsValue_lt hdb
    rw [hb] at hltb
    rw [intFold_append]
    rcases Nat.lt_or_ge (digitsValue a) 1844674407370956 with hless | hge
    · have heq : digitsValue a = 1844674407370955 := by omega
      have hthree : digitOf 51 ≤ digitOf c := by
        rw [show digitOf 51 = 3 from rfl]
        omega
      have hmono := @intFold_mono 1844674407370955 1844674407370955 (51 :: List.replicate 3 48)
          (c :: more)
        (by norm_num) le_rfl (.cons hthree (hmore ▸ forall₂_zeros more))
      rw [intFold_exact_zero (by omega), heq]
      push_cast
      exact (pow64_lt_intFold is_at (by norm_num) (by decide) (digits_of_all rfl)
        lt_floatFold_runs.1).trans_le hmono
    · have hfirst : 1844674407370956 ≤ intFold 0 a := by
        rcases Nat.lt_or_ge (digitsValue a) (2 ^ 53) with hexact | hlarge
        · rw [intFold_exact_zero hexact]
          exact_mod_cast hge
        · -- the first fifteen digits are exact, and large enough
          obtain ⟨a', d, rfl⟩ : ∃ a' d, a = a' ++ [d] := ⟨a.dropLast, a.getLast (by
            rintro rfl
            cases ha), (List.dropLast_append_getLast _).symm⟩
          have hsplit := digitsValue_append a' [d]
          obtain ⟨hda', hd⟩ := List.forall_mem_append.mp hda
          rw [List.forall_mem_singleton] at hd
          have hd9 := digitOf_le hd
          rw [show digitsValue [d] = 0 * 10 + digitOf d from rfl, List.length_singleton] at hsplit
          have hlt15 := digitsValue_lt hda'
          rw [List.length_append, List.length_singleton] at ha
          rw [show a'.length = 15 by omega] at hlt15
          have hten : (1844674407370956 : ℚ) ≤ digitsValue a' * 10 := by
            have hnat : 1844674407370956 ≤ digitsValue a' * 10 := by omega
            exact_mod_cast hnat
          have hround : 1844674407370956 ≤ rnd (digitsValue a' * 10 : ℚ) :=
            le_rnd is_above.representable (by norm_num) hten
          have hdigit : (0 : ℚ) ≤ digitOf d := Nat.cast_nonneg _
          rw [intFold_append, intFold_exact_zero (by omega)]
          exact le_rnd is_above.representable (by norm_num) (by linarith)
      have hmono := intFold_mono (by norm_num) hfirst (forall₂_zeros (c :: more))
      rw [hb] at hmono
      exact (pow64_lt_intFold is_above (by norm_num) (by decide) (isDigit_zeros 4)
        lt_floatFold_runs.2.1).trans_le hmono
  · obtain rfl | ⟨c, more, rfl, hne⟩ := h
    · rw [List.length_singleton] at hlen
      omega
    · obtain ⟨hc, hdmore⟩ := List.forall_mem_cons.mp hdigits
      have hone : digitOf 49 ≤ digitOf c := one_le_digitOf hc hne
      have hlen' : more.length = 20 := by
        rw [List.length_cons] at hlen hmax
        omega
      have hmono := @intFold_mono 0 0 (49 :: List.replicate 20 48) (c :: more) le_rfl le_rfl
        (.cons hone (hlen' ▸ forall₂_zeros more))
      exact (pow64_lt_intFold is_zero (by norm_num) (by decide) (digits_of_all rfl)
        lt_floatFold_runs.2.2).trans_le hmono

/-! ## Runs of the parser -/

lemma takeWhile_digits {digits r : List UInt8} (hdigits : ∀ c ∈ digits, isDigit c) (hr : NoDigit r) :
    (digits ++ r).takeWhile isJsonDigit = digits ∧ (digits ++ r).dropWhile isJsonDigit = r := by
  have hall : ∀ c ∈ digits, isJsonDigit c = true := fun c hc => (isJsonDigit_iff c).mpr (hdigits c hc)
  rw [List.takeWhile_append_of_pos hall, List.dropWhile_append_of_pos hall]
  cases r with
  | nil => exact ⟨List.append_nil _, rfl⟩
  | cons c r =>
    have hc : ¬ isJsonDigit c = true := fun h => hr c rfl ((isJsonDigit_iff c).mp h)
    rw [List.takeWhile_cons_of_neg hc, List.dropWhile_cons_of_neg hc]
    exact ⟨List.append_nil _, rfl⟩

/-- The integer part. -/
lemma parseInt_digits {int r : List UInt8} (h : Leading int) (hdigits : ∀ c ∈ int, isDigit c)
    (hlen : int.length ≤ 21) (hr : NoDigit r) :
    ∃ v, parseInt (int ++ r) = some (v, r) ∧ Is v (intFold 0 int) := by
  obtain rfl | ⟨c, more, rfl, hne⟩ := h
  · refine ⟨0, rfl, ?_⟩
    rw [intFold_exact_zero (by decide)]
    exact is_zero
  · obtain ⟨hc, hmore⟩ := List.forall_mem_cons.mp hdigits
    have hlo : (49 : UInt8) ≤ c := by
      have hone := one_le_digitOf hc hne
      unfold digitOf at hone
      exact UInt8.le_iff_toNat_le.mpr (show 49 ≤ c.toNat by omega)
    obtain ⟨htake, hdrop⟩ := takeWhile_digits hmore hr
    refine ⟨floatFold 0 (c :: more), ?_, is_floatFold is_zero (by norm_num) hlen hdigits⟩
    rw [List.cons_append, parseInt, if_neg hne, if_pos ⟨hlo, hc.2⟩, htake, hdrop]
    rfl

lemma noDigit_point {frac r : List UInt8} (hr : NoDigit r) : NoDigit (point frac ++ r) := by
  by_cases hfrac : frac = []
  · rw [point, if_pos hfrac]
    exact hr
  · rw [point_of_ne hfrac]
    intro c hc
    cases hc
    decide

/-- The fraction. -/
lemma parseFrac_point {v : Float} {q : ℚ} {frac r : List UInt8} (hv : Is v q) (hq : q ≤ 2 ^ 100)
    (hdigits : ∀ c ∈ frac, isDigit c) (hr : NoDigit r) (hdot : r.head? ≠ some 46) :
    ∃ w, parseFrac v (point frac ++ r) = some (w, r) ∧ Is w (fracFold (q, tenth) frac).1 := by
  by_cases hfrac : frac = []
  · subst hfrac
    refine ⟨v, ?_, hv⟩
    rw [point, if_pos rfl, List.nil_append]
    unfold parseFrac
    split
    · exact absurd rfl hdot
    · rfl
  · obtain ⟨c, more, rfl⟩ := List.exists_cons_of_ne_nil hfrac
    obtain ⟨htake, hdrop⟩ := takeWhile_digits hdigits hr
    have hhead : (((c :: more) ++ r).head?.map isJsonDigit).getD false = true :=
      (head_isDigit_iff _).mpr ⟨c, more ++ r, rfl, hdigits c List.mem_cons_self⟩
    refine ⟨_, ?_, (is_fracFold hv is_tenth (by norm_num) (by norm_num) hq tenth_le_one hdigits).1⟩
    rw [point_of_ne hfrac, List.cons_append, parseFrac, if_pos hhead, htake, hdrop]

/-- The value that is read for an integer part and a fraction. -/
def plainValue (int frac : List UInt8) : ℚ := (fracFold (intFold 0 int, tenth) frac).1

lemma intFold_le_pow100 {int : List UInt8} (hdigits : ∀ c ∈ int, isDigit c) (hlen : int.length ≤ 21) :
    intFold 0 int ≤ 2 ^ 100 := by
  have hle := (is_intFold is_zero (show (0 : ℚ) ≤ 2 ^ 1 by norm_num) le_rfl (by omega) hdigits).2
  exact hle.trans (pow_le_pow_right₀ one_le_two (by omega))

lemma representable_intFold {int : List UInt8} (hdigits : ∀ c ∈ int, isDigit c) (hlen : int.length ≤ 21) :
    Representable (intFold 0 int) := (is_floatFold is_zero (by norm_num) hlen hdigits).representable

/-- An integer part and a fraction, in front of anything. -/
lemma parse_point {int frac r : List UInt8} (h : Leading int) (hint : ∀ c ∈ int, isDigit c)
    (hlen : int.length ≤ 21) (hfrac : ∀ c ∈ frac, isDigit c) (hr : NoDigit r) (hdot : r.head? ≠ some 46) :
    ∃ v, parseNumber (int ++ (point frac ++ r)) = parseExp v r ∧ Is v (plainValue int frac) := by
  obtain ⟨v, hparse, hv⟩ := parseInt_digits h hint hlen (noDigit_point hr)
  obtain ⟨w, hparse', hw⟩ := parseFrac_point hv (intFold_le_pow100 hint hlen) hfrac hr hdot
  have hminus : ¬ (int ++ (point frac ++ r)).head? = some 45 := by
    obtain rfl | ⟨c, more, rfl, -⟩ := h
    · exact fun hhead => by cases hhead
    · rintro ⟨⟩
      exact absurd (hint 45 List.mem_cons_self) (by decide)
  refine ⟨w, ?_, hw⟩
  rw [parseNumber, if_neg hminus, hparse]
  simp only [Option.bind_eq_bind, Option.bind_some, hparse', if_neg hminus]
  exact Option.bind_fun_some _

/-- A text without an exponent. -/
lemma parse_plain {int frac r : List UInt8} (h : Leading int) (hint : ∀ c ∈ int, isDigit c)
    (hlen : int.length ≤ 21) (hfrac : ∀ c ∈ frac, isDigit c) (hr : NumberEnd r) :
    ∃ v, parseNumber (int ++ (point frac ++ r)) = some (v, r) ∧ Is v (plainValue int frac) := by
  obtain ⟨v, hparse, hv⟩ := parse_point h hint hlen hfrac hr.digit hr.dot
  refine ⟨v, ?_, hv⟩
  rw [hparse]
  cases r with
  | nil => rfl
  | cons c r => rw [parseExp, if_neg (hr.exp c rfl)]

/-- The exponent loop stops at an exponent above three hundred. -/
lemma expLoop_digits {exp : ℕ} {digits r : List UInt8} (hexp : exp ≤ 300)
    (hdigits : ∀ c ∈ digits, isDigit c)
    (hr : NoDigit r) :
    expLoop exp (digits ++ r) = if natFold exp digits ≤ 300 then some (natFold exp digits, r)
      else none := by
  induction digits generalizing exp with
  | nil =>
    rw [List.nil_append, show natFold exp [] = exp from rfl, if_pos hexp]
    cases r with
    | nil => rfl
    | cons c r => rw [expLoop, if_neg fun hc => hr c rfl ((isJsonDigit_iff c).mp hc)]
  | cons c digits ih =>
    obtain ⟨hc, hdigits⟩ := List.forall_mem_cons.mp hdigits
    rw [List.cons_append, expLoop, if_pos ((isJsonDigit_iff c).mpr hc)]
    have hnext := le_natFold (exp * 10 + (c.toNat - 48)) digits
    rw [show natFold exp (c :: digits) = natFold (exp * 10 + (c.toNat - 48)) digits from rfl]
    by_cases hlarge : 300 < exp * 10 + (c.toNat - 48)
    · rw [if_pos hlarge, if_neg (by omega)]
    · rw [if_neg hlarge]
      exact ih (by omega) hdigits

/-- The factor of an exponent. -/
def powTen (neg : Bool) (exp : ℕ) : Float :=
    Float.pow 10 (if neg then -Float.ofNat exp else Float.ofNat exp)

/-- A text with an exponent. -/
lemma parse_exponent {c : UInt8} {frac r : List UInt8} {neg : Bool} {exp : ℕ} (hc : isDigit c)
    (hne : c ≠ 48)
    (hfrac : ∀ c ∈ frac, isDigit c) (hexp : exp ≠ 0) (hr : NumberEnd r) :
    ∃ v q, Is v q ∧ 1 ≤ q ∧ q ≤ 16 ∧
      parseNumber (c :: (point frac ++ 101 :: (if neg then 45 else 43) :: (Printf.decimal exp ++ r))) =
        if exp ≤ 300 then some (v * powTen neg exp, r) else none := by
  have hsingle : ∀ d ∈ [c], isDigit d := by rwa [List.forall_mem_singleton]
  obtain ⟨v, hparse, hv⟩ := @parse_point [c] frac
    (101 :: (if neg then 45 else 43) :: (Printf.decimal exp ++ r)) (Or.inr ⟨c, [], rfl, hne⟩)
    hsingle (by norm_num) hfrac (fun d hd => by cases hd; decide) (by rintro ⟨⟩)
  have hdigit : intFold 0 [c] = digitOf c := by
    have h9 := digitOf_le hc
    rw [intFold_exact_zero (by rw [show digitsValue [c] = 0 * 10 + digitOf c from rfl]; omega)]
    rw [show digitsValue [c] = 0 * 10 + digitOf c from rfl, Nat.zero_mul, Nat.zero_add]
  have hone : (1 : ℚ) ≤ intFold 0 [c] := one_le_intFold hc hne []
  have hnine : intFold 0 [c] ≤ 9 := by
    rw [hdigit]
    exact_mod_cast digitOf_le hc
  have hrep := representable_intFold hsingle (show [c].length ≤ 21 by norm_num)
  have hgrow := (fracFold_spec frac (zero_le_one.trans hone) hrep tenth_pos.le is_tenth.representable).1.1
  refine ⟨v, _, hv, hone.trans hgrow, frac_le_sixteen (zero_le_one.trans hone) hrep hnine hfrac, ?_⟩
  rw [List.singleton_append] at hparse
  have hdecimal : natFold 0 (Printf.decimal exp) = exp := Lexing.digitsValue_decimal exp
  have hall := NumberText.isDigit_decimal exp
  obtain ⟨d, more, hd, -⟩ := Printf.decimal_head (Nat.pos_of_ne_zero hexp)
  have hhead : (((Printf.decimal exp ++ r).head?.map isJsonDigit)).getD false = true := by
    refine (head_isDigit_iff _).mpr ⟨d, more ++ r, by rw [hd]; rfl, hall d ?_⟩
    rw [hd]
    exact List.mem_cons_self
  have hsign : parseExpSign ((if neg then 45 else 43) :: (Printf.decimal exp ++ r)) =
      (neg, Printf.decimal exp ++ r) := by
    cases neg <;> rfl
  rw [hparse, parseExp, if_pos (Or.inl rfl), hsign]
  dsimp only
  rw [if_pos hhead, expLoop_digits (Nat.zero_le _) hall hr.digit, hdecimal]
  by_cases hsmall : exp ≤ 300
  · rw [if_pos hsmall, if_pos hsmall]
    dsimp only
    rw [if_neg hexp]
    rfl
  · rw [if_neg hsmall, if_neg hsmall]

/-! ## Printed numbers -/

/-- A nonnegative number is not below minus one. -/
lemma not_lt_neg_one {v : Float} {q : ℚ} (h : Is v q) : ¬ v < -1 := by
  have hrun : v < -1 ↔
      (Float.Model.UnpackedFloat.compare v.toModel.unpack (-1 : Float).toModel.unpack == some .lt) =
      true := by
    change (decide (v.toModel < (-1 : Float).toModel)) = true ↔ _
    rw [decide_eq_true_eq]
    rfl
  rw [hrun]
  obtain ⟨hv, -⟩ | ⟨m, e, hm, hv, -⟩ := h
  · rw [hv]
    exact Bool.false_ne_true
  · rw [hv]
    exact Bool.false_ne_true

/-- The text of a decimal is read as its digits, or as digits and a factor. -/
lemma parse_decimal (d : Decimal) {r : List UInt8} (hr : NumberEnd r) :
    (-5 ≤ d.n ∧ d.n ≤ 21 ∧ ∃ int frac v, Positional d int frac ∧ parseNumber (d.text ++ r) = some (v, r) ∧
        Is v (plainValue int frac)) ∨
      (¬ (-5 ≤ d.n ∧ d.n ≤ 21) ∧ 101 ∈ d.text ∧ ∃ v q, Is v q ∧ 1 ≤ q ∧ q ≤ 16 ∧
        parseNumber (d.text ++ r) = if (d.n - 1).natAbs ≤ 300
          then some (v * powTen (d.n < 0) (d.n - 1).natAbs, r) else none) := by
  by_cases hn : -5 ≤ d.n ∧ d.n ≤ 21
  · obtain ⟨int, frac, hplain⟩ := exists_plain d hn.1 hn.2
    obtain ⟨v, hparse, hv⟩ := parse_plain hplain.head hplain.int_digits hplain.int_length
      hplain.frac_digits hr
    refine Or.inl ⟨hn.1, hn.2, int, frac, v, hplain, ?_, hv⟩
    rw [hplain.text, List.append_assoc, hparse]
  · obtain ⟨c, frac, hc, hne, hfrac, htext⟩ := text_exponent d hn
    obtain ⟨v, q, hv, hone, hsixteen, hparse⟩ :=
        @parse_exponent c frac r (d.n < 0) (d.n - 1).natAbs hc hne
      hfrac (by omega) hr
    refine Or.inr ⟨hn, ?_, v, q, hv, hone, hsixteen, ?_⟩
    · rw [htext]
      exact List.mem_cons_of_mem _ (List.mem_append_right _ List.mem_cons_self)
    · rw [← hparse, htext]
      simp only [List.cons_append, List.append_assoc, decide_eq_true_eq]

/-- The factor of an exponent is a number that is the power of ten, up to a factor of two. -/
def PowAccurate (neg : Bool) (exp : ℕ) : Prop :=
  ∃ q : ℚ, Is (powTen neg exp) q ∧ 10 ^ (if neg then -(exp : ℤ) else exp) ≤ 2 * q ∧
    q ≤ 2 * 10 ^ (if neg then -(exp : ℤ) else exp)

/-- The product of digits and a factor is a number. -/
lemma is_product {v : Float} {q : ℚ} {neg : Bool} {exp : ℕ} (hv : Is v q) (hone : 1 ≤ q) (hq : q ≤ 16)
    (hexp : exp ≤ 300) (hpow : PowAccurate neg exp) :
    ∃ p : ℚ, Is (v * powTen neg exp) p ∧ rnd (10 ^ (if neg then -(exp : ℤ) else exp) / 2) ≤ p := by
  obtain ⟨f, hf, hlo, hhi⟩ := hpow
  have hten : (10 : ℚ) ^ (if neg then -(exp : ℤ) else exp) ≤ 10 ^ (300 : ℤ) := by
    refine zpow_le_zpow_right₀ (by norm_num) ?_
    split_ifs <;> omega
  have hpos : (0 : ℚ) < 10 ^ (if neg then -(exp : ℤ) else exp) := zpow_pos (by norm_num) _
  have hthousand : (10 : ℚ) ^ (300 : ℤ) ≤ (2 ^ 10) ^ 100 := by
    calc (10 : ℚ) ^ (300 : ℤ) = (10 ^ 3) ^ 100 := by
          rw [← pow_mul]
          exact zpow_natCast 10 300
      _ ≤ (2 ^ 10) ^ 100 := pow_le_pow_left₀ (by norm_num) (by norm_num) 100
  have hmul : q * f ≤ 2 ^ 1005 := by
    calc q * f ≤ 16 * (2 * 10 ^ (300 : ℤ)) :=
          mul_le_mul hq (hhi.trans (mul_le_mul_of_nonneg_left hten (by norm_num))) hf.nonneg (by norm_num)
      _ = 2 ^ 5 * 10 ^ (300 : ℤ) := by
          rw [← mul_assoc]
          norm_num
      _ ≤ 2 ^ 5 * (2 ^ 10) ^ 100 := mul_le_mul_of_nonneg_left hthousand (by norm_num)
      _ = 2 ^ 1005 := by rw [← pow_mul, ← pow_add]
  have hnonneg : 0 ≤ q * f := mul_nonneg hv.nonneg hf.nonneg
  have hrep : Representable (2 ^ 1005) := ⟨1, 1005, by norm_num, by norm_num, by norm_num⟩
  have hfinite : rnd (q * f) < 2 ^ 1024 :=
    (rnd_le hnonneg hmul hrep).trans_lt (pow_lt_pow_right₀ one_lt_two (by norm_num))
  refine ⟨_, hv.mul hf hfinite, rnd_mono (by linarith) ?_⟩
  have hle : f ≤ q * f := le_mul_of_one_le_left hf.nonneg hone
  linarith

/-! ## Numbers between bounds -/

lemma gap_hundredth : rnd (9 * 10 ^ ((-2 : ℤ) - 1)) < rnd (10 ^ (-2 : ℤ)) :=
  @gap_of (-2) (38 / 4096) (39 / 4096) ⟨38, -12, by norm_num, by norm_num, by norm_num⟩
    ⟨39, -12, by norm_num, by norm_num, by norm_num⟩ (by norm_num) (by norm_num) (by norm_num)
    (by norm_num)

/-- `1e-300` lies between two floats. -/
lemma tiny_bounds : 9 * 10 ^ ((-300 : ℤ) - 1) ≤ (1300 * 2 ^ (-1007 : ℤ) : ℚ) ∧
    (1371 * 2 ^ (-1007 : ℤ) : ℚ) ≤ 10 ^ (-300 : ℤ) := by
  have hlo : 9 * 2 ^ 1007 ≤ 1300 * 10 ^ 301 := by decide +kernel
  have hhi : 1371 * 10 ^ 300 ≤ 1 * 2 ^ 1007 := by decide +kernel
  have hinv : ∀ (b : ℚ) (n : ℕ), b ^ (-n : ℤ) = 1 / b ^ n :=
      fun b n => by rw [zpow_neg, one_div, zpow_natCast]
  have hpos : ∀ n : ℕ, (0 : ℚ) < 2 ^ n := pow_pos two_pos
  have hpos' : ∀ n : ℕ, (0 : ℚ) < 10 ^ n := pow_pos (by norm_num)
  rw [show (-300 : ℤ) - 1 = -(301 : ℕ) from rfl, show (-300 : ℤ) = -(300 : ℕ) from rfl,
    show (-1007 : ℤ) = -(1007 : ℕ) from rfl, hinv, hinv, hinv, mul_one_div, mul_one_div, mul_one_div,
    div_le_div_iff₀ (hpos' _) (hpos _), div_le_div_iff₀ (hpos _) (hpos' _)]
  exact ⟨by exact_mod_cast hlo, by exact_mod_cast hhi⟩

lemma gap_tiny : rnd (9 * 10 ^ ((-300 : ℤ) - 1)) < rnd (10 ^ (-300 : ℤ)) :=
  gap_of ⟨1300, -1007, by norm_num, by norm_num, rfl⟩ ⟨1371, -1007, by norm_num, by norm_num, rfl⟩
    tiny_bounds.1 (mul_nonneg (by norm_num) (two_zpow_pos _).le)
    (mul_lt_mul_of_pos_right (by norm_num) (two_zpow_pos _)) tiny_bounds.2

/-- The text of zero is read as zero. -/
lemma parse_zero {text r : List UInt8} (h : Prints 0 text) (hr : NumberEnd r) :
    ∃ v, parseNumber (text ++ r) = some (v, r) ∧ Is v 0 := by
  obtain ⟨-, rfl⟩ | ⟨hpos, -⟩ | ⟨hneg, -⟩ := h
  · obtain ⟨v, hparse, hv⟩ := @parse_plain [48] [] r (Or.inl rfl)
      (digits_of_all rfl) (by decide) (List.forall_mem_nil _) hr
    refine ⟨v, hparse, ?_⟩
    have hzero : plainValue [48] [] = 0 := intFold_exact_zero (by decide)
    rwa [hzero] at hv
  · exact absurd hpos (lt_irrefl _)
  · exact absurd hneg (lt_irrefl _)

lemma Leading.eq_zero {int : List UInt8} (h : Leading int) (hdigits : ∀ c ∈ int, isDigit c)
    (hvalue : digitsValue int < 1) : int = [48] := by
  obtain rfl | ⟨c, more, rfl, hne⟩ := h
  · rfl
  · have hone := one_le_digitOf (hdigits c List.mem_cons_self) hne
    have happend := digitsValue_append [c] more
    rw [show digitsValue [c] = 0 * 10 + digitOf c from rfl, List.singleton_append] at happend
    have hpos : 0 < (0 * 10 + digitOf c) * 10 ^ more.length := Nat.mul_pos (by omega) (by positivity)
    omega

/-- An integer part that is at least one is read as at least one, whatever the fraction. -/
lemma one_le_plainValue {d : Decimal} {int frac : List UInt8} (h : Positional d int frac) (hd : 1 ≤ d.value) :
    intFold 0 int ≤ plainValue int frac ∧ 1 ≤ intFold 0 int := by
  have hone : 1 ≤ intFold 0 int := by
    obtain rfl | ⟨c, more, rfl, hne⟩ := h.head
    · have hlt := h.lt_int
      rw [show digitsValue [48] = 0 from rfl, Nat.cast_zero, zero_add] at hlt
      exact absurd hd (not_le.mpr hlt)
    · exact one_le_intFold (h.int_digits c List.mem_cons_self) hne more
  have hrep := representable_intFold h.int_digits h.int_length
  exact ⟨(fracFold_spec frac (zero_le_one.trans hone) hrep tenth_pos.le is_tenth.representable).1.1, hone⟩

/-- A number that is at least one is read as at least one. -/
lemma read_count {x : ℚ} {text r : List UInt8} (h : Prints x text) (hone : 1 ≤ x) (hmax : x < 10 ^ 4)
    (hr : NumberEnd r) : ∃ v q, parseNumber (text ++ r) = some (v, r) ∧ Is v q ∧ 1 ≤ q := by
  obtain ⟨d, hd, rfl⟩ := h.exists_decimal (zero_lt_one.trans_le hone)
  have hvalue : (10 : ℚ) ^ (0 : ℤ) ≤ d.value := hd.pow_le_value gap_zero (by
    rw [zpow_zero, rnd_of_representable representable_one]
    exact hone)
  have hn := d.lt_n_of_le hvalue
  rw [zpow_zero] at hvalue
  have hlt : d.value < 10 ^ (4 : ℤ) :=
    hd.value_lt ⟨10 ^ 4, 0, by norm_num, by norm_num, by norm_num⟩ (by norm_num) hmax
  have hn' := d.n_le_of_lt hlt
  obtain ⟨-, -, int, frac, v, hplain, hparse, hv⟩ | ⟨hexp, -⟩ := parse_decimal d hr
  · obtain ⟨hle, hint⟩ := one_le_plainValue hplain hvalue
    exact ⟨v, _, hparse, hv, hint.trans hle⟩
  · exact absurd ⟨by omega, by omega⟩ hexp

/-- A share is read as a share. -/
lemma read_share {x : ℚ} {text r : List UInt8} (h : Prints x text) (hlo : rnd (5 / 100) ≤ x) (hhi : x ≤ 1)
    (hr : NumberEnd r) : ∃ v q, parseNumber (text ++ r) = some (v, r) ∧ Is v q ∧ 0 < q ∧ q ≤ 1 := by
  have hsmall : Representable (1 / 32) := ⟨1, -5, by norm_num, by norm_num, by norm_num⟩
  have hfloat : 1 / 32 ≤ rnd (5 / 100) := le_rnd hsmall (by norm_num) (by norm_num)
  obtain ⟨d, hd, rfl⟩ := h.exists_decimal (lt_of_lt_of_le (by norm_num) (hfloat.trans hlo))
  rcases hhi.lt_or_eq with hlt | rfl
  · have hvalue := hd.value_lt representable_one zero_le_one hlt
    have htenth : rnd (10 ^ (-2 : ℤ)) ≤ x :=
      (rnd_le (by norm_num) (by norm_num) hsmall).trans (hfloat.trans hlo)
    have hge := hd.pow_le_value gap_hundredth htenth
    have hn := d.lt_n_of_le hge
    have hn' := d.n_le_of_lt (show d.value < 10 ^ (0 : ℤ) by rwa [zpow_zero])
    obtain ⟨-, -, int, frac, v, hplain, hparse, hv⟩ | ⟨hexp, -⟩ := parse_decimal d hr
    · have hint : int = [48] := by
        refine Leading.eq_zero hplain.head hplain.int_digits ?_
        have hle := hplain.int_le.trans_lt hvalue
        exact_mod_cast hle
      have hzero : intFold 0 [48] = 0 := intFold_exact_zero (by decide)
      rw [hint, plainValue, hzero] at hv
      refine ⟨v, _, hparse, hv, ?_, frac_le_one hplain.frac_digits⟩
      exact frac_pos le_rfl representable_zero hplain.frac_digits
        (hplain.frac_head hvalue (by rw [zpow_neg] at hge; norm_num at hge ⊢; linarith))
    · exact absurd ⟨by omega, by omega⟩ hexp
  · rw [hd.text_one]
    obtain ⟨v, hparse, hv⟩ := @parse_plain [49] [] r (Or.inr ⟨49, [], rfl, by decide⟩)
      (digits_of_all rfl) (by decide) (List.forall_mem_nil _) hr
    have hvalue : plainValue [49] [] = 1 := by
      have hexact := @intFold_exact_zero [49] (by decide)
      rw [show digitsValue [49] = 1 from rfl, Nat.cast_one] at hexact
      exact hexact
    rw [hvalue] at hv
    exact ⟨v, 1, hparse, hv, one_pos, le_rfl⟩

/-- A temperature is read as a nonnegative number, unless its exponent is too large. -/
lemma read_temperature {x : ℚ} {text r : List UInt8} (h : Prints x text) (hlo : 0 ≤ x) (hhi : x < 10)
    (hr : NumberEnd r) (hpow : 101 ∈ text → ∀ exp ≤ 300, PowAccurate true exp) :
    ((x = 0 ∨ rnd (10 ^ (-300 : ℤ)) ≤ x) → ∃ v q, parseNumber (text ++ r) = some (v, r) ∧ Is v q) ∧
      (¬ (x = 0 ∨ rnd (10 ^ (-300 : ℤ)) ≤ x) → parseNumber (text ++ r) = none) := by
  rcases hlo.eq_or_lt with rfl | hpos
  · obtain ⟨v, hparse, hv⟩ := parse_zero h hr
    exact ⟨fun _ => ⟨v, 0, hparse, hv⟩, fun hne => absurd (Or.inl rfl) hne⟩
  · obtain ⟨d, hd, rfl⟩ := h.exists_decimal hpos
    have hlt : d.value < 10 ^ (1 : ℤ) :=
      hd.value_lt ⟨10, 0, by norm_num, by norm_num, by norm_num⟩ (by norm_num) (by rwa [zpow_one])
    have hn := d.n_le_of_lt hlt
    have hiff : rnd (10 ^ (-300 : ℤ)) ≤ x ↔ -299 ≤ d.n := by
      constructor
      · intro hge
        have := d.lt_n_of_le (hd.pow_le_value gap_tiny hge)
        omega
      · intro hge
        have hpow : (10 : ℚ) ^ (-300 : ℤ) ≤ 10 ^ (d.n - 1) := zpow_le_zpow_right₀ (by norm_num) (by omega)
        rw [← hd.rounds]
        exact rnd_mono (zpow_pos (by norm_num) _).le (hpow.trans d.value_bounds.1)
    obtain ⟨hlow, -, int, frac, v, hplain, hparse, hv⟩ | ⟨hexp, hmem, v, q, hv, hone, hsixteen, hparse⟩ :=
      parse_decimal d hr
    · exact ⟨fun _ => ⟨v, _, hparse, hv⟩,
        fun hne => absurd (Or.inr (hiff.mpr (by omega))) hne⟩
    · have hneg : d.n < 0 := by omega
      have hbound : (d.n - 1).natAbs ≤ 300 ↔ -299 ≤ d.n := by omega
      rw [hparse]
      constructor
      · rintro (rfl | hge)
        · exact absurd hpos (lt_irrefl _)
        · have hexp300 := hbound.mpr (hiff.mp hge)
          rw [if_pos hexp300, decide_eq_true hneg]
          obtain ⟨p, hp, -⟩ := is_product hv hone hsixteen hexp300 (hpow hmem _ hexp300)
          exact ⟨_, p, rfl, hp⟩
      · intro hne
        rw [if_neg fun hexp300 => hne (Or.inr (hiff.mpr (hbound.mp hexp300)))]

/-! ## Numbers around `2 ^ 64` -/

lemma representable_pow64 : Representable (2 ^ 64) := is_pow64.representable

/-- Half a place above `2 ^ 64` is rounded down. -/
lemma rnd_half_above : rnd (2 ^ 64 + 2048) = 2 ^ 64 := by
  have hplace : lastPlace (2 ^ 64 + 2048) = 12 :=
      lastPlace_of_le (by norm_num) (by norm_num) (by norm_num)
  have hfloor : ⌊((2 ^ 64 + 2048) / 2 ^ (12 : ℤ) : ℚ)⌋ = 2 ^ 52 := by
    rw [Int.floor_eq_iff]
    norm_num
  rw [rnd, hplace, roundEven, hfloor, if_neg (by norm_num), if_neg (by norm_num)]
  norm_num

/-- The decimal of a number above `2 ^ 64` is more than half a place above it. -/
lemma lt_value_of_pow64_lt {x : ℚ} {d : Decimal} (h : Shortest x d) (hx : 2 ^ 64 < x) :
    2 ^ 64 + 2048 < d.value := by
  by_contra hle
  have hround := rnd_mono d.value_pos.le (not_lt.mp hle)
  rw [h.rounds, rnd_half_above] at hround
  exact absurd hx (not_lt.mpr hround)

/-- The decimal of `2 ^ 64` is `18446744073709552000`, or at least not above it by a thousand. -/
lemma value_lt_of_shortest_pow64 {d : Decimal} (h : Shortest (2 ^ 64) d) :
    d.value < 18446744073709553000 := by
  by_contra hge
  have hge := not_lt.mp hge
  -- seventeen digits suffice, and with seventeen digits there is a closer decimal
  let near : Decimal := ⟨18446744073709552, 17, 20, by norm_num, by norm_num, by norm_num⟩
  have hvalue : near.value = 18446744073709552000 := by
    rw [Decimal.value]
    norm_num [near]
  have hnear : rnd near.value = 2 ^ 64 := by
    rw [hvalue]
    refine le_antisymm ?_ (le_rnd representable_pow64 (by norm_num) (by norm_num))
    rw [← rnd_half_above]
    exact rnd_mono (by norm_num) (by norm_num)
  have hk : d.k ≤ 17 := h.shortest near hnear
  rcases hk.lt_or_eq with hlt | heq
  · -- fewer digits are a multiple of ten thousand
    have hn : (19 : ℤ) < d.n := d.lt_n_of_le (show (10 : ℚ) ^ (19 : ℤ) ≤ d.value by norm_num; linarith)
    obtain ⟨i, hi⟩ : ∃ i : ℕ, d.n - d.k = (4 + i : ℕ) := ⟨(d.n - d.k - 4).toNat, by omega⟩
    have hmultiple : d.value = (d.s * 10 ^ i * 10000 : ℕ) := by
      rw [Decimal.value, hi, zpow_natCast, pow_add]
      push_cast
      ring
    have hnat : 18446744073709553000 ≤ d.s * 10 ^ i * 10000 := by
      rw [hmultiple] at hge
      exact_mod_cast hge
    have hnext : (2 ^ 64 + 4096 : ℚ) ≤ d.value := by
      have hle : 2 ^ 64 + 4096 ≤ d.s * 10 ^ i * 10000 := by omega
      rw [hmultiple]
      exact_mod_cast hle
    have hrep : Representable (2 ^ 64 + 4096) := ⟨2 ^ 52 + 1, 12, by norm_num, by norm_num, by norm_num⟩
    have hround := le_rnd hrep (by norm_num) hnext
    rw [h.rounds] at hround
    norm_num at hround
  · have hclose := h.closest near heq.symm hnear
    rw [hvalue, abs_of_nonneg (by linarith), abs_of_nonneg (by norm_num)] at hclose
    linarith

/-- The decimal of a number up to `2 ^ 64`. -/
lemma value_lt_of_le_pow64 {x : ℚ} {d : Decimal} (h : Shortest x d) (hx : x ≤ 2 ^ 64) :
    d.value < 18446744073709553000 := by
  rcases hx.lt_or_eq with hlt | rfl
  · exact (h.value_lt representable_pow64 (by norm_num) hlt).trans (by norm_num)
  · exact value_lt_of_shortest_pow64 h

/-- A seed up to `2 ^ 64` is read as a number up to `2 ^ 64`. -/
lemma read_seed_le {x : ℚ} {text r : List UInt8} (h : Prints x text) (hx : x = 0 ∨ 1 ≤ x)
    (hmax : x ≤ 2 ^ 64)
    (hr : NumberEnd r) : ∃ v q, parseNumber (text ++ r) = some (v, r) ∧ Is v q ∧ q ≤ 2 ^ 64 := by
  rcases hx with rfl | hone
  · obtain ⟨v, hparse, hv⟩ := parse_zero h hr
    exact ⟨v, 0, hparse, hv, by norm_num⟩
  · obtain ⟨d, hd, rfl⟩ := h.exists_decimal (zero_lt_one.trans_le hone)
    have hlo : (10 : ℚ) ^ (0 : ℤ) ≤ d.value := hd.pow_le_value gap_zero (by
      rw [zpow_zero, rnd_of_representable representable_one]
      exact hone)
    have hhi := value_lt_of_le_pow64 hd hmax
    have hn := d.lt_n_of_le hlo
    have hn' : d.n ≤ 20 := d.n_le_of_lt (hhi.trans (by norm_num))
    obtain ⟨-, -, int, frac, v, hplain, hparse, hv⟩ | ⟨hexp, -⟩ := parse_decimal d hr
    · have hdigits : digitsValue int < 18446744073709553000 := by
        have hle := hplain.int_le.trans_lt hhi
        exact_mod_cast hle
      have hint := intFold_le hplain.head hplain.int_digits hdigits
      refine ⟨v, _, hparse, hv, ?_⟩
      exact fracFold_le (rnd_add_nine (by norm_num)) (intFold_nonneg le_rfl _) hint tenth_pos.le
          tenth_le_one
        is_tenth.representable hplain.frac_digits
    · exact absurd ⟨by omega, by omega⟩ hexp

/-- A seed above `2 ^ 64` is not read, or as a number above `2 ^ 64`. -/
lemma read_seed_gt {x : ℚ} {text r : List UInt8} (h : Prints x text) (hx : 2 ^ 64 < x) (hr : NumberEnd r)
    (hpow : 101 ∈ text → ∀ exp ≤ 300, PowAccurate false exp) :
    parseNumber (text ++ r) = none ∨
      ∃ v q, parseNumber (text ++ r) = some (v, r) ∧ Is v q ∧ 2 ^ 64 < q := by
  obtain ⟨d, hd, rfl⟩ := h.exists_decimal (lt_trans (by norm_num) hx)
  have hvalue := lt_value_of_pow64_lt hd hx
  have hn : (19 : ℤ) < d.n := d.lt_n_of_le (show (10 : ℚ) ^ (19 : ℤ) ≤ d.value by norm_num; linarith)
  obtain ⟨-, -, int, frac, v, hplain, hparse, hv⟩ | ⟨hexp, hmem, v, q, hv, hone, hsixteen, hparse⟩ :=
    parse_decimal d hr
  · have hdigits : 18446744073709553000 ≤ digitsValue int := by
      have hlt := hvalue.trans hplain.lt_int
      have hnat : 2 ^ 64 + 2048 < digitsValue int + 1 := by exact_mod_cast hlt
      omega
    have hint := lt_intFold hplain.head hplain.int_digits hplain.int_length hdigits
    have hrep := representable_intFold hplain.int_digits hplain.int_length
    have hgrow := (fracFold_spec frac (intFold_nonneg le_rfl int) hrep tenth_pos.le
        is_tenth.representable).1.1
    exact Or.inr ⟨v, _, hparse, hv, hint.trans_le hgrow⟩
  · rw [hparse]
    by_cases hexp300 : (d.n - 1).natAbs ≤ 300
    · have hneg : ¬ d.n < 0 := by omega
      rw [if_pos hexp300, decide_eq_false hneg]
      obtain ⟨p, hp, hlo⟩ := is_product hv hone hsixteen hexp300 (hpow hmem _ hexp300)
      refine Or.inr ⟨_, p, rfl, hp, lt_of_lt_of_le ?_ hlo⟩
      have hten : (10 : ℚ) ^ (21 : ℤ) ≤ 10 ^ ((d.n - 1).natAbs : ℤ) :=
        zpow_le_zpow_right₀ (by norm_num) (by omega)
      have hrep : Representable (2 ^ 68) := ⟨1, 68, by norm_num, by norm_num, by norm_num⟩
      have hfar : 2 ^ 68 ≤ rnd (10 ^ ((d.n - 1).natAbs : ℤ) / 2) := by
        refine le_rnd hrep (by norm_num) ?_
        norm_num at hten ⊢
        linarith
      exact lt_of_lt_of_le (by norm_num) hfar
    · rw [if_neg hexp300]
      exact Or.inl rfl

end Prospero
