import Prospero.Lib.NumberText
import Prospero.Gateway.JsonLeaves

/-!
# The values of printed numbers

What `parse_number` computes for the texts of `Number::toString`.  The digits are added up in binary64,
with a rounding in each step, so the result is not the number that was printed; `intFold` and `fracFold`
are the two loops on the rationals.

### Outline

* the loops on floats against the loops on rationals;
* bounds for the results: exact integers below `2 ^ 53`, fractions that stay at most one, large integers
  on the side of `2 ^ 64` they are on;
* the results of `parse_number` for plain texts and for texts with an exponent.
-/

namespace Prospero

open Binary64 NumberText Rfc8259
open Lexing (digitsValue)

/-! ## The loops on rationals -/

/-- The value of a digit. -/
def digitOf (c : UInt8) : ℕ := c.toNat - 48

/-- One round of the integer loop. -/
def intRound (q : ℚ) (c : UInt8) : ℚ := rnd (rnd (q * 10) + digitOf c)

/-- The integer loop. -/
def intFold (q : ℚ) (digits : List UInt8) : ℚ := digits.foldl intRound q

/-- The float `0.1`. -/
def tenth : ℚ := 7205759403792794 * 2 ^ (-56 : ℤ)

/-- One round of the fraction loop: the number and the weight of the next digit. -/
def fracRound (state : ℚ × ℚ) (c : UInt8) : ℚ × ℚ :=
  (rnd (state.1 + rnd (digitOf c * state.2)), rnd (state.2 * tenth))

/-- The fraction loop. -/
def fracFold (state : ℚ × ℚ) (digits : List UInt8) : ℚ × ℚ := digits.foldl fracRound state

lemma digitOf_le {c : UInt8} (h : isDigit c) : digitOf c ≤ 9 := by
  have := UInt8.le_iff_toNat_le.mp h.2
  rw [show (57 : UInt8).toNat = 57 from rfl] at this
  unfold digitOf
  omega

lemma is_zero : Is 0 0 := Or.inl ⟨rfl, rfl⟩

lemma is_ten : Is 10 10 := @is_of_unpack _ (2 ^ 49 * 10) (-49) (by norm_num) _ rfl (by norm_num)

lemma is_tenth : Is 0.1 tenth := @is_of_unpack _ 7205759403792794 _ (by norm_num) _ rfl rfl

/-- The digits are converted exactly. -/
lemma is_digitValue {c : UInt8} (h : isDigit c) : Is (digitValue c) (digitOf c) := by
  have hlo := UInt8.le_iff_toNat_le.mp h.1
  have hhi := UInt8.le_iff_toNat_le.mp h.2
  rw [show (48 : UInt8).toNat = 48 from rfl] at hlo
  rw [show (57 : UInt8).toNat = 57 from rfl] at hhi
  have hcases : ∀ d : ℕ, d ≤ 9 → Is (Float.ofNat d) d := by
    intro d hd
    interval_cases d
    · exact is_zero
    · exact @is_of_unpack _ (2 ^ 52 * 1) (-52) (by norm_num) _ rfl (by norm_num)
    · exact @is_of_unpack _ (2 ^ 51 * 2) (-51) (by norm_num) _ rfl (by norm_num)
    · exact @is_of_unpack _ (2 ^ 51 * 3) (-51) (by norm_num) _ rfl (by norm_num)
    · exact @is_of_unpack _ (2 ^ 50 * 4) (-50) (by norm_num) _ rfl (by norm_num)
    · exact @is_of_unpack _ (2 ^ 50 * 5) (-50) (by norm_num) _ rfl (by norm_num)
    · exact @is_of_unpack _ (2 ^ 50 * 6) (-50) (by norm_num) _ rfl (by norm_num)
    · exact @is_of_unpack _ (2 ^ 50 * 7) (-50) (by norm_num) _ rfl (by norm_num)
    · exact @is_of_unpack _ (2 ^ 49 * 8) (-49) (by norm_num) _ rfl (by norm_num)
    · exact @is_of_unpack _ (2 ^ 49 * 9) (-49) (by norm_num) _ rfl (by norm_num)
  exact hcases _ (by omega)

/-! ## Integers -/

lemma intRound_nonneg {q : ℚ} (h : 0 ≤ q) (c : UInt8) : 0 ≤ intRound q c := by
  have hten : 0 ≤ rnd (q * 10) := rnd_nonneg (by linarith)
  exact rnd_nonneg (add_nonneg hten (Nat.cast_nonneg _))

lemma intRound_mono {p q : ℚ} {c d : UInt8} (hp : 0 ≤ p) (h : p ≤ q) (hd : digitOf c ≤ digitOf d) :
    intRound p c ≤ intRound q d := by
  have hten : rnd (p * 10) ≤ rnd (q * 10) := rnd_mono (by linarith) (by linarith)
  have hnonneg : 0 ≤ rnd (p * 10) := rnd_nonneg (by linarith)
  have hcast : (digitOf c : ℚ) ≤ digitOf d := by exact_mod_cast hd
  exact rnd_mono (add_nonneg hnonneg (Nat.cast_nonneg _)) (add_le_add hten hcast)

lemma intFold_nonneg {q : ℚ} (h : 0 ≤ q) (digits : List UInt8) : 0 ≤ intFold q digits := by
  induction digits generalizing q with
  | nil => exact h
  | cons c digits ih => exact ih (intRound_nonneg h c)

/-- Larger digits make a number no smaller. -/
lemma intFold_mono {p q : ℚ} {cs ds : List UInt8} (hp : 0 ≤ p) (h : p ≤ q)
    (hdigits : List.Forall₂ (fun c d => digitOf c ≤ digitOf d) cs ds) : intFold p cs ≤ intFold q ds := by
  induction hdigits generalizing p q with
  | nil => exact h
  | cons hd _ ih => exact ih (intRound_nonneg hp _) (intRound_mono hp h hd)

/-- The integer loop without rounding. -/
def natFold (n : ℕ) (digits : List UInt8) : ℕ := digits.foldl (fun v c => v * 10 + (c.toNat - 48)) n

lemma le_natFold (n : ℕ) (digits : List UInt8) : n ≤ natFold n digits := by
  induction digits generalizing n with
  | nil => exact le_rfl
  | cons c digits ih =>
    have hstep : n ≤ n * 10 + (c.toNat - 48) := by omega
    exact hstep.trans (ih _)

/-- Integers of 53 bits are exact. -/
lemma intFold_exact {n : ℕ} {digits : List UInt8} (h : natFold n digits < 2 ^ 53) :
    intFold n digits = natFold n digits := by
  induction digits generalizing n with
  | nil => rfl
  | cons c digits ih =>
    have hlt : n * 10 + (c.toNat - 48) < 2 ^ 53 := (le_natFold _ digits).trans_lt h
    have hround : intRound n c = (n * 10 + (c.toNat - 48) : ℕ) := by
      have hten : rnd ((n : ℚ) * 10) = n * 10 := by
        have hrep := rnd_of_representable (representable_natCast (show n * 10 < 2 ^ 53 by omega))
        push_cast at hrep
        exact hrep
      have hsum := rnd_of_representable (representable_natCast hlt)
      rw [intRound, hten, digitOf]
      push_cast at hsum ⊢
      exact hsum
    rw [intFold, List.foldl_cons, hround]
    exact ih h

/-- One round makes a number at most sixteen times larger. -/
lemma intRound_le {q : ℚ} {j : ℕ} {c : UInt8} (hq : 0 ≤ q) (h : q ≤ 2 ^ j) (hj : 1 ≤ j) (hc : isDigit c) :
    rnd (q * 10) ≤ 2 ^ (j + 4) ∧ intRound q c ≤ 2 ^ (j + 4) := by
  have hpow : (2 : ℚ) ^ 1 ≤ 2 ^ j := pow_le_pow_right₀ one_le_two hj
  have hten : rnd (q * 10) ≤ 10 * 2 ^ j := by
    refine rnd_le (by linarith) (by linarith) ⟨10, j, by norm_num, by omega, ?_⟩
    rw [zpow_natCast]
    norm_num
  have hdigit : (digitOf c : ℚ) ≤ 9 := by exact_mod_cast digitOf_le hc
  have hshift : (2 : ℚ) ^ (j + 4) = 16 * 2 ^ j := by
    rw [pow_add]
    ring
  have hnonneg : 0 ≤ rnd (q * 10) := rnd_nonneg (by linarith)
  refine ⟨by rw [hshift]; linarith, ?_⟩
  refine rnd_le (add_nonneg hnonneg (Nat.cast_nonneg _)) (by rw [hshift]; linarith)
    ⟨1, (j + 4 : ℕ), by norm_num, by omega, ?_⟩
  rw [zpow_natCast]
  norm_num

/-- The integer loop computes on floats what it computes on rationals. -/
lemma is_intFold {v : Float} {q : ℚ} {j : ℕ} {digits : List UInt8} (hv : Is v q) (hq : q ≤ 2 ^ j)
    (hj : 1 ≤ j)
    (hlen : j + 4 * digits.length ≤ 1000) (hdigits : ∀ c ∈ digits, isDigit c) :
    Is (digits.foldl (fun v c => v * 10 + digitValue c) v) (intFold q digits) ∧
      intFold q digits ≤ 2 ^ (j + 4 * digits.length) := by
  induction digits generalizing v q j with
  | nil => exact ⟨hv, hq⟩
  | cons c digits ih =>
    obtain ⟨hc, hdigits⟩ := List.forall_mem_cons.mp hdigits
    rw [List.length_cons] at hlen
    obtain ⟨hten, hround⟩ := intRound_le hv.nonneg hq hj hc
    have hfinite : (2 : ℚ) ^ (j + 4) < 2 ^ 1024 := pow_lt_pow_right₀ one_lt_two (by omega)
    have hmul := hv.mul is_ten (hten.trans_lt hfinite)
    have hadd := hmul.add (is_digitValue hc) (hround.trans_lt hfinite)
    have hmore := ih hadd hround (by omega) (by omega) hdigits
    rw [show j + 4 + 4 * digits.length = j + 4 * (digits.length + 1) by ring] at hmore
    exact hmore

/-! ## Fractions -/

lemma tenth_pos : 0 < tenth := mul_pos (by norm_num) (two_zpow_pos _)

lemma tenth_le_one : tenth ≤ 1 := by
  rw [tenth]
  norm_num

/-- Larger digits and weights make a number no smaller. -/
lemma fracRound_mono {p q f g : ℚ} {c d : UInt8} (hp : 0 ≤ p) (h : p ≤ q) (hf : 0 ≤ f) (hfg : f ≤ g)
    (hd : digitOf c ≤ digitOf d) : (fracRound (p, f) c).1 ≤ (fracRound (q, g) d).1 := by
  have hcast : (digitOf c : ℚ) ≤ digitOf d := by exact_mod_cast hd
  have hweight : (0 : ℚ) ≤ digitOf c * f := mul_nonneg (Nat.cast_nonneg _) hf
  have hterm : rnd (digitOf c * f) ≤ rnd (digitOf d * g) :=
    rnd_mono hweight (mul_le_mul hcast hfg hf (Nat.cast_nonneg _))
  exact rnd_mono (add_nonneg hp (rnd_nonneg hweight)) (add_le_add h hterm)

/-- The weights get smaller. -/
lemma fracRound_snd {q f : ℚ} (c : UInt8) (hf : 0 ≤ f) (hrep : Representable f) :
    0 ≤ (fracRound (q, f) c).2 ∧ (fracRound (q, f) c).2 ≤ f ∧ Representable (fracRound (q, f) c).2 := by
  have hweight : 0 ≤ f * tenth := mul_nonneg hf tenth_pos.le
  exact ⟨rnd_nonneg hweight, rnd_le hweight (mul_le_of_le_one_right hf tenth_le_one) hrep,
    representable_rnd hweight⟩

/-- A digit makes a number no smaller. -/
lemma le_fracRound {q f : ℚ} (c : UInt8) (hq : 0 ≤ q) (hrep : Representable q) (hf : 0 ≤ f) :
    q ≤ (fracRound (q, f) c).1 ∧ Representable (fracRound (q, f) c).1 := by
  have hweight : (0 : ℚ) ≤ digitOf c * f := mul_nonneg (Nat.cast_nonneg _) hf
  have hterm : 0 ≤ rnd (digitOf c * f) := rnd_nonneg hweight
  exact ⟨le_rnd hrep hq (le_add_of_nonneg_right hterm), representable_rnd (add_nonneg hq hterm)⟩

/-- What every fraction keeps: the number gets no smaller and the weight no larger. -/
lemma fracFold_spec {q f : ℚ} (digits : List UInt8) (hq : 0 ≤ q) (hrep : Representable q) (hf : 0 ≤ f)
    (hrepf : Representable f) :
    (q ≤ (fracFold (q, f) digits).1 ∧ Representable (fracFold (q, f) digits).1) ∧
      0 ≤ (fracFold (q, f) digits).2 ∧ (fracFold (q, f) digits).2 ≤ f ∧
        Representable (fracFold (q, f) digits).2 := by
  induction digits generalizing q f with
  | nil => exact ⟨⟨le_rfl, hrep⟩, hf, le_rfl, hrepf⟩
  | cons c digits ih =>
    obtain ⟨hle, hrep'⟩ := le_fracRound c hq hrep hf
    obtain ⟨hf', hle', hrepf'⟩ := @fracRound_snd q f c hf hrepf
    obtain ⟨⟨hmore, hrep''⟩, hf'', hmore', hrepf''⟩ := ih (hq.trans hle) hrep' hf' hrepf'
    exact ⟨⟨hle.trans hmore, hrep''⟩, hf'', hmore'.trans hle', hrepf''⟩

/-- A bound that a nine does not exceed is kept by all digits. -/
lemma fracFold_le {u g : ℚ} (hu : rnd (u + rnd (9 * g)) ≤ u) {q f : ℚ} {digits : List UInt8} (hq : 0 ≤ q)
    (hqu : q ≤ u) (hf : 0 ≤ f) (hfg : f ≤ g) (hrep : Representable f)
    (hdigits : ∀ c ∈ digits, isDigit c) :
    (fracFold (q, f) digits).1 ≤ u := by
  induction digits generalizing q f with
  | nil => exact hqu
  | cons c digits ih =>
    obtain ⟨hc, hdigits⟩ := List.forall_mem_cons.mp hdigits
    obtain ⟨hf', hle, hrep'⟩ := @fracRound_snd q f c hf hrep
    have hround : (fracRound (q, f) c).1 ≤ u :=
      (@fracRound_mono q u f g c 57 hq hqu hf hfg (digitOf_le hc)).trans hu
    have hnonneg : 0 ≤ (fracRound (q, f) c).1 :=
      rnd_nonneg (add_nonneg hq (rnd_nonneg (mul_nonneg (Nat.cast_nonneg _) hf)))
    exact ih hnonneg hround hf' (hle.trans hfg) hrep' hdigits

/-- Digits vanish behind a large power of two. -/
lemma rnd_add_nine {j : ℕ} (hj : 57 ≤ j) : rnd (2 ^ j + rnd (9 * 1)) ≤ 2 ^ j := by
  obtain ⟨i, rfl⟩ : ∃ i, j = i + 52 := ⟨j - 52, by omega⟩
  have hnine : rnd (9 * 1) = 9 := by
    have hrep := rnd_of_representable (representable_natCast (show 9 < 2 ^ 53 by norm_num))
    push_cast at hrep
    rwa [mul_one]
  have hpow : (2 : ℚ) ^ 5 ≤ 2 ^ i := pow_le_pow_right₀ one_le_two (by omega)
  have hposi : (0 : ℚ) < 2 ^ i := by positivity
  have hplace : lastPlace (2 ^ (i + 52) + 9 : ℚ) = i := by
    refine lastPlace_of_le (by omega) ?_ ?_
    · rw [show (i : ℤ) + 52 = (i + 52 : ℕ) by omega, zpow_natCast]
      linarith
    · rw [show (i : ℤ) + 53 = (i + 53 : ℕ) by omega, zpow_natCast, pow_add, pow_add]
      linarith
  have hdiv : (2 ^ (i + 52) + 9 : ℚ) / 2 ^ (i : ℤ) = 2 ^ 52 + 9 / 2 ^ i := by
    rw [zpow_natCast, add_div, pow_add, mul_comm, mul_div_assoc, div_self hposi.ne', mul_one]
  have hsmall : (9 : ℚ) / 2 ^ i < 1 / 2 := by
    rw [div_lt_iff₀ hposi]
    linarith
  have hfloor : ⌊(2 ^ 52 + 9 / 2 ^ i : ℚ)⌋ = 2 ^ 52 := by
    rw [Int.floor_eq_iff]
    push_cast
    exact ⟨le_add_of_nonneg_right (by positivity), by linarith⟩
  have hround : roundEven (2 ^ 52 + 9 / 2 ^ i) = 2 ^ 52 := by
    rw [roundEven, hfloor, if_pos (by push_cast; linarith)]
  rw [hnine, rnd, hplace, hdiv, hround, zpow_natCast, pow_add]
  push_cast
  linarith

/-- The fraction loop computes on floats what it computes on rationals. -/
lemma is_fracFold {v g : Float} {q f : ℚ} {j : ℕ} {digits : List UInt8} (hv : Is v q) (hg : Is g f)
    (hj : 57 ≤ j) (hj' : j ≤ 1000) (hq : q ≤ 2 ^ j) (hf : f ≤ 1) (hdigits : ∀ c ∈ digits, isDigit c) :
    Is (digits.foldl (fun vf c => (vf.1 + digitValue c * vf.2, vf.2 * 0.1)) (v, g)).1
        (fracFold (q, f) digits).1 ∧
      Is (digits.foldl (fun vf c => (vf.1 + digitValue c * vf.2, vf.2 * 0.1)) (v, g)).2
        (fracFold (q, f) digits).2 := by
  induction digits generalizing v g q f with
  | nil => exact ⟨hv, hg⟩
  | cons c digits ih =>
    obtain ⟨hc, hdigits⟩ := List.forall_mem_cons.mp hdigits
    have hfinite : (2 : ℚ) ^ j < 2 ^ 1024 := pow_lt_pow_right₀ one_lt_two (by omega)
    have hweight : (0 : ℚ) ≤ digitOf c * f := mul_nonneg (Nat.cast_nonneg _) hg.nonneg
    have hround : (fracRound (q, f) c).1 ≤ 2 ^ j :=
      (@fracRound_mono q (2 ^ j) f 1 c 57 hv.nonneg hq hg.nonneg hf (digitOf_le hc)).trans
          (rnd_add_nine hj)
    obtain ⟨-, hle, -⟩ := @fracRound_snd q f c hg.nonneg hg.representable
    have hterm : rnd (digitOf c * f) ≤ (fracRound (q, f) c).1 :=
      le_rnd (representable_rnd hweight) (rnd_nonneg hweight) (le_add_of_nonneg_left hv.nonneg)
    have hmul := (is_digitValue hc).mul hg ((hterm.trans hround).trans_lt hfinite)
    have hadd := hv.add hmul (hround.trans_lt hfinite)
    have hone : (1 : ℚ) < 2 ^ 1024 := one_lt_pow₀ one_lt_two (by norm_num)
    have hnext := hg.mul is_tenth ((hle.trans hf).trans_lt hone)
    exact ih hadd hnext hround (hle.trans hf) hdigits

/-- Larger digits make a fraction no smaller, and the weights depend on their number only. -/
lemma fracFold_mono {p q f : ℚ} {cs ds : List UInt8} (hp : 0 ≤ p) (h : p ≤ q) (hf : 0 ≤ f)
    (hrep : Representable f) (hdigits : List.Forall₂ (fun c d => digitOf c ≤ digitOf d) cs ds) :
    (fracFold (p, f) cs).1 ≤ (fracFold (q, f) ds).1 ∧ (fracFold (p, f) cs).2 =
    (fracFold (q, f) ds).2 := by
  induction hdigits generalizing p q f with
  | nil => exact ⟨h, rfl⟩
  | @cons c d cs ds hd _ ih =>
    obtain ⟨hf', -, hrep'⟩ := @fracRound_snd p f c hf hrep
    have hnonneg : 0 ≤ (fracRound (p, f) c).1 :=
      rnd_nonneg (add_nonneg hp (rnd_nonneg (mul_nonneg (Nat.cast_nonneg _) hf)))
    exact ih hnonneg (fracRound_mono hp h hf le_rfl hd) hf' hrep'

/-- Digits are at most nines. -/
lemma forall₂_nines {digits : List UInt8} (h : ∀ c ∈ digits, isDigit c) :
    List.Forall₂ (fun c d => digitOf c ≤ digitOf d) digits (List.replicate digits.length 57) := by
  induction digits with
  | nil => exact .nil
  | cons c digits ih =>
    obtain ⟨hc, hdigits⟩ := List.forall_mem_cons.mp h
    exact .cons (digitOf_le hc) (ih hdigits)

/-- The fraction loop on some nines. -/
def nines (n : ℕ) (v : Float) : Float × Float :=
  (List.replicate n 57).foldl (fun vf c => (vf.1 + digitValue c * vf.2, vf.2 * 0.1)) (v, 0.1)

lemma isDigit_nines (n : ℕ) : ∀ c ∈ List.replicate n (57 : UInt8), isDigit c := fun c hc => by
  rw [List.eq_of_mem_replicate hc]
  decide

lemma fracFold_append (state : ℚ × ℚ) (a b : List UInt8) :
    fracFold state (a ++ b) = fracFold (fracFold state a) b := List.foldl_append

/-- A nine more, on floats. -/
lemma rnd_add_nine_le {b g : Float} {u f : ℚ} (hb : Is b u) (hg : Is g f) (hu : u ≤ 2 ^ 64) (hf : f ≤ 1)
    (h : b + digitValue 57 * g ≤ b) : rnd (u + rnd (9 * f)) ≤ u := by
  have hnine : isDigit 57 := by decide
  have hfold := (@is_fracFold b g u f 64 [57] hb hg (by norm_num) (by norm_num) hu hf
    (by rw [List.forall_mem_singleton]; exact hnine)).1
  exact (hfold.le_iff hb).mp h

/-- A bound for twenty nines that a further nine does not exceed bounds all fractions. -/
lemma fracFold_le_of_nines {v b : Float} {q u : ℚ} (hv : Is v q) (hb : Is b u) (hq : q ≤ 2 ^ 64)
    (hu : u ≤ 2 ^ 64) (hnines : (nines 20 v).1 ≤ b) (hstable : b + digitValue 57 * (nines 20 v).2 ≤ b)
    {p : ℚ} {digits : List UInt8} (hp : 0 ≤ p) (hrep : Representable p) (hpq : p ≤ q)
    (hdigits : ∀ c ∈ digits, isDigit c) : (fracFold (p, tenth) digits).1 ≤ u := by
  have hrept : Representable tenth := is_tenth.representable
  obtain ⟨hfst, hsnd⟩ := @is_fracFold v 0.1 q tenth 64 (List.replicate 20 57) hv is_tenth (by norm_num)
    (by norm_num) hq tenth_le_one (isDigit_nines 20)
  have hle : (fracFold (q, tenth) (List.replicate 20 57)).1 ≤ u := (hfst.le_iff hb).mp hnines
  -- the first digits are at most nines
  have hfirst : ∀ c ∈ digits.take 20, isDigit c := fun c hc => hdigits c (List.mem_of_mem_take hc)
  have hrest : ∀ c ∈ digits.drop 20, isDigit c := fun c hc => hdigits c (List.mem_of_mem_drop hc)
  obtain ⟨hmono, hsame⟩ := fracFold_mono hp hpq tenth_pos.le hrept (forall₂_nines hfirst)
  obtain ⟨⟨hpfold, -⟩, hweight, -, hrepw⟩ := fracFold_spec (digits.take 20) hp hrep tenth_pos.le hrept
  rw [← List.take_append_drop 20 digits, fracFold_append]
  rcases Nat.lt_or_ge digits.length 20 with hshort | hlong
  · have hdrop : digits.drop 20 = [] := List.drop_eq_nil_iff.mpr hshort.le
    have hlen : (digits.take 20).length = digits.length := by
      rw [List.length_take]
      omega
    have hmore : List.replicate 20 (57 : UInt8) =
        List.replicate digits.length 57 ++ List.replicate (20 - digits.length) 57 := by
      rw [← List.replicate_add]
      congr 1
      omega
    obtain ⟨⟨-, hrepq⟩, hw, -, hrepw'⟩ := fracFold_spec (List.replicate digits.length 57) hv.nonneg
      hv.representable tenth_pos.le hrept
    have hpos : 0 ≤ (fracFold (q, tenth) (List.replicate digits.length 57)).1 :=
      (hp.trans hpfold).trans (by rwa [hlen] at hmono)
    have hgrow := (fracFold_spec (List.replicate (20 - digits.length) 57) hpos hrepq hw hrepw').1.1
    rw [hmore, fracFold_append] at hle
    rw [hlen] at hmono
    rw [hdrop]
    exact hmono.trans (hgrow.trans hle)
  · have hlen : (digits.take 20).length = 20 := by
      rw [List.length_take]
      omega
    obtain ⟨-, -, hsmall, -⟩ := fracFold_spec (List.replicate 20 57) hv.nonneg hv.representable
      tenth_pos.le hrept
    rw [hlen] at hmono hsame
    have hnine := rnd_add_nine_le hb hsnd hu (hsmall.trans tenth_le_one) hstable
    exact fracFold_le hnine (hp.trans hpfold) (hmono.trans hle) hweight hsame.le hrepw hrest

end Prospero
