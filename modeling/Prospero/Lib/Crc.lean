import Mathlib

/-!
# Reflected cyclic redundancy checks

A reflected CRC of width `w` is a shift register: `shift` divides the register by the polynomial, low
bit first, and `feedBit` takes in one message bit.  The register is linear over exclusive or, and it
loses nothing when the polynomial has its top coefficient, so two messages of one length that differ
only within a window of `w` bits never leave the same remainder.

### Outline

* The register: linearity and injectivity of `shift`.
* Messages: `feed` over a concatenation, and `feed_eq_shift`, a whole word taken in at once.
* Bursts: `feed_ne_of_burst`.
* Tables: `shift_iterate_split`, the identity behind the table-driven update.
-/

namespace Crc

variable {w : ℕ} (poly : BitVec w)

/-! ## The register -/

/-- One step of the division by `poly`, low bit first. -/
def shift (c : BitVec w) : BitVec w :=
  if c.getLsbD 0 then (c >>> 1) ^^^ poly else c >>> 1

/-- The register with one message bit in its low place. -/
def bitWord (b : Bool) : BitVec w := (BitVec.ofBool b).setWidth w

/-- Take in one message bit. -/
def feedBit (c : BitVec w) (b : Bool) : BitVec w := shift poly (c ^^^ bitWord b)

/-- Take in a message. -/
def feed (c : BitVec w) (bits : List Bool) : BitVec w := bits.foldl (feedBit poly) c

/-- Only the lowest bit of `bitWord` can be set. -/
lemma getLsbD_bitWord (b : Bool) (i : ℕ) :
    (bitWord b : BitVec w).getLsbD i = (decide (i < w) && (decide (i = 0) && b)) := by
  rw [bitWord, BitVec.getLsbD_setWidth, BitVec.getLsbD_ofBool]

/-- The empty register stays empty. -/
@[simp] lemma shift_zero : shift poly 0 = 0 := by
  simp [shift]

/-- The register is linear. -/
lemma shift_xor (a b : BitVec w) : shift poly (a ^^^ b) = shift poly a ^^^ shift poly b := by
  unfold shift
  rw [BitVec.getLsbD_xor, BitVec.ushiftRight_xor_distrib]
  cases a.getLsbD 0 <;> cases b.getLsbD 0
  · rfl
  · exact BitVec.xor_assoc _ _ _
  · change a >>> 1 ^^^ b >>> 1 ^^^ poly = a >>> 1 ^^^ poly ^^^ b >>> 1
    rw [BitVec.xor_assoc, BitVec.xor_comm (b >>> 1), BitVec.xor_assoc]
  · change a >>> 1 ^^^ b >>> 1 = a >>> 1 ^^^ poly ^^^ (b >>> 1 ^^^ poly)
    rw [BitVec.xor_assoc, ← BitVec.xor_assoc poly, BitVec.xor_comm poly, BitVec.xor_assoc (b >>> 1),
      BitVec.xor_self, BitVec.xor_zero]

/-- So are its iterates. -/
lemma shift_iterate_xor (n : ℕ) (a b : BitVec w) :
    (shift poly)^[n] (a ^^^ b) = (shift poly)^[n] a ^^^ (shift poly)^[n] b := by
  induction n generalizing a b with
  | zero => rfl
  | succ n ih => rw [Function.iterate_succ_apply, Function.iterate_succ_apply,
      Function.iterate_succ_apply, shift_xor, ih]

variable {poly}

/-- With its top coefficient the polynomial shows in the top bit of the register, so only the empty
register becomes empty. -/
lemma shift_eq_zero (htop : poly.msb = true) {c : BitVec w} (h : shift poly c = 0) : c = 0 := by
  unfold shift at h
  split_ifs at h with hlow
  · have hmsb := congrArg BitVec.msb h
    rw [BitVec.msb_xor, htop] at hmsb
    simp [BitVec.msb_ushiftRight] at hmsb
  · apply BitVec.eq_of_getLsbD_eq
    intro i hi
    rcases i with _ | i
    · simpa using hlow
    · have hbit := congrArg (fun x : BitVec w => x.getLsbD i) h
      simpa [BitVec.getLsbD_ushiftRight, Nat.add_comm] using hbit

/-- Two different registers stay different. -/
lemma shift_injective (htop : poly.msb = true) : Function.Injective (shift poly) := by
  intro a b h
  have hzero : shift poly (a ^^^ b) = 0 := by
    rw [shift_xor, h, BitVec.xor_self]
    rfl
  exact BitVec.xor_eq_zero_iff.mp (shift_eq_zero htop hzero)

/-- Taking in one bit keeps different registers different. -/
lemma feedBit_injective (htop : poly.msb = true) (b : Bool) :
    Function.Injective fun c => feedBit poly c b := by
  intro a c h
  exact BitVec.xor_left_inj (bitWord b) |>.mp (shift_injective htop h)

/-! ## Messages -/

/-- A message in two parts. -/
lemma feed_append (c : BitVec w) (x y : List Bool) :
    feed poly c (x ++ y) = feed poly (feed poly c x) y := List.foldl_append

/-- Taking in a message keeps different registers different. -/
lemma feed_injective (htop : poly.msb = true) (bits : List Bool) :
    Function.Injective fun c => feed poly c bits := by
  induction bits with
  | nil => exact fun a b h => h
  | cons b bits ih => exact fun a c h => feedBit_injective htop b (ih h)

/-- The word whose low bits are the message. -/
def word : List Bool → BitVec w
  | [] => 0
  | b :: bits => bitWord b ^^^ (word bits <<< 1)

/-- The bits of the word of a message. -/
lemma getLsbD_word (bits : List Bool) (i : ℕ) :
    (word bits : BitVec w).getLsbD i = (decide (i < w) && bits.getD i false) := by
  induction bits generalizing i with
  | nil => simp [word]
  | cons b bits ih =>
    rw [word, BitVec.getLsbD_xor, getLsbD_bitWord, BitVec.getLsbD_shiftLeft, ih]
    rcases i with _ | i
    · simp
    · by_cases hi : i + 1 < w
      · have hlow : i < w := by omega
        simp [hi, hlow]
      · simp [hi]

/-- The word of a message that fits in the register moves down without loss. -/
lemma shift_word {bits : List Bool} (h : bits.length < w) :
    shift poly (word bits <<< 1) = word bits := by
  have hlow : ((word bits : BitVec w) <<< 1).getLsbD 0 = false := by simp
  rw [shift, hlow, if_neg Bool.false_ne_true]
  apply BitVec.eq_of_getLsbD_eq
  intro i hi
  rw [BitVec.getLsbD_ushiftRight, BitVec.getLsbD_shiftLeft, getLsbD_word, getLsbD_word]
  by_cases hnext : i + 1 < w
  · simp [hnext, hi, Nat.add_comm 1 i]
  · have hout : bits.length ≤ i := by omega
    simp [List.getElem?_eq_none hout]

/-- A message of at most `w` bits is taken in as one word. -/
lemma feed_eq_shift {bits : List Bool} (h : bits.length ≤ w) (c : BitVec w) :
    feed poly c bits = (shift poly)^[bits.length] (c ^^^ word bits) := by
  induction bits generalizing c with
  | nil => simp [feed, word]
  | cons b bits ih =>
    have hfit : bits.length < w := h
    have hfirst : shift poly (c ^^^ word (b :: bits)) = feedBit poly c b ^^^ word bits := by
      rw [word, ← BitVec.xor_assoc, shift_xor, shift_word hfit, feedBit]
    rw [List.length_cons, Function.iterate_succ_apply, hfirst, ← ih hfit.le]
    rfl

/-- Messages of one length that fit in the register are told apart by their words. -/
lemma word_injective {x y : List Bool} (hlen : x.length = y.length) (hfit : x.length ≤ w)
    (h : (word x : BitVec w) = word y) : x = y := by
  apply List.ext_getElem hlen
  intro i hx hy
  have hbit := congrArg (fun v : BitVec w => v.getLsbD i) h
  have hi : i < w := by omega
  simp only [getLsbD_word, decide_eq_true hi, Bool.true_and] at hbit
  rwa [List.getD_eq_getElem _ _ hx, List.getD_eq_getElem _ _ hy] at hbit

/-! ## Bursts -/

/-- **Bursts are detected.**  Messages of one length that agree outside a window of `w` bits and are
not the same leave different registers, from any common start. -/
theorem feed_ne_of_burst (htop : poly.msb = true) {x y : List Bool} (hlen : x.length = y.length)
    {start : ℕ} (hsame : ∀ i, i < start ∨ start + w ≤ i → x[i]? = y[i]?) (hne : x ≠ y)
    (c : BitVec w) : feed poly c x ≠ feed poly c y := by
  have hbefore : x.take start = y.take start := by
    apply List.ext_getElem?
    intro i
    rw [List.getElem?_take, List.getElem?_take]
    split_ifs with hi
    · exact hsame i (Or.inl hi)
    · rfl
  have hafter : x.drop (start + w) = y.drop (start + w) := by
    apply List.ext_getElem?
    intro i
    rw [List.getElem?_drop, List.getElem?_drop]
    exact hsame _ (Or.inr (Nat.le_add_right _ _))
  set u := (x.drop start).take w with hu
  set v := (y.drop start).take w with hv
  have hx : x = x.take start ++ (u ++ x.drop (start + w)) := by
    rw [hu, ← List.drop_drop, List.take_append_drop, List.take_append_drop]
  have hy : y = x.take start ++ (v ++ x.drop (start + w)) := by
    rw [hbefore, hafter, hv, ← List.drop_drop, List.take_append_drop, List.take_append_drop]
  have hwidth : u.length = v.length := by
    rw [hu, hv, List.length_take, List.length_take, List.length_drop, List.length_drop, hlen]
  have hfit : u.length ≤ w := List.length_take_le _ _
  intro heq
  -- equal remainders at the end go back to equal remainders after the window
  rw [hx, hy, feed_append, feed_append, feed_append, feed_append] at heq
  have hwindow := feed_injective htop (x.drop (start + w)) heq
  have hfit' : v.length ≤ w := hwidth ▸ hfit
  simp only [feed_eq_shift hfit, feed_eq_shift hfit', hwidth] at hwindow
  have hword := (shift_injective htop).iterate v.length hwindow
  have huv : u = v := word_injective hwidth hfit ((BitVec.xor_right_inj _).mp hword)
  exact hne (by rw [hx, hy, huv])

/-! ## Tables -/

/-- Low bits that are clear only move down. -/
lemma shift_iterate_of_clear {x : BitVec w} {n : ℕ} (h : ∀ i, i < n → x.getLsbD i = false) :
    (shift poly)^[n] x = x >>> n := by
  induction n generalizing x with
  | zero => simp
  | succ n ih =>
    have hfirst : shift poly x = x >>> 1 := by
      rw [shift, h 0 (Nat.succ_pos n), if_neg Bool.false_ne_true]
    have hclear : ∀ i, i < n → (x >>> 1).getLsbD i = false := by
      intro i hi
      rw [BitVec.getLsbD_ushiftRight]
      exact h _ (by omega)
    rw [Function.iterate_succ_apply, hfirst, ih hclear, ← BitVec.shiftRight_add, Nat.add_comm]

/-- `n` steps of a register: those of its low part, and the high part moved down. -/
theorem shift_iterate_split {low high : BitVec w} {n : ℕ}
    (h : ∀ i, i < n → high.getLsbD i = false) :
    (shift poly)^[n] (low ^^^ high) = (shift poly)^[n] low ^^^ (high >>> n) := by
  rw [shift_iterate_xor, shift_iterate_of_clear h]

end Crc
