import Prospero.Models.QuantExact

/-!
# Accuracy of quantization

Quantizing and dequantizing reproduces every element within half a step of its group (`quant_roundTrip`).

The group loop keeps `Done`: the elements before the current group are reproduced accurately.  The store of
a nibble keeps the other nibble of its byte (`nibbleOf_packNibble_ne`), so that groups may share bytes.

### Outline

* Rounding.
* Nibbles.
* The largest magnitude of a group.
* Memory.
* Accesses.
-/

namespace Prospero.QuantExact

open Arrays

/-! ## Rounding -/

/-- `lrintf` rounds to a nearest integer. -/
def RoundsToNearest (lrintf : ℚ → ℤ) : Prop := ∀ x, |(lrintf x : ℚ) - x| ≤ 1 / 2

/-- `y` reproduces `x`, in a group of largest magnitude `m`. -/
def Accurate (qmax : ℤ) (m x y : ℚ) : Prop :=
  |y - x| ≤ m / (2 * qmax) ∧ (m = 0 ∨ |x| = m → y = x)

section Rounding

variable {lrintf : ℚ → ℤ} {qmax : ℤ}

/-- A nearest integer of a number is between the integers the number is between. -/
lemma abs_lrintf_le (h : RoundsToNearest lrintf) {x : ℚ} (hx : |x| ≤ qmax) : |lrintf x| ≤ qmax := by
  have hnear := abs_le.mp (h x)
  have hbound := abs_le.mp hx
  have hhi : (lrintf x : ℚ) < qmax + 1 := by linarith
  have hlo : (-qmax - 1 : ℚ) < lrintf x := by linarith
  have hhi' : lrintf x < qmax + 1 := by exact_mod_cast hhi
  have hlo' : -qmax - 1 < lrintf x := by exact_mod_cast hlo
  exact abs_le.mpr ⟨by omega, by omega⟩

/-- Integers are their only nearest integers. -/
lemma lrintf_intCast (h : RoundsToNearest lrintf) (k : ℤ) : lrintf k = k := by
  have hnear := abs_le.mp (h k)
  have hhi : (lrintf k : ℚ) < k + 1 := by linarith
  have hlo : (k - 1 : ℚ) < lrintf k := by linarith
  have hhi' : lrintf k < k + 1 := by exact_mod_cast hhi
  have hlo' : k - 1 < lrintf k := by exact_mod_cast hlo
  omega

/-- The clamp of `q` has no effect. -/
lemma quantCode_of_pos (h : RoundsToNearest lrintf) {scale x : ℚ} (hscale : 0 < scale)
    (hx : |x / scale| ≤ qmax) : quantCode lrintf qmax scale x = lrintf (x / scale) := by
  have hle := abs_le.mp (abs_lrintf_le h hx)
  unfold quantCode
  rw [if_pos hscale]
  simp only
  rw [if_neg (show ¬ qmax < lrintf (x / scale) by omega),
    if_neg (show ¬ lrintf (x / scale) < -qmax by omega)]

/-- The scale of a group of largest magnitude `m`. -/
def scaleOf (qmax : ℤ) (m : ℚ) : ℚ := if 0 < m then m / qmax else 0

lemma abs_quantCode_le (h : RoundsToNearest lrintf) (hq : 0 < qmax) {m x : ℚ} (hx : |x| ≤ m) :
    |quantCode lrintf qmax (scaleOf qmax m) x| ≤ qmax := by
  have hq' : (0 : ℚ) < qmax := by exact_mod_cast hq
  by_cases hm : 0 < m
  · have hscale : 0 < scaleOf qmax m := by
      rw [scaleOf, if_pos hm]
      exact div_pos hm hq'
    have hbound : |x / scaleOf qmax m| ≤ qmax := by
      rw [abs_div, abs_of_pos hscale, div_le_iff₀ hscale, scaleOf, if_pos hm, mul_div_cancel₀ _ hq'.ne']
      exact hx
    rw [quantCode_of_pos h hscale hbound]
    exact abs_lrintf_le h hbound
  · rw [scaleOf, if_neg hm, quantCode, if_neg (lt_irrefl _), abs_zero]
    exact hq.le

/-- The code of an element reproduces it. -/
lemma accurate_quantCode (h : RoundsToNearest lrintf) (hq : 0 < qmax) {m x : ℚ} (hx : |x| ≤ m) :
    Accurate qmax m x (scaleOf qmax m * quantCode lrintf qmax (scaleOf qmax m) x) := by
  have hq' : (0 : ℚ) < qmax := by exact_mod_cast hq
  by_cases hm : 0 < m
  · have hscale : scaleOf qmax m = m / qmax := if_pos hm
    have hpos : 0 < m / qmax := div_pos hm hq'
    have hbound : |x / (m / qmax)| ≤ qmax := by
      rw [abs_div, abs_of_pos hpos, div_le_iff₀ hpos, mul_div_cancel₀ _ hq'.ne']
      exact hx
    rw [hscale, quantCode_of_pos h hpos hbound]
    constructor
    · -- the rounding error, scaled
      have hfactor : m / qmax * (lrintf (x / (m / qmax)) : ℚ) - x =
          m / qmax * (lrintf (x / (m / qmax)) - x / (m / qmax)) := by
        rw [mul_sub, mul_div_cancel₀ _ hpos.ne']
      rw [hfactor, abs_mul, abs_of_pos hpos]
      calc m / qmax * |(lrintf (x / (m / qmax)) : ℚ) - x / (m / qmax)| ≤ m / qmax * (1 / 2) :=
            mul_le_mul_of_nonneg_left (h _) hpos.le
        _ = m / (2 * qmax) := by field_simp
    · -- an element that attains the maximum has the code `qmax` or `-qmax`
      rintro (hzero | hmax)
      · exact absurd hzero hm.ne'
      · rcases abs_choice x with hsign | hsign
        · have hx' : x / (m / qmax) = (qmax : ℚ) := by
            rw [← hmax, hsign]
            rw [hmax.symm, hsign] at hm
            field_simp
          rw [hx', lrintf_intCast h, div_mul_cancel₀ _ hq'.ne', ← hmax, hsign]
        · have hx' : x / (m / qmax) = ((-qmax : ℤ) : ℚ) := by
            rw [← hmax, hsign]
            rw [hmax.symm, hsign] at hm
            have hne : x ≠ 0 := by
              rintro rfl
              simp at hm
            push_cast
            field_simp
          rw [hx', lrintf_intCast h, ← hmax, hsign]
          push_cast
          field_simp
  · have hm0 : m = 0 := le_antisymm (not_lt.mp hm) ((abs_nonneg x).trans hx)
    have hx0 : x = 0 := abs_nonpos_iff.mp (hx.trans hm0.le)
    rw [scaleOf, if_neg hm, zero_mul, hx0, hm0]
    exact ⟨by simp, fun _ => rfl⟩

end Rounding

/-! ## Nibbles -/

section Nibbles

variable (b nib : Int8)

lemma nibbleOf_low_low : nibbleOf 0 (packNibble 0 b nib) = nib &&& (0x0F : Int8) := by
  refine Int8.toBitVec_inj.mp (BitVec.eq_of_getLsbD_eq fun i hi => ?_)
  change (((b.toBitVec &&& 0xF0#8) ||| (nib.toBitVec &&& 0x0F#8)) &&& 0x0F#8).getLsbD i =
    (nib.toBitVec &&& 0x0F#8).getLsbD i
  interval_cases i <;> simp

lemma nibbleOf_high_high : nibbleOf 1 (packNibble 1 b nib) = nib &&& (0x0F : Int8) := by
  refine Int8.toBitVec_inj.mp (BitVec.eq_of_getLsbD_eq fun i hi => ?_)
  change ((((b.toBitVec &&& 0x0F#8) ||| (nib.toBitVec <<< 4)).sshiftRight 4) &&& 0x0F#8).getLsbD i =
    (nib.toBitVec &&& 0x0F#8).getLsbD i
  interval_cases i <;> simp [BitVec.getElem_sshiftRight]

lemma nibbleOf_high_low : nibbleOf 1 (packNibble 0 b nib) = nibbleOf 1 b := by
  refine Int8.toBitVec_inj.mp (BitVec.eq_of_getLsbD_eq fun i hi => ?_)
  change ((((b.toBitVec &&& 0xF0#8) ||| (nib.toBitVec &&& 0x0F#8)).sshiftRight 4) &&& 0x0F#8).getLsbD i =
    ((b.toBitVec.sshiftRight 4) &&& 0x0F#8).getLsbD i
  interval_cases i <;> simp [BitVec.getElem_sshiftRight]

lemma nibbleOf_low_high : nibbleOf 0 (packNibble 1 b nib) = nibbleOf 0 b := by
  refine Int8.toBitVec_inj.mp (BitVec.eq_of_getLsbD_eq fun i hi => ?_)
  change (((b.toBitVec &&& 0x0F#8) ||| (nib.toBitVec <<< 4)) &&& 0x0F#8).getLsbD i =
    (b.toBitVec &&& 0x0F#8).getLsbD i
  interval_cases i <;> simp

lemma nibbleOf_mod (i : ℕ) : nibbleOf i b = nibbleOf (i % 2) b := by
  simp only [nibbleOf, Nat.mod_mod]

lemma packNibble_mod (i : ℕ) : packNibble i b nib = packNibble (i % 2) b nib := by
  simp only [packNibble, Nat.mod_mod]

/-- A nibble is read back. -/
lemma nibbleOf_packNibble (i : ℕ) : nibbleOf i (packNibble i b nib) = nib &&& (0x0F : Int8) := by
  rw [nibbleOf_mod, packNibble_mod]
  rcases Nat.mod_two_eq_zero_or_one i with hi | hi <;> rw [hi]
  · exact nibbleOf_low_low b nib
  · exact nibbleOf_high_high b nib

/-- The other nibble of the byte is kept. -/
lemma nibbleOf_packNibble_ne {i j : ℕ} (h : j % 2 ≠ i % 2) :
    nibbleOf j (packNibble i b nib) = nibbleOf j b := by
  rw [nibbleOf_mod, packNibble_mod, nibbleOf_mod b j]
  rcases Nat.mod_two_eq_zero_or_one i with hi | hi
  · have hj : j % 2 = 1 := by omega
    rw [hi, hj]
    exact nibbleOf_high_low b nib
  · have hj : j % 2 = 0 := by omega
    rw [hi, hj]
    exact nibbleOf_low_high b nib

/-- `q & 0x0F`, sign-extended, is `q` again. -/
lemma signedNibble_ofInt {c : ℤ} (hc : |c| ≤ 7) :
    signedNibble (Int8.ofInt (c % 16) &&& (0x0F : Int8)) = c := by
  have hall : ∀ k : Fin 16, signedNibble (Int8.ofInt ((k.val - 8 : ℤ) % 16) &&& (0x0F : Int8)) =
      k.val - 8 := by decide +kernel
  have hbound := abs_le.mp hc
  have hk := hall ⟨(c + 8).toNat, by omega⟩
  rwa [show (((c + 8).toNat : ℕ) : ℤ) - 8 = c by omega] at hk

end Nibbles

/-! ## The largest magnitude of a group -/

/-- The largest magnitude in the group of element `i`. -/
def groupMax (v : F32Vector) (gs i : ℕ) : ℚ :=
  ((List.range v.n).filter fun j => j / gs = i / gs).foldl (fun m j => max m |v.elem j|) 0

lemma foldl_max_le {f : ℕ → ℚ} {l : List ℕ} {m c : ℚ} :
    l.foldl (fun m j => max m (f j)) m ≤ c ↔ m ≤ c ∧ ∀ j ∈ l, f j ≤ c := by
  induction l generalizing m with
  | nil => simp
  | cons j l ih =>
    rw [List.foldl_cons, ih, max_le_iff, List.forall_mem_cons, and_assoc]

/-- The index belongs to the group that starts at `g * gs`. -/
lemma mem_group {n gs g j : ℕ} (hgs : 0 < gs) :
    (g * gs ≤ j ∧ j < groupEnd n gs (g * gs)) ↔ j < n ∧ j / gs = g := by
  have hdiv : j / gs = g ↔ g * gs ≤ j ∧ j < g * gs + gs := by
    rw [Nat.div_eq_iff hgs]
    omega
  rw [hdiv]
  unfold groupEnd
  split_ifs <;> omega

/-- The group reaches to the next one, or to the end of the vector. -/
lemma lt_groupEnd {n gs g i : ℕ} (hi : i < (g + 1) * gs) (hn : i < n) :
    i < g * gs + (groupEnd n gs (g * gs) - g * gs) := by
  rw [Nat.succ_mul] at hi
  unfold groupEnd
  split_ifs <;> omega

/-- The loop for `max_abs` goes through the group. -/
lemma foldl_group {v : F32Vector} {gs g i : ℕ} (hgs : 0 < gs) (hi : i / gs = g) :
    (List.range' (g * gs) (groupEnd v.n gs (g * gs) - g * gs)).foldl (fun m j => max m |v.elem j|) 0 =
      groupMax v gs i := by
  refine eq_of_forall_ge_iff fun c => ?_
  rw [groupMax, foldl_max_le, foldl_max_le]
  refine and_congr_right fun _ => forall_congr' fun j => imp_congr_left ?_
  rw [List.mem_range'_1, List.mem_filter, List.mem_range, decide_eq_true_iff, hi, ← mem_group hgs]
  omega

lemma abs_le_groupMax {v : F32Vector} {gs i : ℕ} (hi : i < v.n) : |v.elem i| ≤ groupMax v gs i :=
  (foldl_max_le.mp le_rfl).2 i (List.mem_filter.mpr ⟨List.mem_range.mpr hi, decide_eq_true rfl⟩)

/-! ## Memory -/

section Memory

variable {s : Store QuantElem}

/-- Any access. -/
abbrev AnyAccess : Access QuantArray → Prop := fun _ => True

lemma spec_loadSrc {i : ℕ} {Q : ℚ → Store QuantElem → Prop} (h : Q (s .src i) s) :
    (loadSrc i).Spec AnyAccess s Q := ⟨h, fun _ _ => trivial⟩

lemma spec_loadQ {i : ℕ} {Q : Int8 → Store QuantElem → Prop} (h : Q (s .q i) s) :
    (loadQ i).Spec AnyAccess s Q := ⟨h, fun _ _ => trivial⟩

lemma spec_loadScale {g : ℕ} {Q : ℚ → Store QuantElem → Prop} (h : Q (s .scales g) s) :
    (loadScale g).Spec AnyAccess s Q := ⟨h, fun _ _ => trivial⟩

lemma spec_storeQ {i : ℕ} {b : Int8} {Q : Unit → Store QuantElem → Prop}
    (h : Q () (Function.update s .q (Function.update (s .q) i b))) :
    (storeQ i b).Spec AnyAccess s Q := by
  rw [← Store.put_single] at h
  exact spec_store trivial h

lemma spec_storeScale {g : ℕ} {x : ℚ} {Q : Unit → Store QuantElem → Prop}
    (h : Q () (Function.update s .scales (Function.update (s .scales) g x))) :
    (storeScale g x).Spec AnyAccess s Q := by
  rw [← Store.put_single] at h
  exact spec_store trivial h

lemma spec_storeOut {i : ℕ} {x : ℚ} {Q : Unit → Store QuantElem → Prop}
    (h : Q () (Function.update s .out (Function.update (s .out) i x))) :
    (storeOut i x).Spec AnyAccess s Q := by
  rw [← Store.put_single] at h
  exact spec_store trivial h

/-- The value that is stored as element `i`. -/
def storedCode (scheme : QuantScheme) (s : Store QuantElem) (i : ℕ) : ℤ :=
  codeOf scheme i (s .q (placeOf scheme i))

/-- The store of a code changes no other element. -/
lemma spec_storeCode {scheme : QuantScheme} (hbits : scheme.bitWidth = 8 ∨ scheme.bitWidth = 4) {i : ℕ}
    {c : ℤ} (hc : |c| ≤ qmaxOf scheme) :
    (storeCode scheme i c).Spec AnyAccess s fun _ s' =>
      (∀ r, r ≠ .q → s' r = s r) ∧ storedCode scheme s' i = c ∧
        ∀ j, j ≠ i → storedCode scheme s' j = storedCode scheme s j := by
  unfold storeCode
  by_cases h4 : scheme.bitWidth = 4
  · have hplace (j : ℕ) : placeOf scheme j = j / 2 := if_pos h4
    have hcode (j : ℕ) (b : Int8) : codeOf scheme j b = signedNibble (nibbleOf j b) := if_pos h4
    rw [if_pos h4]
    refine (spec_loadQ ⟨rfl, rfl⟩).bind (R := fun b s' => b = s .q (i / 2) ∧ s' = s) ?_
    rintro _ _ ⟨rfl, rfl⟩
    refine spec_storeQ ⟨fun r hr => Function.update_of_ne hr _ _, ?_, fun j hj => ?_⟩
    · rw [storedCode, hplace, hcode, Function.update_self, Function.update_self, nibbleOf_packNibble]
      refine signedNibble_ofInt (hc.trans ?_)
      rw [qmaxOf, h4]
      decide
    · rw [storedCode, storedCode, hplace, hcode, hcode, Function.update_self]
      by_cases hsame : j / 2 = i / 2
      · rw [hsame, Function.update_self, nibbleOf_packNibble_ne _ _ (by omega)]
      · rw [Function.update_of_ne hsame]
  · have h8 : scheme.bitWidth = 8 := hbits.resolve_right h4
    have hplace (j : ℕ) : placeOf scheme j = j := if_neg h4
    have hcode (j : ℕ) (b : Int8) : codeOf scheme j b = b.toInt := if_neg h4
    rw [if_neg h4]
    refine spec_storeQ ⟨fun r hr => Function.update_of_ne hr _ _, ?_, fun j hj => ?_⟩
    · rw [storedCode, hplace, hcode, Function.update_self, Function.update_self]
      have hbound := abs_le.mp hc
      rw [qmaxOf, if_pos h8] at hbound
      exact Int8.toInt_ofInt_of_le (by omega) (by omega)
    · rw [storedCode, storedCode, hplace, hcode, hcode, Function.update_self, Function.update_of_ne hj]

lemma spec_maxAbsLoop {t t1 : ℕ} :
    (maxAbsLoop t t1).Spec AnyAccess s fun m s' =>
      s' = s ∧ m = (List.range' t (t1 - t)).foldl (fun m j => max m |s .src j|) 0 := by
  have hloop : (maxAbsLoop t t1).Spec AnyAccess s fun m s' =>
      s' = s ∧ m = (List.range' t (t + (t1 - t) - t)).foldl (fun m j => max m |s .src j|) 0 := by
    refine spec_rounds
      (fun i m s' => s' = s ∧ m = (List.range' t (i - t)).foldl (fun m j => max m |s .src j|) 0) ?_ ?_
    · exact ⟨rfl, by simp⟩
    · rintro i m s' hi - ⟨rfl, rfl⟩
      refine (spec_loadSrc (Q := fun x s'' => x = s' .src i ∧ s'' = s') ⟨rfl, rfl⟩).bind ?_
      rintro _ _ ⟨rfl, rfl⟩
      refine spec_pure ⟨rfl, ?_⟩
      rw [show i + 1 - t = i - t + 1 by omega, List.range'_concat, List.foldl_append, List.foldl_cons,
        List.foldl_nil, Nat.one_mul, Nat.add_sub_cancel' hi, max_def_lt]
  rwa [Nat.add_sub_cancel_left] at hloop

end Memory

/-! ## The group loop -/

section Groups

variable {lrintf : ℚ → ℤ} {scheme : QuantScheme} {v : F32Vector} {gs : ℕ}

/-- The elements before the `k`th are reproduced by what is stored. -/
def Done (scheme : QuantScheme) (v : F32Vector) (gs : ℕ) (s : Store QuantElem) (k : ℕ) : Prop :=
  ∀ i < k, i < v.n → Accurate (qmaxOf scheme) (groupMax v gs i) (v.elem i)
    (s .scales (i / gs) * storedCode scheme s i)

lemma qmaxOf_pos (scheme : QuantScheme) : 0 < qmaxOf scheme := by
  unfold qmaxOf
  split_ifs <;> decide

/-- What is stored for the elements before the `k`th is kept. -/
lemma Done.congr {s s' : Store QuantElem} {k : ℕ} (h : Done scheme v gs s k)
    (hscale : ∀ i < k, s' .scales (i / gs) = s .scales (i / gs))
    (hcode : ∀ i < k, storedCode scheme s' i = storedCode scheme s i) : Done scheme v gs s' k := by
  intro i hi hn
  rw [hscale i hi, hcode i hi]
  exact h i hi hn

/-- One group. -/
lemma spec_quantizeGroup (hround : RoundsToNearest lrintf)
    (hbits : scheme.bitWidth = 8 ∨ scheme.bitWidth = 4) (hgs : 0 < gs) {g : ℕ} {s : Store QuantElem}
    (hsrc : s .src = v.elem) (hdone : Done scheme v gs s (g * gs)) :
    (quantizeGroup lrintf scheme v.n gs (g * gs) g).Spec AnyAccess s fun g' s' =>
      g' = g + 1 ∧ s' .src = v.elem ∧ Done scheme v gs s' ((g + 1) * gs) := by
  unfold quantizeGroup
  refine spec_maxAbsLoop.bind ?_
  rintro m _ ⟨rfl, hm⟩
  have hmax (i : ℕ) (hi : i / gs = g) : m = groupMax v gs i := by
    rw [hm, hsrc]
    exact foldl_group hgs hi
  refine Prog.Spec.bind (R := fun _ s' => s' .src = v.elem ∧ s' .scales g = scaleOf (qmaxOf scheme) m ∧
    Done scheme v gs s' (g * gs)) (spec_storeScale ?_) ?_
  · -- the scale of this group is not that of an earlier one
    refine ⟨hsrc, ?_, hdone.congr (fun i hi => ?_) fun i _ => rfl⟩
    · rw [Function.update_self, Function.update_self]
      rfl
    · have hne : i / gs ≠ g := ((Nat.div_lt_iff_lt_mul hgs).mpr hi).ne
      rw [Function.update_self, Function.update_of_ne hne]
  · rintro - s₁ ⟨hsrc₁, hscale₁, hdone₁⟩
    refine Prog.Spec.bind (spec_rounds (fun i _ s' => s' .src = v.elem ∧
      s' .scales g = scaleOf (qmaxOf scheme) m ∧ Done scheme v gs s' i) ⟨hsrc₁, hscale₁, hdone₁⟩ ?_) ?_
    · rintro i - s₂ hi hend ⟨hsrc₂, hscale₂, hdone₂⟩
      obtain ⟨hn, hg⟩ := (mem_group hgs).mp ⟨hi, show i < groupEnd v.n gs (g * gs) by omega⟩
      have hx : |v.elem i| ≤ m := (hmax i hg).symm ▸ abs_le_groupMax hn
      refine (spec_loadSrc (Q := fun x s' => x = s₂ .src i ∧ s₂ = s') ⟨rfl, rfl⟩).bind ?_
      rintro _ _ ⟨rfl, rfl⟩
      rw [hsrc₂]
      refine (spec_storeCode hbits (abs_quantCode_le hround (qmaxOf_pos scheme) hx)).mono ?_
      rintro - s₃ ⟨hkeep, hself, hother⟩
      have hscales : s₃ .scales = s₂ .scales := hkeep .scales (by decide)
      refine ⟨(hkeep .src (by decide)).trans hsrc₂, by rw [hscales, hscale₂], fun j hj hjn => ?_⟩
      rcases Nat.lt_succ_iff_lt_or_eq.mp hj with hlt' | rfl
      · rw [hscales, hother j hlt'.ne]
        exact hdone₂ j hlt' hjn
      · rw [hscales, hself, hg, hscale₂, ← hmax j hg]
        exact accurate_quantCode hround (qmaxOf_pos scheme) hx
    · rintro - s₂ ⟨hsrc₂, -, hdone₂⟩
      exact spec_pure ⟨rfl, hsrc₂, fun i hi hn => hdone₂ i (lt_groupEnd hi hn) hn⟩

/-- The group loop leaves what reproduces every element. -/
lemma spec_groupLoop (hround : RoundsToNearest lrintf)
    (hbits : scheme.bitWidth = 8 ∨ scheme.bitWidth = 4) {hgs : 0 < gs} {s : Store QuantElem}
    (hsrc : s .src = v.elem) :
    (forStep 1 hgs v.n (quantizeGroup lrintf scheme v.n gs) 0 0).Spec AnyAccess s fun _ s' =>
      Done scheme v gs s' v.n := by
  refine spec_forStep (fun t g s' => t = g * gs ∧ s' .src = v.elem ∧ Done scheme v gs s' t) ?_ ?_ ?_
  · exact ⟨(Nat.zero_mul gs).symm, hsrc, fun i hi => absurd hi (Nat.not_lt_zero i)⟩
  · rintro _ g s' ⟨rfl, hsrc', hdone⟩ -
    refine (spec_quantizeGroup hround hbits hgs hsrc' hdone).mono ?_
    rintro _ s'' ⟨rfl, hsrc'', hdone'⟩
    rw [← Nat.succ_mul]
    exact ⟨rfl, hsrc'', hdone'⟩
  · rintro t g s' ⟨-, -, hdone⟩ hend i hi hn
    exact hdone i (by omega) hn

/-- The elements before the `k`th are dequantized from `s₀`. -/
def Restored (scheme : QuantScheme) (n gs : ℕ) (s₀ s : Store QuantElem) (k : ℕ) : Prop :=
  s .q = s₀ .q ∧ s .scales = s₀ .scales ∧
    ∀ i < k, i < n → s .out i = s₀ .scales (i / gs) * storedCode scheme s₀ i

/-- One group of the dequantizer. -/
lemma spec_dequantizeGroup {n : ℕ} (hgs : 0 < gs) {g : ℕ} {s₀ s : Store QuantElem}
    (h : Restored scheme n gs s₀ s (g * gs)) :
    (dequantizeGroup scheme n gs (g * gs) g).Spec AnyAccess s fun g' s' =>
      g' = g + 1 ∧ Restored scheme n gs s₀ s' ((g + 1) * gs) := by
  unfold dequantizeGroup
  refine (spec_loadScale (Q := fun x s' => x = s₀ .scales g ∧ s = s') ⟨congrFun h.2.1 g, rfl⟩).bind ?_
  rintro _ _ ⟨rfl, rfl⟩
  refine Prog.Spec.bind (spec_rounds (fun i _ s' => Restored scheme n gs s₀ s' i) h ?_) ?_
  · rintro i - s₁ hi hend ⟨hq, hscales, hout⟩
    obtain ⟨-, hg⟩ := (mem_group hgs).mp ⟨hi, show i < groupEnd n gs (g * gs) by omega⟩
    refine (spec_loadQ (Q := fun b s' => b = s₀ .q (placeOf scheme i) ∧ s₁ = s')
      ⟨congrFun hq _, rfl⟩).bind ?_
    rintro _ _ ⟨rfl, rfl⟩
    refine spec_storeOut ⟨hq, hscales, fun j hj hn => ?_⟩
    rw [Function.update_self]
    rcases Nat.lt_succ_iff_lt_or_eq.mp hj with hlt' | rfl
    · rw [Function.update_of_ne hlt'.ne]
      exact hout j hlt' hn
    · rw [Function.update_self, hg, storedCode]
  · rintro - s₁ ⟨hq, hscales, hout⟩
    exact spec_pure ⟨rfl, hq, hscales, fun i hi hn => hout i (lt_groupEnd hi hn) hn⟩

lemma spec_dequantizeLoop {n : ℕ} {hgs : 0 < gs} (s₀ : Store QuantElem) :
    (forStep 1 hgs n (dequantizeGroup scheme n gs) 0 0).Spec AnyAccess s₀ fun _ s' =>
      ∀ i < n, s' .out i = s₀ .scales (i / gs) * storedCode scheme s₀ i := by
  refine spec_forStep (fun t g s' => t = g * gs ∧ Restored scheme n gs s₀ s' t) ?_ ?_ ?_
  · exact ⟨(Nat.zero_mul gs).symm, rfl, rfl, fun i hi => absurd hi (Nat.not_lt_zero i)⟩
  · rintro _ g s' ⟨rfl, h⟩ -
    refine (spec_dequantizeGroup hgs h).mono ?_
    rintro _ s'' ⟨rfl, h'⟩
    rw [← Nat.succ_mul]
    exact ⟨rfl, h'⟩
  · rintro t g s' ⟨-, -, -, hout⟩ hend i hi
    exact hout i (by omega) hi

end Groups

/-! ## Accesses -/

section Accesses

variable {lrintf : ℚ → ℤ} {scheme : QuantScheme} {n gs vb k : ℕ}

/-- A load of one of `n` elements, `vb` packed bytes, or `k` scales. -/
def LoadsInside (n vb k : ℕ) (acc : Access QuantArray) : Prop :=
  (acc.array = .src ∧ acc.first + acc.count ≤ n) ∨ (acc.array = .q ∧ acc.first + acc.count ≤ vb) ∨
    (acc.array = .scales ∧ acc.first + acc.count ≤ k)

lemma sweeps_loadSrc {i : ℕ} (h : i < n) :
    (loadSrc i).Sweeps (LoadsInside n vb k) [] fun _ => True :=
  (sweeps_load (.inl ⟨rfl, h⟩)).bind_nil fun _ _ => sweeps_pure trivial

lemma sweeps_loadQ {i : ℕ} (h : i < vb) : (loadQ i).Sweeps (LoadsInside n vb k) [] fun _ => True :=
  (sweeps_load (.inr (.inl ⟨rfl, h⟩))).bind_nil fun _ _ => sweeps_pure trivial

lemma sweeps_loadScale {g : ℕ} (h : g < k) :
    (loadScale g).Sweeps (LoadsInside n vb k) [] fun _ => True :=
  (sweeps_load (.inr (.inr ⟨rfl, h⟩))).bind_nil fun _ _ => sweeps_pure trivial

lemma sweeps_storeCode {i : ℕ} {c : ℤ} (h : placeOf scheme i < vb) :
    (storeCode scheme i c).Sweeps (LoadsInside n vb k) [⟨.q, placeOf scheme i, 1, true⟩]
      fun _ => True := by
  unfold storeCode placeOf at *
  split_ifs at h ⊢ with h4
  · exact (sweeps_loadQ h).bind_nil fun _ _ => sweeps_store
  · exact sweeps_store

lemma sweeps_maxAbsLoop {t t1 : ℕ} (h : t1 ≤ n) :
    (maxAbsLoop t t1).Sweeps (LoadsInside n vb k) [] fun _ => True := by
  have hnil : (List.range' t (t1 - t)).flatMap (fun _ => ([] : List (Access QuantArray))) = [] := by simp
  rw [← hnil]
  refine sweeps_rounds (fun _ _ => True) _ trivial fun i m _ hi _ => ?_
  exact (sweeps_loadSrc (by omega)).bind_nil fun _ _ => sweeps_pure trivial

lemma groupEnd_le (n gs t : ℕ) : groupEnd n gs t ≤ n := by
  unfold groupEnd
  split_ifs <;> omega

/-- The stores of the quantizer for a group. -/
def groupStores (scheme : QuantScheme) (n gs g : ℕ) : List (Access QuantArray) :=
  ⟨.scales, g, 1, true⟩ :: (List.range' (g * gs) (groupEnd n gs (g * gs) - g * gs)).flatMap
    fun i => [⟨.q, placeOf scheme i, 1, true⟩]

lemma sweeps_quantizeGroup (hplace : ∀ i < n, placeOf scheme i < vb) (g : ℕ) :
    (quantizeGroup lrintf scheme n gs (g * gs) g).Sweeps (LoadsInside n vb k)
      (groupStores scheme n gs g) (· = g + 1) := by
  have hend := groupEnd_le n gs (g * gs)
  rw [groupStores, ← List.append_nil (List.flatMap _ _), ← List.singleton_append]
  refine (sweeps_maxAbsLoop hend).bind_nil fun m _ => ?_
  refine Prog.Sweeps.bind (Q := fun _ => True) sweeps_store fun _ _ => ?_
  refine Prog.Sweeps.bind (sweeps_rounds (fun _ _ => True) _ trivial fun i _ _ hi _ => ?_)
    fun _ _ => sweeps_pure rfl
  exact (sweeps_loadSrc (by omega)).bind_nil fun _ _ => sweeps_storeCode (hplace i (by omega))

lemma sweeps_dequantizeGroup (hplace : ∀ i < n, placeOf scheme i < vb) {g : ℕ} (hg : g < k) :
    (dequantizeGroup scheme n gs (g * gs) g).Sweeps (LoadsInside n vb k)
      ((List.range' (g * gs) (groupEnd n gs (g * gs) - g * gs)).flatMap fun i => [⟨.out, i, 1, true⟩])
      (· = g + 1) := by
  have hend := groupEnd_le n gs (g * gs)
  refine (sweeps_loadScale hg).bind_nil fun _ _ => ?_
  rw [← List.append_nil (List.flatMap _ _)]
  refine Prog.Sweeps.bind (sweeps_rounds (fun _ _ => True) _ trivial fun i _ _ hi _ => ?_)
    fun _ _ => sweeps_pure rfl
  exact (sweeps_loadQ (hplace i (by omega))).bind_nil fun _ _ => sweeps_store

/-- The groups cover the vector. -/
lemma le_groupCount_mul (n : ℕ) (hgs : 0 < gs) : n ≤ groupCount n gs * gs := by
  have hdiv := Nat.div_add_mod n gs
  have hmod := Nat.mod_lt n hgs
  unfold groupCount
  rw [Nat.add_mul, Nat.mul_comm (n / gs)]
  split_ifs <;> omega

/-- What the groups contribute is what the elements contribute. -/
lemma mem_flatMap_groups {α : Type} {f : ℕ → List α} {a : α} (hgs : 0 < gs) :
    a ∈ (List.range' 0 (groupCount n gs)).flatMap (fun g =>
      (List.range' (g * gs) (groupEnd n gs (g * gs) - g * gs)).flatMap f) ↔ ∃ i < n, a ∈ f i := by
  simp only [List.mem_flatMap, List.mem_range'_1]
  constructor
  · rintro ⟨g, -, i, ⟨hlo, hhi⟩, ha⟩
    exact ⟨i, ((mem_group hgs).mp ⟨hlo, by omega⟩).1, ha⟩
  · rintro ⟨i, hi, ha⟩
    obtain ⟨hlo, hhi⟩ := (mem_group (g := i / gs) hgs).mpr ⟨hi, rfl⟩
    have hg : i / gs < groupCount n gs := by
      rw [Nat.div_lt_iff_lt_mul hgs]
      exact hi.trans_le (le_groupCount_mul n hgs)
    exact ⟨i / gs, ⟨Nat.zero_le _, by omega⟩, i, ⟨hlo, by omega⟩, ha⟩

/-- The stores of the quantizer: the zeros, the scales and the elements. -/
lemma mem_quantizeStores {vb : ℕ} {acc : Access QuantArray} (hgs : 0 < gs) :
    acc ∈ (⟨.q, 0, vb, true⟩ :: (List.range' 0 (groupCount n gs)).flatMap (groupStores scheme n gs) :
      List (Access QuantArray)) ↔
      acc = ⟨.q, 0, vb, true⟩ ∨ (∃ g < groupCount n gs, acc = ⟨.scales, g, 1, true⟩) ∨
        ∃ i < n, acc = ⟨.q, placeOf scheme i, 1, true⟩ := by
  have helems := mem_flatMap_groups (n := n) (a := acc)
    (f := fun i => [(⟨.q, placeOf scheme i, 1, true⟩ : Access QuantArray)]) hgs
  simp only [List.mem_flatMap, List.mem_range'_1, List.mem_singleton] at helems
  simp only [groupStores, List.mem_cons, List.mem_flatMap, List.mem_range'_1, List.not_mem_nil, or_false,
    and_or_left, exists_or, ← helems, Nat.zero_le, Nat.zero_add, true_and]

/-- A loop over the groups, whose rounds count them. -/
lemma sweeps_groupLoop {P : Access QuantArray → Prop} {W : ℕ → List (Access QuantArray)}
    {body : ℕ → ℕ → Quant ℕ} (hgs : 0 < gs)
    (hbody : ∀ g < groupCount n gs, (body (g * gs) g).Sweeps P (W g) (· = g + 1)) :
    (forStep 1 hgs n body 0 0).Sweeps P ((List.range' 0 (groupCount n gs)).flatMap W)
      fun r => r.2 = groupCount n gs := by
  have hloop : (forStep 1 hgs n body 0 0).Sweeps P ((List.range' 0 (groupCount n gs)).flatMap W)
      fun r => r.2 = 0 + groupCount n gs := by
    refine sweeps_forStep (fun j g => g = j) W rfl ?_ ?_ ?_
    · rw [Nat.zero_add]
      exact le_groupCount_mul n hgs
    · intro m hm
      rw [Nat.zero_add]
      exact group_start_lt hgs.ne' hm
    · rintro m _ hm rfl
      rw [Nat.zero_add, Nat.zero_add]
      exact hbody m hm
  exact hloop.mono fun r hr => hr.trans (Nat.zero_add _)

end Accesses

/-! ## The round trip -/

section RoundTrip

variable {lrintf : ℚ → ℤ} {scheme : QuantScheme} {n gs : ℕ}

/-- `pai_quantize_f32` of a supported scheme. -/
lemma paiQuantizeF32_ok (h : quantGroupSize scheme n = .ok gs) :
    paiQuantizeF32 lrintf scheme n = (do
      store .q 0 fun _ : Fin (paiQuantValueBytes n scheme) => (0 : Int8)
      let r ← forStep 1 (Nat.pos_of_ne_zero (quantGroupSize_ok h).1) n
        (quantizeGroup lrintf scheme n gs) 0 0
      pure (.ok r.2)) := by
  unfold paiQuantizeF32
  split
  · next h' => cases h.symm.trans h'
  · next gs' h' =>
    obtain rfl : gs = gs' := Except.ok.inj (h.symm.trans h')
    rfl

/-- `pai_dequantize_f32` of a supported scheme. -/
lemma paiDequantizeF32_ok (h : quantGroupSize scheme n = .ok gs) :
    paiDequantizeF32 scheme n = (do
      let _ ← forStep 1 (Nat.pos_of_ne_zero (quantGroupSize_ok h).1) n (dequantizeGroup scheme n gs) 0 0
      pure paiOk) := by
  unfold paiDequantizeF32
  split
  · next h' => cases h.symm.trans h'
  · next gs' h' =>
    obtain rfl : gs = gs' := Except.ok.inj (h.symm.trans h')
    rfl

/-- The size of the groups of a vector. -/
def groupSizeOf (scheme : QuantScheme) (n : ℕ) : ℕ :=
  if scheme.groupSize = 0 then n else scheme.groupSize.toNat

lemma quantGroupSize_eq (hbits : scheme.bitWidth = 8 ∨ scheme.bitWidth = 4) (hsigned : scheme.isSigned ≠ 0)
    (hn : 1 ≤ n) : quantGroupSize scheme n = .ok (groupSizeOf scheme n) := by
  have hpos : groupSizeOf scheme n ≠ 0 := by
    unfold groupSizeOf
    split_ifs with hz
    · omega
    · exact fun h => hz (UInt16.toNat_inj.mp h)
  unfold quantGroupSize
  rw [if_neg (by tauto), if_neg hsigned]
  exact if_neg hpos

/-- The memory the quantizer leaves. -/
lemma spec_paiQuantizeF32 {v : F32Vector} (hround : RoundsToNearest lrintf)
    (hbits : scheme.bitWidth = 8 ∨ scheme.bitWidth = 4) (h : quantGroupSize scheme v.n = .ok gs)
    {s : Store QuantElem} (hsrc : s .src = v.elem) :
    (paiQuantizeF32 lrintf scheme v.n).Spec AnyAccess s fun _ s' => Done scheme v gs s' v.n := by
  rw [paiQuantizeF32_ok h]
  refine Prog.Spec.bind (R := fun _ s' => s' .src = v.elem) (spec_store trivial ?_) fun _ s' hsrc' => ?_
  · exact (Function.update_of_ne (by decide) _ _).trans hsrc
  · exact (spec_groupLoop hround hbits hsrc').bind fun _ _ hdone => spec_pure hdone

/-- The memory the dequantizer leaves. -/
lemma spec_paiDequantizeF32 (h : quantGroupSize scheme n = .ok gs) (s : Store QuantElem) :
    (paiDequantizeF32 scheme n).Spec AnyAccess s fun _ s' =>
      ∀ i < n, s' .out i = s .scales (i / gs) * storedCode scheme s i := by
  rw [paiDequantizeF32_ok h]
  exact (spec_dequantizeLoop s).bind fun _ _ hout => spec_pure hout

/-- The accesses of the quantizer. -/
lemma sweeps_paiQuantizeF32 (lrintf : ℚ → ℤ) {vb : ℕ} (h : quantGroupSize scheme n = .ok gs)
    (hplace : ∀ i < n, placeOf scheme i < vb) :
    (paiQuantizeF32 lrintf scheme n).Sweeps (LoadsInside n vb (groupCount n gs))
      (⟨.q, 0, paiQuantValueBytes n scheme, true⟩ ::
        (List.range' 0 (groupCount n gs)).flatMap (groupStores scheme n gs))
      (· = .ok (groupCount n gs)) := by
  have hgs : 0 < gs := Nat.pos_of_ne_zero (quantGroupSize_ok h).1
  rw [paiQuantizeF32_ok h, ← List.append_nil (List.flatMap _ _), ← List.singleton_append]
  refine Prog.Sweeps.bind (Q := fun _ => True) sweeps_store fun _ _ => ?_
  refine (sweeps_groupLoop hgs fun g _ => sweeps_quantizeGroup hplace g).bind fun r hr => ?_
  exact sweeps_pure (by rw [hr])

/-- The accesses of the dequantizer. -/
lemma sweeps_paiDequantizeF32 {vb : ℕ} (h : quantGroupSize scheme n = .ok gs)
    (hplace : ∀ i < n, placeOf scheme i < vb) :
    (paiDequantizeF32 scheme n).Sweeps (LoadsInside n vb (groupCount n gs))
      ((List.range' 0 (groupCount n gs)).flatMap fun g =>
        (List.range' (g * gs) (groupEnd n gs (g * gs) - g * gs)).flatMap fun i => [⟨.out, i, 1, true⟩])
      (· = paiOk) := by
  have hgs : 0 < gs := Nat.pos_of_ne_zero (quantGroupSize_ok h).1
  rw [paiDequantizeF32_ok h, ← List.append_nil (List.flatMap _ _)]
  refine (sweeps_groupLoop hgs fun g hg => sweeps_dequantizeGroup hplace hg).bind fun r hr => ?_
  exact sweeps_pure rfl

end RoundTrip

/-- The run of the quantizer on a vector in memory. -/
abbrev quantized (lrintf : ℚ → ℤ) (scheme : QuantScheme) (v : F32Vector) (q : ℕ → Int8)
    (scales out : ℕ → ℚ) := paiQuantizeF32 lrintf scheme v.n (v.memory q scales out)

/-- The run of the dequantizer behind it. -/
abbrev dequantized (lrintf : ℚ → ℤ) (scheme : QuantScheme) (v : F32Vector) (q : ℕ → Int8)
    (scales out : ℕ → ℚ) := paiDequantizeF32 scheme v.n (quantized lrintf scheme v q scales out).2.1

/-- What is claimed of quantizing and dequantizing a vector. -/
structure QuantRoundTrip (lrintf : ℚ → ℤ) (scheme : QuantScheme) (v : F32Vector) (q : ℕ → Int8)
    (scales out : ℕ → ℚ) : Prop where
  /-- Both succeed, and the quantizer returns the number of groups. -/
  succeeds : (quantized lrintf scheme v q scales out).1 = .ok (paiQuantNumGroups v.n scheme) ∧
    (dequantized lrintf scheme v q scales out).1 = paiOk
  /-- The quantizer writes the packed bytes and the scales. -/
  quantized_written : ∀ r, written (quantized lrintf scheme v q scales out).2.2 r =
    match r with
    | .q => Set.Iio (paiQuantValueBytes v.n scheme)
    | .scales => Set.Iio (paiQuantNumGroups v.n scheme)
    | .src | .out => ∅
  /-- The dequantizer writes the elements. -/
  dequantized_written : ∀ r, written (dequantized lrintf scheme v q scales out).2.2 r =
    match r with
    | .out => Set.Iio v.n
    | .src | .q | .scales => ∅
  /-- Both load only these. -/
  loads : ∀ acc, acc ∈ (quantized lrintf scheme v q scales out).2.2 ∨
      acc ∈ (dequantized lrintf scheme v q scales out).2.2 → acc.isStore = false →
    LoadsInside v.n (paiQuantValueBytes v.n scheme) (paiQuantNumGroups v.n scheme) acc
  /-- Every element is reproduced within half a step of its group, and exactly if it attains the largest
  magnitude of the group or that is zero. -/
  accurate : ∀ i < v.n, Accurate (qmaxOf scheme) (groupMax v (groupSizeOf scheme v.n) i) (v.elem i)
    ((dequantized lrintf scheme v q scales out).2.1 .out i)

/-- For every vector, width and group size, with `lrintf` rounding to a nearest integer. -/
theorem quant_roundTrip (lrintf : ℚ → ℤ) (hround : RoundsToNearest lrintf) (scheme : QuantScheme)
    (hbits : scheme.bitWidth = 8 ∨ scheme.bitWidth = 4) (hsigned : scheme.isSigned ≠ 0) (v : F32Vector)
    (hn : 1 ≤ v.n) (q : ℕ → Int8) (scales out : ℕ → ℚ) :
    QuantRoundTrip lrintf scheme v q scales out := by
  have hok := quantGroupSize_eq hbits hsigned hn
  have hgs : 0 < groupSizeOf scheme v.n := Nat.pos_of_ne_zero (quantGroupSize_ok hok).1
  have hcount : paiQuantNumGroups v.n scheme = groupCount v.n (groupSizeOf scheme v.n) := by
    rw [paiQuantNumGroups, if_neg (by omega), hok]
  have hplace : ∀ i < v.n, placeOf scheme i < paiQuantValueBytes v.n scheme := fun i hi =>
    quantByte_lt scheme v.fits hi
  have hquant := sweeps_paiQuantizeF32 lrintf hok hplace
  have hdequant := sweeps_paiDequantizeF32 hok hplace
  rw [← hcount] at hquant hdequant
  obtain ⟨hgroups, -, hqloads⟩ := hquant (v.memory q scales out)
  obtain ⟨hstatus, -, hdloads⟩ := hdequant (quantized lrintf scheme v q scales out).2.1
  refine ⟨⟨hgroups, hstatus⟩, fun r => ?_, fun r => ?_, ?_, fun i hi => ?_⟩
  · ext k
    rw [hquant.mem_written, hcount]
    simp only [mem_quantizeStores hgs]
    constructor
    · rintro ⟨_, rfl | ⟨g, hg, rfl⟩ | ⟨i, hi, rfl⟩, rfl, hlo, hhi⟩ <;> dsimp only at hlo hhi
      · exact Set.mem_Iio.mpr (by omega)
      · exact Set.mem_Iio.mpr (by omega)
      · have hi' := hplace i hi
        exact Set.mem_Iio.mpr (by omega)
    · cases r with
      | q => exact fun hk => ⟨_, .inl rfl, rfl, Nat.zero_le k, by rw [Nat.zero_add]; exact hk⟩
      | scales => exact fun hk => ⟨_, .inr (.inl ⟨k, hk, rfl⟩), rfl, le_rfl, Nat.lt_succ_self k⟩
      | src => exact fun hk => hk.elim
      | out => exact fun hk => hk.elim
  · ext k
    rw [hdequant.mem_written, hcount]
    simp only [mem_flatMap_groups hgs, List.mem_singleton]
    constructor
    · rintro ⟨_, ⟨i, hi, rfl⟩, rfl, hlo, hhi⟩
      dsimp only at hlo hhi
      exact Set.mem_Iio.mpr (by omega)
    · cases r with
      | out => exact fun hk => ⟨_, ⟨k, hk, rfl⟩, rfl, le_rfl, Nat.lt_succ_self k⟩
      | src => exact fun hk => hk.elim
      | q => exact fun hk => hk.elim
      | scales => exact fun hk => hk.elim
  · rintro acc (hacc | hacc) hload
    · exact hqloads acc hacc hload
    · exact hdloads acc hacc hload
  · have hdone := spec_paiQuantizeF32 hround hbits hok (s := v.memory q scales out) rfl
    have hout := spec_paiDequantizeF32 hok (quantized lrintf scheme v q scales out).2.1
    rw [hout.1 i hi]
    exact hdone.1 i hi hi

/-- `lrintf` in the default rounding mode: to the nearest integer, ties to even. -/
def lrintEven (x : ℚ) : ℤ :=
  if x - ⌊x⌋ < 1 / 2 then ⌊x⌋
  else if 1 / 2 < x - ⌊x⌋ then ⌊x⌋ + 1
  else if ⌊x⌋ % 2 = 0 then ⌊x⌋ else ⌊x⌋ + 1

lemma roundsToNearest_lrintEven : RoundsToNearest lrintEven := by
  intro x
  have hlo := Int.floor_le x
  have hhi := Int.lt_floor_add_one x
  rw [abs_le]
  unfold lrintEven
  split_ifs <;> push_cast <;> constructor <;> linarith

/-- Five elements in groups of three with four bits: the middle byte has elements of both groups. -/
theorem quant_roundTrip_nibbles :
    QuantRoundTrip lrintEven ⟨4, 1, 3⟩ ⟨5, fun i => ([7, -13 / 4, 2, 0, 14] : List ℚ).getD i 0, by decide⟩
      (fun _ => 0) (fun _ => 0) (fun _ => 0) :=
  quant_roundTrip lrintEven roundsToNearest_lrintEven ⟨4, 1, 3⟩ (.inr rfl) (by decide) _ (by decide) _ _ _

end Prospero.QuantExact
