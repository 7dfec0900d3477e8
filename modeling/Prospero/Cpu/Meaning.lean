import Mathlib.Algebra.BigOperators.Intervals
import Mathlib.Algebra.BigOperators.Fin
import Mathlib.Data.Finset.Lattice.Fold
import Prospero.Cpu.OptOps

/-!
# What the operations compute

`CpuOp.meaning` is the outcome of a call as a function of the memory before it: sums and maxima over whole
ranges, with no order of evaluation.  Here the scalar loops are shown to compute it.

### Outline

* `Reads`, `Writes` : an operand of some length may be accessed anywhere.
* `Tops` : a value is the largest of the first elements of an array.
* one lemma `spec_…` for each loop, from memory in which the output is computed up to some element to memory
  in which it is computed further.
-/

namespace Prospero.Exact

open Arrays

variable {R : Type}

/-- The elements of an array of `float`s. -/
def readF32 (s : Memory R) (p : Ptr) (k : ℕ) : R := s (.f32 p) k

/-- The elements of an array of `int8_t`s. -/
def readI8 (s : Memory R) (p : Ptr) (k : ℕ) : Int8 := s (.i8 p) k

/-- Memory with the first `n` elements of an array computed. -/
def fillF32 (s : Memory R) (p : Ptr) (n : ℕ) (f : ℕ → R) : Memory R := s.fill (.f32 p) n f

section Fill

variable (s : Memory R) {p c : Ptr} {n : ℕ} (f : ℕ → R)

lemma fillF32_zero : fillF32 s c 0 f = s := s.fill_zero _ f

/-- What is not yet computed is as before, in any array. -/
lemma readF32_fill_of_le {k : ℕ} (h : n ≤ k) : readF32 (fillF32 s c n f) p k = readF32 s p k :=
  Store.fill_of_le s (.f32 c) n f (.f32 p) h

/-- Reading another array does not see what is computed. -/
lemma readF32_fill_ne (h : p ≠ c) (k : ℕ) : readF32 (fillF32 s c n f) p k = readF32 s p k :=
  congrFun (Store.fill_ne s (.f32 c) n f (q := .f32 p) fun heq => h (Buf.f32.inj heq)) k

lemma readI8_fill (k : ℕ) : readI8 (fillF32 s c n f) p k = readI8 s p k :=
  congrFun (Store.fill_ne s (.f32 c) n f (q := .i8 p) fun heq => Buf.noConfusion heq) k

/-- Computing an array again from what it holds. -/
lemma fillF32_fill (op : R → R) :
    (fillF32 (fillF32 s c n f) c n fun k => op (readF32 (fillF32 s c n f) c k)) =
      fillF32 s c n fun k => op (f k) := by
  unfold fillF32
  rw [Store.fill_fill _ _ _ _ _ le_rfl]
  unfold Store.fill
  congr 1
  funext k
  by_cases hk : k < n
  · rw [if_pos hk, if_pos hk]
    change op ((Store.fill s (.f32 c) n f) (.f32 c) k) = _
    rw [Store.fill_self, if_pos hk]
  · rw [if_neg hk, if_neg hk]

end Fill

/-! ## Meanings -/

section Meanings

variable [Field R] [LinearOrder R]

/-- The outcome of an operation with two operands. -/
def zipMeaning (op : R → R → R) (a b c : Ptr) (n : ℕ) (s : Memory R) : PaiStatus × Memory R :=
  if (a = none ∨ b = none ∨ c = none) ∧ n ≠ 0 then (paiErrInvalidArg, s)
  else (paiOk, fillF32 s c n fun k => op (readF32 s a k) (readF32 s b k))

/-- The largest of the first elements of an array. -/
def maxOf (s : Memory R) (a : Ptr) (n : ℕ) : WithBot R :=
  (Finset.range n).sup fun k => ((readF32 s a k : R) : WithBot R)

/-- The exponential of an element, relative to the largest one. -/
def expOf (expf : WithTop R → R) (s : Memory R) (a : Ptr) (n k : ℕ) : R :=
  expf (subMax (readF32 s a k) (maxOf s a n))

/-- The entry of a matrix product. -/
def gemmEntry (n k : ℕ) (a b : Ptr) (s : Memory R) (i j : ℕ) : R :=
  ∑ l ∈ Finset.range k, readF32 s a (i * k + l) * readF32 s b (l * n + j)

/-- A term of a product with eight-bit weights. -/
def w8Term (n k : ℕ) (a wQ bScales : Ptr) (g : ℕ) (s : Memory R) (i j t : ℕ) : R :=
  readF32 s a (i * k + t) * ofInt8 (readI8 s wQ (t * n + j)) * readF32 s bScales (t / g * n + j)

/-- The entry of a product with eight-bit weights. -/
def w8Entry (n k : ℕ) (a wQ bScales : Ptr) (g : ℕ) (s : Memory R) (i j : ℕ) : R :=
  ∑ t ∈ Finset.range k, w8Term n k a wQ bScales g s i j t

/-- The outcome of a call: its status, and the memory it leaves. -/
def CpuOp.meaning (expf : WithTop R → R) (s : Memory R) : CpuOp R → PaiStatus × Memory R
  | .vecadd a b c n => zipMeaning (fun x y => x + y) a b c n s
  | .vecmul a b c n => zipMeaning (fun x y => x * y) a b c n s
  | .scale a alpha n =>
    if a = none ∧ n ≠ 0 then (paiErrInvalidArg, s)
    else (paiOk, fillF32 s a n fun k => alpha * readF32 s a k)
  | .relu a c n =>
    if (a = none ∨ c = none) ∧ n ≠ 0 then (paiErrInvalidArg, s)
    else (paiOk, fillF32 s c n fun k => reluScalar (readF32 s a k))
  | .softmax a c n =>
    if n = 0 ∨ a = none ∨ c = none then (paiErrInvalidArg, s)
    else (paiOk, fillF32 s c n fun k => expOf expf s a n k / ∑ t ∈ Finset.range n, expOf expf s a n t)
  | .gemm m n k a b c =>
    if m = 0 ∨ n = 0 ∨ k = 0 ∨ a = none ∨ b = none ∨ c = none then (paiErrInvalidArg, s)
    else (paiOk, fillF32 s c (m * n) fun p => gemmEntry n k a b s (p / n) (p % n))
  | .gemv m k a x y =>
    if m = 0 ∨ k = 0 ∨ a = none ∨ x = none ∨ y = none then (paiErrInvalidArg, s)
    else (paiOk, fillF32 s y m fun i => gemmEntry 1 k a x s i 0)
  | .gemmW8 m n k a wQ bScales groupSize c =>
    if m = 0 ∨ n = 0 ∨ k = 0 ∨ a = none ∨ wQ = none ∨ bScales = none ∨ c = none then
      (paiErrInvalidArg, s)
    else (paiOk, fillF32 s c (m * n) fun p =>
      w8Entry n k a wQ bScales (groupSizeFor groupSize k) s (p / n) (p % n))

end Meanings

/-! ## Loads, stores and loops -/

variable {P : Access Buf → Prop}

/-- Loads of the first `n` elements are allowed. -/
def Reads (P : Access Buf → Prop) (r : Buf) (n : ℕ) : Prop :=
  ∀ i count, 0 < count → i + count ≤ n → P ⟨r, i, count, false⟩

/-- Stores to the first `n` elements are allowed. -/
def Writes (P : Access Buf → Prop) (r : Buf) (n : ℕ) : Prop :=
  ∀ i count, 0 < count → i + count ≤ n → P ⟨r, i, count, true⟩

section Loops

variable {s : Memory R} {α : Type}

lemma spec_loadF32 {p : Ptr} {i n : ℕ} (h : Reads P (.f32 p) n) (hi : i < n) :
    (loadF32 p i).Spec P s fun x s' => x = readF32 s p i ∧ s' = s := by
  refine Prog.Spec.bind (spec_load (Q := fun v s' => v = _ ∧ s' = s) (h i 1 Nat.zero_lt_one hi) ⟨rfl, rfl⟩) ?_
  rintro _ _ ⟨rfl, rfl⟩
  exact spec_pure ⟨rfl, rfl⟩

lemma spec_loadI8 {p : Ptr} {i n : ℕ} (h : Reads P (.i8 p) n) (hi : i < n) :
    (loadI8 p i : Kernel R Int8).Spec P s fun x s' => x = readI8 s p i ∧ s' = s := by
  refine Prog.Spec.bind (spec_load (Q := fun v s' => v = _ ∧ s' = s) (h i 1 Nat.zero_lt_one hi) ⟨rfl, rfl⟩) ?_
  rintro _ _ ⟨rfl, rfl⟩
  exact spec_pure ⟨rfl, rfl⟩

/-- A store of the next element. -/
lemma spec_storeF32 {p : Ptr} {i n : ℕ} {f : ℕ → R} {x : R} (h : Writes P (.f32 p) n) (hi : i < n)
    (hx : x = f i) :
    (storeF32 p i x).Spec P (fillF32 s p i f) fun _ s' => s' = fillF32 s p (i + 1) f :=
  spec_store (h i 1 Nat.zero_lt_one hi) (s.put_fill (.f32 p) i f (fun _ : Fin 1 => x) fun j => by
    rw [hx, Fin.eq_zero j]
    rfl)

/-- A counting loop keeps the invariant that each of its rounds keeps. -/
lemma spec_forUp {i n : ℕ} {b : α} {body : ℕ → α → Kernel R α} (I : ℕ → α → Memory R → Prop)
    (hi : i ≤ n) (hstart : I i b s)
    (hbody : ∀ i b s, I i b s → i < n → (body i b).Spec P s (I (i + 1))) :
    (forUp i n b body).Spec P s (I n) := by
  refine Prog.Spec.bind (R := fun r s' => I n r.2 s')
    (spec_forStep (fun i b s => i ≤ n ∧ I i b s) ⟨hi, hstart⟩ ?_ ?_) fun r s' h => spec_pure h
  · intro i b s h hlt
    exact (hbody i b s h.2 hlt).mono fun b' s' hI => ⟨hlt, hI⟩
  · intro i b s h hend
    rw [← Nat.le_antisymm h.1 (Nat.lt_succ_iff.mp hend)]
    exact h.2

end Loops

/-! ## Element-wise operations -/

section ElementWise

variable {s : Memory R} {a b c : Ptr} {i n : ℕ}

lemma spec_zipScalar (op : R → R → R) (ha : Reads P (.f32 a) n) (hb : Reads P (.f32 b) n)
    (hc : Writes P (.f32 c) n) (hi : i ≤ n) :
    (zipScalar op a b c i n).Spec P
      (fillF32 s c i fun k => op (readF32 s a k) (readF32 s b k))
      fun _ s' => s' = fillF32 s c n fun k => op (readF32 s a k) (readF32 s b k) := by
  refine spec_forUp (fun i _ s' => s' = fillF32 s c i fun k => op (readF32 s a k) (readF32 s b k)) hi rfl ?_
  rintro i _ _ rfl hlt
  refine Prog.Spec.bind (spec_loadF32 ha hlt) ?_
  rintro _ _ ⟨rfl, rfl⟩
  refine Prog.Spec.bind (spec_loadF32 hb hlt) ?_
  rintro _ _ ⟨rfl, rfl⟩
  refine spec_storeF32 hc hlt ?_
  -- what is loaded is not yet overwritten
  rw [readF32_fill_of_le s _ le_rfl, readF32_fill_of_le s _ le_rfl]

lemma spec_mapScalar (op : R → R) (ha : Reads P (.f32 a) n) (hc : Writes P (.f32 c) n) (hi : i ≤ n) :
    (mapScalar op a c i n).Spec P (fillF32 s c i fun k => op (readF32 s a k))
      fun _ s' => s' = fillF32 s c n fun k => op (readF32 s a k) := by
  refine spec_forUp (fun i _ s' => s' = fillF32 s c i fun k => op (readF32 s a k)) hi rfl ?_
  rintro i _ _ rfl hlt
  refine Prog.Spec.bind (spec_loadF32 ha hlt) ?_
  rintro _ _ ⟨rfl, rfl⟩
  refine spec_storeF32 hc hlt ?_
  rw [readF32_fill_of_le s _ le_rfl]

end ElementWise

variable {s : Memory R}

/-! ## Softmax -/

section Softmax

variable [LinearOrder R]

/-- The value is the largest of the first `n` elements. -/
def Tops (s : Memory R) (a : Ptr) (n : ℕ) (maxv : WithBot R) : Prop :=
  ∀ x, maxv ≤ x ↔ ∀ k < n, ((readF32 s a k : R) : WithBot R) ≤ x

lemma tops_iff {a : Ptr} {n : ℕ} {maxv : WithBot R} : Tops s a n maxv ↔ maxv = maxOf s a n := by
  have hmax (x : WithBot R) : maxOf s a n ≤ x ↔ ∀ k < n, ((readF32 s a k : R) : WithBot R) ≤ x := by
    simp only [maxOf, Finset.sup_le_iff, Finset.mem_range]
  constructor
  · exact fun h => eq_of_forall_ge_iff fun x => (h x).trans (hmax x).symm
  · rintro rfl
    exact hmax

lemma ite_lt_le_iff {α : Type} [LinearOrder α] (x y z : α) :
    (if x < y then y else x) ≤ z ↔ x ≤ z ∧ y ≤ z := by
  split_ifs with h
  · exact ⟨fun hy => ⟨h.le.trans hy, hy⟩, And.right⟩
  · exact ⟨fun hx => ⟨hx, (not_lt.mp h).trans hx⟩, And.left⟩

lemma spec_softmaxMax {a : Ptr} {i n : ℕ} {maxv : WithBot R} (ha : Reads P (.f32 a) n) (hi : i ≤ n)
    (htop : Tops s a i maxv) :
    (softmaxMax a i n maxv).Spec P s fun maxv s' => maxv = maxOf s a n ∧ s' = s := by
  refine (spec_forUp (fun i maxv s' => s' = s ∧ Tops s a i maxv) hi ⟨rfl, htop⟩ ?_).mono
    fun maxv s' h => ⟨tops_iff.mp h.2, h.1⟩
  rintro i maxv _ ⟨rfl, htop⟩ hlt
  refine Prog.Spec.bind (spec_loadF32 ha hlt) ?_
  rintro _ _ ⟨rfl, rfl⟩
  refine spec_pure ⟨rfl, fun x => ?_⟩
  rw [ite_lt_le_iff, htop x, Nat.forall_lt_succ_right]

variable [Field R]

lemma spec_softmaxExp (expf : WithTop R → R) {a c : Ptr} {i n : ℕ} (ha : Reads P (.f32 a) n)
    (hc : Writes P (.f32 c) n) (hi : i ≤ n) :
    (softmaxExp expf a c (maxOf s a n) i n (∑ t ∈ Finset.range i, expOf expf s a n t)).Spec P
      (fillF32 s c i (expOf expf s a n)) fun sum s' =>
        sum = ∑ t ∈ Finset.range n, expOf expf s a n t ∧ s' = fillF32 s c n (expOf expf s a n) := by
  refine spec_forUp (fun i sum s' => sum = ∑ t ∈ Finset.range i, expOf expf s a n t ∧
    s' = fillF32 s c i (expOf expf s a n)) hi ⟨rfl, rfl⟩ ?_
  rintro i _ _ ⟨rfl, rfl⟩ hlt
  refine Prog.Spec.bind (spec_loadF32 ha hlt) ?_
  rintro _ _ ⟨rfl, rfl⟩
  have hx : expf (subMax (readF32 (fillF32 s c i (expOf expf s a n)) a i) (maxOf s a n)) =
      expOf expf s a n i := by
    rw [readF32_fill_of_le s _ le_rfl, expOf]
  refine Prog.Spec.bind (spec_storeF32 hc hlt hx) ?_
  rintro _ _ rfl
  exact spec_pure ⟨by rw [hx, Finset.sum_range_succ], rfl⟩

end Softmax

/-- The division, after which nothing is left of the exponentials. -/
lemma spec_softmaxDiv [Field R] {c : Ptr} {n : ℕ} (f : ℕ → R) (sum : R) (hread : Reads P (.f32 c) n)
    (hc : Writes P (.f32 c) n) :
    (softmaxDiv c sum n).Spec P (fillF32 s c n f) fun _ s' => s' = fillF32 s c n fun k => f k / sum := by
  have h := spec_mapScalar (s := fillF32 s c n f) (fun x => x / sum) hread hc (Nat.zero_le n)
  rw [fillF32_zero] at h
  refine h.mono fun _ s' hs' => hs'.trans ?_
  exact fillF32_fill s f fun x => x / sum

/-! ## Matrix products -/

section Products

variable {m n k : ℕ} {a b c wQ bScales : Ptr} {g i j : ℕ}

/-- The elements of a row before some column are in the matrix. -/
lemma row_le (hi : i < m) (hj : j ≤ n) : i * n + j ≤ m * n :=
  calc i * n + j ≤ i * n + n := Nat.add_le_add_left hj _
    _ = (i + 1) * n := (Nat.succ_mul i n).symm
    _ ≤ m * n := Nat.mul_le_mul_right n hi

lemma row_lt (hi : i < m) (hj : j < n) : i * n + j < m * n :=
  lt_of_lt_of_le (Nat.lt_succ_self _) (row_le hi hj)

lemma row_div (hj : j < n) : (i * n + j) / n = i := by
  rw [Nat.mul_comm, Nat.mul_add_div (Nat.zero_lt_of_lt hj), Nat.div_eq_of_lt hj, Nat.add_zero]

lemma row_mod (hj : j < n) : (i * n + j) % n = j := by
  rw [Nat.mul_comm, Nat.mul_add_mod, Nat.mod_eq_of_lt hj]

/-- A row of an array computed front to back, entry by entry. -/
lemma spec_row {e : ℕ → ℕ → R} {dot : ℕ → Kernel R R} (hc : Writes P (.f32 c) (m * n)) (hi : i < m)
    (hj : j ≤ n) {f : ℕ → R} (hf : ∀ j < n, f (i * n + j) = e i j)
    (hdot : ∀ j < n, ∀ q, (dot j).Spec P (fillF32 s c q f) fun x s' =>
      x = e i j ∧ s' = fillF32 s c q f) :
    (forUp j n () fun j _ => do
        let sum ← dot j
        storeF32 c (i * n + j) sum).Spec P (fillF32 s c (i * n + j) f) fun _ s' =>
      s' = fillF32 s c (i * n + n) f := by
  refine spec_forUp (fun j _ s' => s' = fillF32 s c (i * n + j) f) hj rfl ?_
  rintro j _ _ rfl hlt
  refine Prog.Spec.bind (hdot j hlt _) ?_
  rintro _ _ ⟨rfl, rfl⟩
  exact spec_storeF32 hc (row_lt hi hlt) (hf j hlt).symm

/-- A matrix computed row by row. -/
lemma spec_rows {f : ℕ → R} {row : ℕ → Kernel R Unit}
    (hrow : ∀ i < m, (row i).Spec P (fillF32 s c (i * n) f) fun _ s' => s' = fillF32 s c (i * n + n) f) :
    (forUp 0 m () fun i _ => row i).Spec P s fun _ s' => s' = fillF32 s c (m * n) f := by
  refine spec_forUp (fun i _ s' => s' = fillF32 s c (i * n) f) (Nat.zero_le m) ?_ ?_
  · rw [Nat.zero_mul, fillF32_zero]
  · rintro i _ _ rfl hi
    rw [Nat.succ_mul]
    exact hrow i hi

variable [Field R]

lemma gemmEntry_fill {q : ℕ} {f : ℕ → R} (ha : a ≠ c) (hb : b ≠ c) :
    gemmEntry n k a b (fillF32 s c q f) i j = gemmEntry n k a b s i j :=
  Finset.sum_congr rfl fun l _ => by rw [readF32_fill_ne s f ha, readF32_fill_ne s f hb]

lemma w8Term_fill {q t : ℕ} {f : ℕ → R} (ha : a ≠ c) (hs : bScales ≠ c) :
    w8Term n k a wQ bScales g (fillF32 s c q f) i j t = w8Term n k a wQ bScales g s i j t := by
  unfold w8Term
  rw [readF32_fill_ne s f ha, readF32_fill_ne s f hs, readI8_fill]

lemma spec_gemmDot (ha : Reads P (.f32 a) (m * k)) (hb : Reads P (.f32 b) (k * n)) (hi : i < m)
    (hj : j < n) :
    (gemmDot n k a b i j).Spec P s fun x s' => x = gemmEntry n k a b s i j ∧ s' = s := by
  refine spec_forUp (fun l sum s' => sum = ∑ l ∈ Finset.range l,
    readF32 s a (i * k + l) * readF32 s b (l * n + j) ∧ s' = s) (Nat.zero_le k) ⟨rfl, rfl⟩ ?_
  rintro l _ _ ⟨rfl, rfl⟩ hl
  refine Prog.Spec.bind (spec_loadF32 ha (row_lt hi hl)) ?_
  rintro _ _ ⟨rfl, rfl⟩
  refine Prog.Spec.bind (spec_loadF32 hb (row_lt hl hj)) ?_
  rintro _ _ ⟨rfl, rfl⟩
  exact spec_pure ⟨(Finset.sum_range_succ _ _).symm, rfl⟩

lemma spec_gemmScalarRow (ha : Reads P (.f32 a) (m * k)) (hb : Reads P (.f32 b) (k * n))
    (hc : Writes P (.f32 c) (m * n)) (hac : a ≠ c) (hbc : b ≠ c) (hi : i < m) (hj : j ≤ n) :
    (gemmScalarRow n k a b c i j).Spec P
      (fillF32 s c (i * n + j) fun p => gemmEntry n k a b s (p / n) (p % n))
      fun _ s' => s' = fillF32 s c (i * n + n) fun p => gemmEntry n k a b s (p / n) (p % n) := by
  refine spec_row (e := gemmEntry n k a b s) hc hi hj (fun j hj => ?_) fun j hj q => ?_
  · rw [row_div hj, row_mod hj]
  · refine (spec_gemmDot ha hb hi hj).mono fun x s' h => ?_
    rwa [gemmEntry_fill hac hbc] at h

lemma groups_mul_le (hg : 0 < g) {t : ℕ} (ht : t < k) (hj : j ≤ n) :
    t / g * n + j ≤ (k + g - 1) / g * n := by
  refine row_le ?_ hj
  rw [Nat.lt_iff_add_one_le, Nat.le_div_iff_mul_le hg, Nat.succ_mul]
  have := Nat.div_mul_le_self t g
  omega

lemma spec_w8Dot (ha : Reads P (.f32 a) (m * k)) (hw : Reads P (.i8 wQ) (k * n)) (hg : 0 < g)
    (hs : Reads P (.f32 bScales) ((k + g - 1) / g * n)) (hi : i < m) (hj : j < n) :
    (w8Dot n k a wQ bScales g i j).Spec P s fun x s' =>
      x = w8Entry n k a wQ bScales g s i j ∧ s' = s := by
  refine spec_forUp (fun t sum s' => sum = ∑ t ∈ Finset.range t, w8Term n k a wQ bScales g s i j t ∧
    s' = s) (Nat.zero_le k) ⟨rfl, rfl⟩ ?_
  rintro t _ _ ⟨rfl, rfl⟩ ht
  refine Prog.Spec.bind (spec_loadF32 hs (groups_mul_le hg ht hj)) ?_
  rintro _ _ ⟨rfl, rfl⟩
  refine Prog.Spec.bind (spec_loadF32 ha (row_lt hi ht)) ?_
  rintro _ _ ⟨rfl, rfl⟩
  refine Prog.Spec.bind (spec_loadI8 hw (row_lt ht hj)) ?_
  rintro _ _ ⟨rfl, rfl⟩
  exact spec_pure ⟨(Finset.sum_range_succ _ _).symm, rfl⟩

lemma spec_w8ScalarRow (ha : Reads P (.f32 a) (m * k)) (hw : Reads P (.i8 wQ) (k * n)) (hg : 0 < g)
    (hs : Reads P (.f32 bScales) ((k + g - 1) / g * n)) (hc : Writes P (.f32 c) (m * n)) (hac : a ≠ c)
    (hsc : bScales ≠ c) (hi : i < m) (hj : j ≤ n) :
    (w8ScalarRow n k a wQ bScales g c i j).Spec P
      (fillF32 s c (i * n + j) fun p => w8Entry n k a wQ bScales g s (p / n) (p % n))
      fun _ s' => s' = fillF32 s c (i * n + n) fun p =>
        w8Entry n k a wQ bScales g s (p / n) (p % n) := by
  refine spec_row (e := w8Entry n k a wQ bScales g s) hc hi hj (fun j hj => ?_) fun j hj q => ?_
  · rw [row_div hj, row_mod hj]
  · refine (spec_w8Dot ha hw hg hs hi hj).mono fun x s' h => ⟨h.1.trans ?_, h.2⟩
    exact Finset.sum_congr rfl fun t _ => w8Term_fill hac hsc

end Products

end Prospero.Exact
