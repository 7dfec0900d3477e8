import Mathlib.Data.Fin.VecNotation
import Prospero.Cpu.RefOps

/-!
# The optimised operations in exact arithmetic

The operations of `cpu/optimized/opt_ops.c`: a blocked loop over vectors of `w` lanes (4 for SSE2, 8 for
AVX2), and the scalar loop on what is left.

### Outline

* `zipWide`, `mapWide`, `softmaxWide`, `gemmWide` : the loops that the SSE2 and the AVX2 tier share, with the
  lane operations that differ as parameters.
* `CpuOp` : one call of an operation, with its code in both backends.
-/

namespace Prospero.Exact

open Arrays

/-! ## Vectors -/

section Vectors

variable {α : Type} {w : ℕ}

/-- `_mm_set1_ps` -/
def set1Ps (x : α) : Fin w → α := fun _ => x

/-- `_mm_add_ps` -/
def addPs [Add α] (x y : Fin w → α) : Fin w → α := fun j => x j + y j

/-- `_mm_mul_ps` -/
def mulPs [Mul α] (x y : Fin w → α) : Fin w → α := fun j => x j * y j

/-- `_mm_max_ps`, the second operand unless the first one is larger. -/
def maxPs [LinearOrder α] (x y : Fin w → α) : Fin w → α := fun j => if y j < x j then x j else y j

/-- `_mm256_fmadd_ps` -/
def fmaddPs [Add α] [Mul α] (x y z : Fin w → α) : Fin w → α := fun j => x j * y j + z j

/-- `_mm_shuffle_ps`, with the two-bit lane numbers of the immediate. -/
def shufflePs (x y : Fin 4 → α) (imm : ℕ) : Fin 4 → α :=
  ![x (Fin.ofNat 4 imm), x (Fin.ofNat 4 (imm / 4)), y (Fin.ofNat 4 (imm / 16)), y (Fin.ofNat 4 (imm / 64))]

/-- `_mm_cvtss_f32` -/
def cvtssF32 (x : Fin 4 → α) : α := x 0

/-- `_mm256_castps256_ps128` -/
def castps256Ps128 (x : Fin 8 → α) : Fin 4 → α := fun j => x (j.castLE (by decide))

/-- `_mm256_extractf128_ps(x, 1)` -/
def extractHigh (x : Fin 8 → α) : Fin 4 → α := fun j => x (j.natAdd 4)

/-- `hsum128_ps` -/
def hsum128Ps [Add α] (v : Fin 4 → α) : α :=
  let v := addPs v (shufflePs v v 0x4E)
  let v := addPs v (shufflePs v v 0xB1)
  cvtssF32 v

/-- `hmax128_ps` -/
def hmax128Ps [LinearOrder α] (v : Fin 4 → α) : α :=
  let v := maxPs v (shufflePs v v 0x4E)
  let v := maxPs v (shufflePs v v 0xB1)
  cvtssF32 v

/-- `hsum256_ps` -/
def hsum256Ps [Add α] (v : Fin 8 → α) : α :=
  let lo := addPs (castps256Ps128 v) (extractHigh v)
  let lo := addPs lo (shufflePs lo lo 0x4E)
  let lo := addPs lo (shufflePs lo lo 0xB1)
  cvtssF32 lo

/-- `hmax256_ps` -/
def hmax256Ps [LinearOrder α] (v : Fin 8 → α) : α :=
  let lo := maxPs (castps256Ps128 v) (extractHigh v)
  let lo := maxPs lo (shufflePs lo lo 0x4E)
  let lo := maxPs lo (shufflePs lo lo 0xB1)
  cvtssF32 lo

end Vectors

section Loops

variable {R : Type} {α : Type} {w : ℕ}

/-- `_mm_loadu_ps(p + i)` -/
def loaduPs (w : ℕ) (p : Ptr) (i : ℕ) : Kernel R (Fin w → R) := load (Buf.f32 p) i w

/-- `_mm_storeu_ps(p + i, v)` -/
def storeuPs (p : Ptr) (i : ℕ) (v : Fin w → R) : Kernel R Unit := store (Buf.f32 p) i v

/-- `for (; i + w <= n; i += w)`, with the last `i`. -/
def forWide (hw : 0 < w) (n : ℕ) (b : α) (body : ℕ → α → Kernel R α) : Kernel R (ℕ × α) :=
  forStep w hw n body 0 b

/-- The blocked loop of an operation with two operands. -/
def zipWide (hw : 0 < w) (vop : (Fin w → R) → (Fin w → R) → Fin w → R) (op : R → R → R) (a b c : Ptr)
    (n : ℕ) : Kernel R Unit := do
  let r ← forWide hw n () fun i _ => do
    let av ← loaduPs w a i
    let bv ← loaduPs w b i
    storeuPs c i (vop av bv)
  zipScalar op a b c r.1 n

/-- The blocked loop of an operation with one operand. -/
def mapWide (hw : 0 < w) (vop : (Fin w → R) → Fin w → R) (op : R → R) (a c : Ptr) (n : ℕ) :
    Kernel R Unit := do
  let r ← forWide hw n () fun i _ => do
    let av ← loaduPs w a i
    storeuPs c i (vop av)
  mapScalar op a c r.1 n

end Loops

variable {R : Type} [Field R] [LinearOrder R] {w : ℕ}

/-! ## Element-wise operations -/

/-- `opt_vecadd_portable` -/
def optVecaddPortable (a b c : Ptr) (n : ℕ) : Kernel R PaiStatus := zipOp (fun x y => x + y) a b c n

/-- `opt_vecmul_portable` -/
def optVecmulPortable (a b c : Ptr) (n : ℕ) : Kernel R PaiStatus := zipOp (fun x y => x * y) a b c n

/-- The operations with two operands over vectors. -/
def zipOpWide (hw : 0 < w) (vop : (Fin w → R) → (Fin w → R) → Fin w → R) (op : R → R → R) (a b c : Ptr)
    (n : ℕ) : Kernel R PaiStatus :=
  if (a = none ∨ b = none ∨ c = none) ∧ n ≠ 0 then pure paiErrInvalidArg
  else do
    zipWide hw vop op a b c n
    pure paiOk

/-- `opt_vecadd_sse2` -/
def optVecaddSse2 (a b c : Ptr) (n : ℕ) : Kernel R PaiStatus :=
  zipOpWide (by decide : 0 < 4) addPs (fun x y => x + y) a b c n

/-- `opt_vecadd_avx2` -/
def optVecaddAvx2 (a b c : Ptr) (n : ℕ) : Kernel R PaiStatus :=
  zipOpWide (by decide : 0 < 8) addPs (fun x y => x + y) a b c n

/-- `opt_vecmul_sse2` -/
def optVecmulSse2 (a b c : Ptr) (n : ℕ) : Kernel R PaiStatus :=
  zipOpWide (by decide : 0 < 4) mulPs (fun x y => x * y) a b c n

/-- `opt_vecmul_avx2` -/
def optVecmulAvx2 (a b c : Ptr) (n : ℕ) : Kernel R PaiStatus :=
  zipOpWide (by decide : 0 < 8) mulPs (fun x y => x * y) a b c n

/-- `opt_scale_portable` -/
def optScalePortable (a : Ptr) (alpha : R) (n : ℕ) : Kernel R PaiStatus :=
  if a = none ∧ n ≠ 0 then pure paiErrInvalidArg
  else do
    mapScalar (fun x => alpha * x) a a 0 n
    pure paiOk

/-- The scaling over vectors, which has the factor on the other side. -/
def scaleWide (hw : 0 < w) (a : Ptr) (alpha : R) (n : ℕ) : Kernel R PaiStatus :=
  if a = none ∧ n ≠ 0 then pure paiErrInvalidArg
  else do
    mapWide hw (fun x => mulPs x (set1Ps alpha)) (fun x => alpha * x) a a n
    pure paiOk

/-- `opt_scale_sse2` -/
def optScaleSse2 (a : Ptr) (alpha : R) (n : ℕ) : Kernel R PaiStatus :=
  scaleWide (by decide : 0 < 4) a alpha n

/-- `opt_scale_avx2` -/
def optScaleAvx2 (a : Ptr) (alpha : R) (n : ℕ) : Kernel R PaiStatus :=
  scaleWide (by decide : 0 < 8) a alpha n

/-- `opt_relu_portable` -/
def optReluPortable (a c : Ptr) (n : ℕ) : Kernel R PaiStatus :=
  if (a = none ∨ c = none) ∧ n ≠ 0 then pure paiErrInvalidArg
  else do
    mapScalar reluScalar a c 0 n
    pure paiOk

/-- The rectifier over vectors. -/
def reluWide (hw : 0 < w) (a c : Ptr) (n : ℕ) : Kernel R PaiStatus :=
  if (a = none ∨ c = none) ∧ n ≠ 0 then pure paiErrInvalidArg
  else do
    mapWide hw (fun x => maxPs x (set1Ps 0)) reluScalar a c n
    pure paiOk

/-- `opt_relu_sse2` -/
def optReluSse2 (a c : Ptr) (n : ℕ) : Kernel R PaiStatus := reluWide (by decide : 0 < 4) a c n

/-- `opt_relu_avx2` -/
def optReluAvx2 (a c : Ptr) (n : ℕ) : Kernel R PaiStatus := reluWide (by decide : 0 < 8) a c n

/-! ## Softmax -/

/-- `opt_softmax_portable` -/
def optSoftmaxPortable (expf : WithTop R → R) (a c : Ptr) (n : ℕ) : Kernel R PaiStatus :=
  softmaxScalar expf a c n

/-- The softmax over vectors. -/
def softmaxWide (hw : 0 < w) (hmax : (Fin w → WithBot R) → WithBot R) (hsum : (Fin w → R) → R)
    (expf : WithTop R → R) (a c : Ptr) (n : ℕ) : Kernel R PaiStatus :=
  if n = 0 ∨ a = none ∨ c = none then pure paiErrInvalidArg
  else do
    let r ← forWide hw n (set1Ps ⊥) fun i m => do
      let x ← loaduPs w a i
      pure (maxPs m fun j => (x j : WithBot R))
    let maxv ← softmaxMax a r.1 n (hmax r.2)
    let r ← forWide hw n (set1Ps 0) fun i s => do
      -- the arguments of `_mm_set_ps` are `a[i]` to `a[i + w - 1]`, lane by lane
      let x ← loaduPs w a i
      let e := fun j => expf (subMax (x j) maxv)
      storeuPs c i e
      pure (addPs s e)
    let sum ← softmaxExp expf a c maxv r.1 n (hsum r.2)
    softmaxDiv c sum n
    pure paiOk

/-- `opt_softmax_sse2` -/
def optSoftmaxSse2 (expf : WithTop R → R) (a c : Ptr) (n : ℕ) : Kernel R PaiStatus :=
  softmaxWide (by decide : 0 < 4) hmax128Ps hsum128Ps expf a c n

/-- `opt_softmax_avx2` -/
def optSoftmaxAvx2 (expf : WithTop R → R) (a c : Ptr) (n : ℕ) : Kernel R PaiStatus :=
  softmaxWide (by decide : 0 < 8) hmax256Ps hsum256Ps expf a c n

/-! ## Matrix products -/

/-- `opt_gemm_portable` -/
def optGemmPortable (m n k : ℕ) (a b c : Ptr) : Kernel R PaiStatus := gemmScalar m n k a b c

/-- The matrix product over vectors, `w` columns at a time.  `macc x y acc` is how a tier adds a product. -/
def gemmWide (hw : 0 < w) (macc : (Fin w → R) → (Fin w → R) → (Fin w → R) → Fin w → R) (m n k : ℕ)
    (a b c : Ptr) : Kernel R PaiStatus :=
  if m = 0 ∨ n = 0 ∨ k = 0 ∨ a = none ∨ b = none ∨ c = none then pure paiErrInvalidArg
  else do
    forUp 0 m () fun i _ => do
      let r ← forWide hw n () fun j _ => do
        let acc ← forUp 0 k (set1Ps 0) fun l acc => do
          let bj ← loaduPs w b (l * n + j)
          let x ← loadF32 a (i * k + l)
          pure (macc (set1Ps x) bj acc)
        storeuPs c (i * n + j) acc
      gemmScalarRow n k a b c i r.1
    pure paiOk

/-- `opt_gemm_sse2` -/
def optGemmSse2 (m n k : ℕ) (a b c : Ptr) : Kernel R PaiStatus :=
  gemmWide (by decide : 0 < 4) (fun x y acc => addPs acc (mulPs x y)) m n k a b c

/-- `opt_gemm_avx2` -/
def optGemmAvx2 (m n k : ℕ) (a b c : Ptr) : Kernel R PaiStatus :=
  gemmWide (by decide : 0 < 8) fmaddPs m n k a b c

/-- `opt_gemv_avx2` -/
def optGemvAvx2 (m k : ℕ) (a x y : Ptr) : Kernel R PaiStatus :=
  if m = 0 ∨ k = 0 ∨ a = none ∨ x = none ∨ y = none then pure paiErrInvalidArg
  else do
    forUp 0 m () fun i _ => do
      let r ← forWide (by decide : 0 < 8) k (set1Ps 0) fun l acc => do
        let av ← loaduPs 8 a (i * k + l)
        let xv ← loaduPs 8 x l
        pure (fmaddPs av xv acc)
      let s ← forUp r.1 k (hsum256Ps r.2) fun l s => do
        let al ← loadF32 a (i * k + l)
        let xl ← loadF32 x l
        pure (s + al * xl)
      storeF32 y i s
    pure paiOk

/-- `opt_gemm_w8_portable` -/
def optGemmW8Portable (m n k : ℕ) (a wQ bScales : Ptr) (groupSize : ℕ) (c : Ptr) : Kernel R PaiStatus :=
  gemmW8Scalar m n k a wQ bScales groupSize c

/-- `_mm_loadl_epi64(w_q + i)`, widened to `float`s. -/
def loadW8 (p : Ptr) (i : ℕ) : Kernel R (Fin 8 → R) := do
  let b8 ← load (.i8 p) i 8
  pure fun j => ofInt8 (b8 j)

/-- Eight dot products with eight-bit weights, group by group with the scales of the group loaded once. -/
def w8DotWide (n k : ℕ) (a wQ bScales : Ptr) {g : ℕ} (hg : 0 < g) (i j : ℕ) : Kernel R (Fin 8 → R) := do
  let r ← forStep 1 hg k (fun t0 acc => do
    let t1 := if t0 + g < k then t0 + g else k
    let sg ← loaduPs 8 bScales (t0 / g * n + j)
    forUp t0 t1 acc fun t acc => do
      let bf ← loadW8 wQ (t * n + j)
      let x ← loadF32 a (i * k + t)
      pure (fmaddPs (set1Ps x) (mulPs bf sg) acc)) 0 (set1Ps 0)
  pure r.2

/-- A group has an element. -/
lemma groupSizeFor_pos {groupSize k : ℕ} (hk : k ≠ 0) : 0 < groupSizeFor groupSize k := by
  unfold groupSizeFor
  split_ifs with h
  · exact Nat.pos_of_ne_zero hk
  · exact Nat.pos_of_ne_zero fun hzero => h (Or.inl hzero)

/-- `opt_gemm_w8_avx2` -/
def optGemmW8Avx2 (m n k : ℕ) (a wQ bScales : Ptr) (groupSize : ℕ) (c : Ptr) : Kernel R PaiStatus :=
  if h : m = 0 ∨ n = 0 ∨ k = 0 ∨ a = none ∨ wQ = none ∨ bScales = none ∨ c = none then
    pure paiErrInvalidArg
  else do
    have hg : 0 < groupSizeFor groupSize k := groupSizeFor_pos fun hk => h (Or.inr (Or.inr (Or.inl hk)))
    forUp 0 m () fun i _ => do
      let r ← forWide (by decide : 0 < 8) n () fun j _ => do
        let acc ← w8DotWide n k a wQ bScales hg i j
        storeuPs c (i * n + j) acc
      w8ScalarRow n k a wQ bScales (groupSizeFor groupSize k) c i r.1
    pure paiOk

/-! ## Dispatch -/

/-- `PAI_OPT_F_SSE2` -/
abbrev paiOptFSse2 : UInt32 := 1
/-- `PAI_OPT_F_AVX2` -/
abbrev paiOptFAvx2 : UInt32 := 2
/-- `PAI_OPT_F_FMA` -/
abbrev paiOptFFma : UInt32 := 4

variable (features : UInt32)

/-- The tier that the detected features select. -/
def dispatch (avx2 sse2 portable : Kernel R PaiStatus) : Kernel R PaiStatus :=
  if features &&& paiOptFAvx2 ≠ 0 then avx2
  else if features &&& paiOptFSse2 ≠ 0 then sse2
  else portable

/-- `pai_opt_vecadd_f32` -/
def paiOptVecaddF32 (a b c : Ptr) (n : ℕ) : Kernel R PaiStatus :=
  dispatch features (optVecaddAvx2 a b c n) (optVecaddSse2 a b c n) (optVecaddPortable a b c n)

/-- `pai_opt_vecmul_f32` -/
def paiOptVecmulF32 (a b c : Ptr) (n : ℕ) : Kernel R PaiStatus :=
  dispatch features (optVecmulAvx2 a b c n) (optVecmulSse2 a b c n) (optVecmulPortable a b c n)

/-- `pai_opt_scale_f32` -/
def paiOptScaleF32 (a : Ptr) (alpha : R) (n : ℕ) : Kernel R PaiStatus :=
  dispatch features (optScaleAvx2 a alpha n) (optScaleSse2 a alpha n) (optScalePortable a alpha n)

/-- `pai_opt_relu_f32` -/
def paiOptReluF32 (a c : Ptr) (n : ℕ) : Kernel R PaiStatus :=
  dispatch features (optReluAvx2 a c n) (optReluSse2 a c n) (optReluPortable a c n)

/-- `pai_opt_softmax_f32` -/
def paiOptSoftmaxF32 (expf : WithTop R → R) (a c : Ptr) (n : ℕ) : Kernel R PaiStatus :=
  dispatch features (optSoftmaxAvx2 expf a c n) (optSoftmaxSse2 expf a c n)
    (optSoftmaxPortable expf a c n)

/-- `pai_opt_gemm_f32` -/
def paiOptGemmF32 (m n k : ℕ) (a b c : Ptr) : Kernel R PaiStatus :=
  dispatch features (optGemmAvx2 m n k a b c) (optGemmSse2 m n k a b c) (optGemmPortable m n k a b c)

/-- `pai_opt_gemv_f32` -/
def paiOptGemvF32 (m k : ℕ) (a x y : Ptr) : Kernel R PaiStatus :=
  if features &&& paiOptFAvx2 ≠ 0 then optGemvAvx2 m k a x y
  else paiOptGemmF32 features m 1 k a x y

/-- `pai_opt_gemm_w8_f32` -/
def paiOptGemmW8F32 (m n k : ℕ) (a wQ bScales : Ptr) (groupSize : ℕ) (c : Ptr) : Kernel R PaiStatus :=
  if features &&& paiOptFAvx2 ≠ 0 then optGemmW8Avx2 m n k a wQ bScales groupSize c
  else optGemmW8Portable m n k a wQ bScales groupSize c

/-- A call of one of the operations. -/
inductive CpuOp (R : Type) where
  /-- `vecadd_f32` -/
  | vecadd (a b c : Ptr) (n : ℕ)
  /-- `vecmul_f32` -/
  | vecmul (a b c : Ptr) (n : ℕ)
  /-- `scale_f32` -/
  | scale (a : Ptr) (alpha : R) (n : ℕ)
  /-- `relu_f32` -/
  | relu (a c : Ptr) (n : ℕ)
  /-- `softmax_f32` -/
  | softmax (a c : Ptr) (n : ℕ)
  /-- `gemm_f32` -/
  | gemm (m n k : ℕ) (a b c : Ptr)
  /-- `gemv_f32` -/
  | gemv (m k : ℕ) (a x y : Ptr)
  /-- `gemm_w8_f32` -/
  | gemmW8 (m n k : ℕ) (a wQ bScales : Ptr) (groupSize : ℕ) (c : Ptr)

/-- The call in the reference backend. -/
def CpuOp.ref (expf : WithTop R → R) : CpuOp R → Kernel R PaiStatus
  | .vecadd a b c n => paiRefVecaddF32 a b c n
  | .vecmul a b c n => paiRefVecmulF32 a b c n
  | .scale a alpha n => paiRefScaleF32 a alpha n
  | .relu a c n => paiRefReluF32 a c n
  | .softmax a c n => paiRefSoftmaxF32 expf a c n
  | .gemm m n k a b c => paiRefGemmF32 m n k a b c
  | .gemv m k a x y => paiRefGemvF32 m k a x y
  | .gemmW8 m n k a wQ bScales groupSize c => paiRefGemmW8F32 m n k a wQ bScales groupSize c

/-- The call in the optimised backend. -/
def CpuOp.opt (expf : WithTop R → R) : CpuOp R → Kernel R PaiStatus
  | .vecadd a b c n => paiOptVecaddF32 features a b c n
  | .vecmul a b c n => paiOptVecmulF32 features a b c n
  | .scale a alpha n => paiOptScaleF32 features a alpha n
  | .relu a c n => paiOptReluF32 features a c n
  | .softmax a c n => paiOptSoftmaxF32 features expf a c n
  | .gemm m n k a b c => paiOptGemmF32 features m n k a b c
  | .gemv m k a x y => paiOptGemvF32 features m k a x y
  | .gemmW8 m n k a wQ bScales groupSize c =>
    paiOptGemmW8F32 features m n k a wQ bScales groupSize c

end Prospero.Exact
