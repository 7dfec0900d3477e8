import Mathlib.Algebra.Field.Basic
import Mathlib.Algebra.Order.Ring.WithTop
import Mathlib.Order.WithBot
import Prospero.Lib.Arrays
import Prospero.Status

/-!
# The reference operations in exact arithmetic

The operations of `cpu/reference/ref_ops.c` that have an optimised twin, over any ordered field in place of
`float`.  `expf` is a parameter, also defined at infinity.

A pointer names an array, and `NULL` is `none`.  Indices are natural numbers: they count elements of arrays
that exist, so the 64 bits of the code hold them.  Two operands may be the same array.

### Outline

* `zipScalar`, `mapScalar`, `softmaxScalar`, `gemmScalarRow`, `w8ScalarRow` : the scalar loops.  The portable
  tier has the same ones, and the vector tiers run them on what is left of a row.
-/

namespace Prospero.Exact

open Arrays

/-- A pointer to an array, `NULL` is `none`. -/
abbrev Ptr := Option ℕ

/-- The arrays of memory: those of `float`s and those of `int8_t`s. -/
inductive Buf where
  /-- An array of `float`s. -/
  | f32 (p : Ptr)
  /-- An array of `int8_t`s. -/
  | i8 (p : Ptr)
  deriving DecidableEq

/-- The elements of an array. -/
abbrev Buf.Elem (R : Type) : Buf → Type
  | .f32 _ => R
  | .i8 _ => Int8

/-- The code of an operation. -/
abbrev Kernel (R : Type) := Prog (Buf.Elem R)

/-- Memory. -/
abbrev Memory (R : Type) := Store (Buf.Elem R)

section Loops

variable {R : Type} {α : Type}

/-- `p[i]` -/
def loadF32 (p : Ptr) (i : ℕ) : Kernel R R := do
  let v ← load (.f32 p) i 1
  pure (v ⟨0, Nat.one_pos⟩)

/-- `p[i]` of an array of `int8_t`s. -/
def loadI8 (p : Ptr) (i : ℕ) : Kernel R Int8 := do
  let v ← load (.i8 p) i 1
  pure (v ⟨0, Nat.one_pos⟩)

/-- `p[i] = x` -/
def storeF32 (p : Ptr) (i : ℕ) (x : R) : Kernel R Unit := store (.f32 p) i fun _ : Fin 1 => x

/-- `for (; i < n; i++)` -/
def forUp (i n : ℕ) (b : α) (body : ℕ → α → Kernel R α) : Kernel R α := do
  let r ← forStep 1 Nat.zero_lt_one n body i b
  pure r.2

/-- `c[i] = op(a[i], b[i])` from the `i`th element on. -/
def zipScalar (op : R → R → R) (a b c : Ptr) (i n : ℕ) : Kernel R Unit :=
  forUp i n () fun i _ => do
    let x ← loadF32 a i
    let y ← loadF32 b i
    storeF32 c i (op x y)

/-- `c[i] = op(a[i])` from the `i`th element on. -/
def mapScalar (op : R → R) (a c : Ptr) (i n : ℕ) : Kernel R Unit :=
  forUp i n () fun i _ => do
    let x ← loadF32 a i
    storeF32 c i (op x)

end Loops

variable {R : Type} [Field R] [LinearOrder R]

/-! ## Element-wise operations -/

/-- The operations with two operands. -/
def zipOp (op : R → R → R) (a b c : Ptr) (n : ℕ) : Kernel R PaiStatus :=
  if (a = none ∨ b = none ∨ c = none) ∧ n ≠ 0 then pure paiErrInvalidArg
  else do
    zipScalar op a b c 0 n
    pure paiOk

/-- `pai_ref_vecadd_f32` -/
def paiRefVecaddF32 (a b c : Ptr) (n : ℕ) : Kernel R PaiStatus := zipOp (fun x y => x + y) a b c n

/-- `pai_ref_vecmul_f32` -/
def paiRefVecmulF32 (a b c : Ptr) (n : ℕ) : Kernel R PaiStatus := zipOp (fun x y => x * y) a b c n

/-- `pai_ref_scale_f32` -/
def paiRefScaleF32 (a : Ptr) (alpha : R) (n : ℕ) : Kernel R PaiStatus :=
  if a = none ∧ n ≠ 0 then pure paiErrInvalidArg
  else do
    mapScalar (fun x => alpha * x) a a 0 n
    pure paiOk

/-- `x > 0.0f ? x : 0.0f` -/
def reluScalar (x : R) : R := if 0 < x then x else 0

/-- `pai_ref_relu_f32` -/
def paiRefReluF32 (a c : Ptr) (n : ℕ) : Kernel R PaiStatus :=
  if (a = none ∨ c = none) ∧ n ≠ 0 then pure paiErrInvalidArg
  else do
    mapScalar reluScalar a c 0 n
    pure paiOk

/-! ## Softmax

The largest element starts at `-INFINITY` in the vector tiers, so it may be `⊥` on the way. -/

/-- `x - maxv` -/
def subMax (x : R) : WithBot R → WithTop R
  | none => ⊤
  | some m => ((x - m : R) : WithTop R)

/-- The larger one of `maxv` and the elements of `a` from the `i`th on. -/
def softmaxMax (a : Ptr) (i n : ℕ) (maxv : WithBot R) : Kernel R (WithBot R) :=
  forUp i n maxv fun i maxv => do
    let x ← loadF32 a i
    pure (if maxv < (x : WithBot R) then (x : WithBot R) else maxv)

/-- `c[i] = expf(a[i] - maxv)` from the `i`th element on, and the sum of these. -/
def softmaxExp (expf : WithTop R → R) (a c : Ptr) (maxv : WithBot R) (i n : ℕ) (sum : R) : Kernel R R :=
  forUp i n sum fun i sum => do
    let x ← loadF32 a i
    let e := expf (subMax x maxv)
    storeF32 c i e
    pure (sum + e)

/-- `c[i] /= sum` -/
def softmaxDiv (c : Ptr) (sum : R) (n : ℕ) : Kernel R Unit := mapScalar (fun x => x / sum) c c 0 n

/-- The scalar softmax. -/
def softmaxScalar (expf : WithTop R → R) (a c : Ptr) (n : ℕ) : Kernel R PaiStatus :=
  if n = 0 ∨ a = none ∨ c = none then pure paiErrInvalidArg
  else do
    let x ← loadF32 a 0
    let maxv ← softmaxMax a 1 n x
    let sum ← softmaxExp expf a c maxv 0 n 0
    softmaxDiv c sum n
    pure paiOk

/-- `pai_ref_softmax_f32` -/
def paiRefSoftmaxF32 (expf : WithTop R → R) (a c : Ptr) (n : ℕ) : Kernel R PaiStatus :=
  softmaxScalar expf a c n

/-! ## Matrix products -/

/-- The dot product of row `i` of `a` and column `j` of `b`. -/
def gemmDot (n k : ℕ) (a b : Ptr) (i j : ℕ) : Kernel R R :=
  forUp 0 k 0 fun l sum => do
    let x ← loadF32 a (i * k + l)
    let y ← loadF32 b (l * n + j)
    pure (sum + x * y)

/-- The columns of row `i` of `c` from the `j`th on. -/
def gemmScalarRow (n k : ℕ) (a b c : Ptr) (i j : ℕ) : Kernel R Unit :=
  forUp j n () fun j _ => do
    let sum ← gemmDot n k a b i j
    storeF32 c (i * n + j) sum

/-- The scalar matrix product. -/
def gemmScalar (m n k : ℕ) (a b c : Ptr) : Kernel R PaiStatus :=
  if m = 0 ∨ n = 0 ∨ k = 0 ∨ a = none ∨ b = none ∨ c = none then pure paiErrInvalidArg
  else do
    forUp 0 m () fun i _ => gemmScalarRow n k a b c i 0
    pure paiOk

/-- `pai_ref_gemm_f32` -/
def paiRefGemmF32 (m n k : ℕ) (a b c : Ptr) : Kernel R PaiStatus := gemmScalar m n k a b c

/-- `pai_ref_gemv_f32` -/
def paiRefGemvF32 (m k : ℕ) (a x y : Ptr) : Kernel R PaiStatus :=
  if m = 0 ∨ k = 0 ∨ a = none ∨ x = none ∨ y = none then pure paiErrInvalidArg
  else do
    forUp 0 m () fun i _ => do
      let acc ← forUp 0 k 0 fun j acc => do
        let aij ← loadF32 a (i * k + j)
        let xj ← loadF32 x j
        pure (acc + aij * xj)
      storeF32 y i acc
    pure paiOk

/-- An `int8_t` as a number. -/
def ofInt8 (w : Int8) : R := (w.toInt : R)

/-- The group size in use: `0` and more than `k` stand for one group. -/
def groupSizeFor (groupSize k : ℕ) : ℕ := if groupSize = 0 ∨ k < groupSize then k else groupSize

/-- The dot product of row `i` of `a` and column `j` of the weights, each weight with the scale of its group
of `g` rows. -/
def w8Dot (n k : ℕ) (a wQ bScales : Ptr) (g i j : ℕ) : Kernel R R :=
  forUp 0 k 0 fun t sum => do
    let s ← loadF32 bScales (t / g * n + j)
    let x ← loadF32 a (i * k + t)
    let w ← loadI8 wQ (t * n + j)
    pure (sum + x * ofInt8 w * s)

/-- The columns of row `i` of `c` from the `j`th on. -/
def w8ScalarRow (n k : ℕ) (a wQ bScales : Ptr) (g : ℕ) (c : Ptr) (i j : ℕ) : Kernel R Unit :=
  forUp j n () fun j _ => do
    let sum ← w8Dot n k a wQ bScales g i j
    storeF32 c (i * n + j) sum

/-- The scalar product with eight-bit weights. -/
def gemmW8Scalar (m n k : ℕ) (a wQ bScales : Ptr) (groupSize : ℕ) (c : Ptr) : Kernel R PaiStatus :=
  if m = 0 ∨ n = 0 ∨ k = 0 ∨ a = none ∨ wQ = none ∨ bScales = none ∨ c = none then
    pure paiErrInvalidArg
  else do
    forUp 0 m () fun i _ => w8ScalarRow n k a wQ bScales (groupSizeFor groupSize k) c i 0
    pure paiOk

/-- `pai_ref_gemm_w8_f32` -/
def paiRefGemmW8F32 (m n k : ℕ) (a wQ bScales : Ptr) (groupSize : ℕ) (c : Ptr) : Kernel R PaiStatus :=
  gemmW8Scalar m n k a wQ bScales groupSize c

end Prospero.Exact
