import Mathlib.Algebra.Order.BigOperators.GroupWithZero.List
import Mathlib.Algebra.Order.Ring.Nat
import Mathlib.Tactic.Common
import Mathlib.Tactic.Linarith
import Prospero.Status

/-!
# Tensor shapes

Element types (`tensor/dtype.c`) and the byte size of a dense buffer (`tensor/tensor.c`).  A size is
computed with a check before each multiplication, so a size that is returned is the exact product
(`paiTensorContiguousSize_spec`).
-/

namespace Prospero

/-- `pai_dtype_t`. -/
inductive PaiDtype where
  | f32
  | f16
  | bf16
  | i32
  | u32
  | i16
  | u16
  | i8
  | u8
deriving DecidableEq

/-- The number of an element type. -/
def PaiDtype.code : PaiDtype → UInt8
  | .f32 => 0
  | .f16 => 1
  | .bf16 => 2
  | .i32 => 3
  | .u32 => 4
  | .i16 => 5
  | .u16 => 6
  | .i8 => 7
  | .u8 => 8

/-- The element type of a number, `none` from `PAI_DTYPE_COUNT` on. -/
def PaiDtype.ofCode (code : UInt8) : Option PaiDtype :=
  [.f32, .f16, .bf16, .i32, .u32, .i16, .u16, .i8, .u8][code.toNat]?

@[simp] lemma PaiDtype.ofCode_code (dtype : PaiDtype) : PaiDtype.ofCode dtype.code = some dtype := by
  cases dtype <;> rfl

/-- `pai_dtype_size`. -/
def paiDtypeSize : PaiDtype → UInt64
  | .f32 | .i32 | .u32 => 4
  | .f16 | .bf16 | .i16 | .u16 => 2
  | .i8 | .u8 => 1

lemma paiDtypeSize_pos (dtype : PaiDtype) : 0 < (paiDtypeSize dtype).toNat := by
  cases dtype <;> decide

/-- `PAI_TENSOR_MAX_RANK`. -/
abbrev paiTensorMaxRank : ℕ := 6

/-- The loop of `pai_tensor_contiguous_size`: multiply the extents, refusing a zero extent and an
overflow. -/
def shapeProduct : UInt64 → List UInt64 → Option UInt64
  | n, [] => some n
  | n, d :: ds => if d = 0 ∨ uint64Max / d < n then none else shapeProduct (n * d) ds

/-- `pai_tensor_contiguous_size`; the rank is the length of the shape. -/
def paiTensorContiguousSize (dtype : PaiDtype) (shape : List UInt64) : Except PaiStatus UInt64 :=
  if shape.length = 0 ∨ paiTensorMaxRank < shape.length then .error paiErrInvalidArg
  else
    match shapeProduct 1 shape with
    | none => .error paiErrInvalidArg
    | some n =>
      if uint64Max / paiDtypeSize dtype < n then .error paiErrInvalidArg
      else .ok (n * paiDtypeSize dtype)

/-- The number of elements of a shape, without a bound. -/
def elementCount (shape : List UInt64) : ℕ := (shape.map UInt64.toNat).prod

/-- A product that passed its overflow check is exact. -/
lemma toNat_mul_of_le_div {n d : UInt64} (hd : d ≠ 0) (h : ¬ uint64Max / d < n) :
    (n * d).toNat = n.toNat * d.toNat := by
  have hpos : 0 < d.toNat := by
    have hne : d.toNat ≠ 0 := fun hz => hd (UInt64.toNat_inj.mp hz)
    omega
  have hle : n.toNat ≤ 0xFFFFFFFFFFFFFFFF / d.toNat := by
    have hle := UInt64.le_iff_toNat_le.mp (UInt64.not_lt.mp h)
    rwa [UInt64.toNat_div] at hle
  have hmul : n.toNat * d.toNat ≤ 0xFFFFFFFFFFFFFFFF := (Nat.le_div_iff_mul_le hpos).mp hle
  rw [UInt64.toNat_mul, Nat.mod_eq_of_lt (by omega)]

/-- The loop multiplies exactly, and all extents are positive. -/
lemma shapeProduct_spec {n m : UInt64} {shape : List UInt64} (h : shapeProduct n shape = some m) :
    m.toNat = n.toNat * elementCount shape ∧ ∀ d ∈ shape, d ≠ 0 := by
  induction shape generalizing n with
  | nil =>
    cases h
    exact ⟨(Nat.mul_one _).symm, fun d hd => absurd hd List.not_mem_nil⟩
  | cons d ds ih =>
    rw [shapeProduct] at h
    split_ifs at h with hbad
    rw [not_or] at hbad
    obtain ⟨hprod, hpos⟩ := ih h
    constructor
    · rw [hprod, toNat_mul_of_le_div hbad.1 hbad.2, elementCount, elementCount, List.map_cons,
        List.prod_cons, Nat.mul_assoc]
    · rintro e he
      rcases List.mem_cons.mp he with rfl | he
      · exact hbad.1
      · exact hpos e he

/-- A size that is returned is the exact number of bytes, and not zero. -/
theorem paiTensorContiguousSize_spec {dtype : PaiDtype} {shape : List UInt64} {bytes : UInt64}
    (h : paiTensorContiguousSize dtype shape = .ok bytes) :
    0 < shape.length ∧ shape.length ≤ paiTensorMaxRank ∧ (∀ d ∈ shape, d ≠ 0) ∧
      bytes.toNat = elementCount shape * (paiDtypeSize dtype).toNat ∧ bytes ≠ 0 := by
  unfold paiTensorContiguousSize at h
  split_ifs at h with hrank
  rw [not_or] at hrank
  split at h
  · cases h
  · next n hn =>
    split_ifs at h with hover
    cases h
    obtain ⟨hprod, hpos⟩ := shapeProduct_spec hn
    have hesize : paiDtypeSize dtype ≠ 0 := by
      intro hz
      have hsize := paiDtypeSize_pos dtype
      rw [hz] at hsize
      exact absurd hsize (lt_irrefl 0)
    have hbytes := toNat_mul_of_le_div hesize hover
    have hcount : 0 < elementCount shape := by
      apply List.prod_pos
      intro x hx
      obtain ⟨d, hd, rfl⟩ := List.mem_map.mp hx
      have hne : d.toNat ≠ 0 := fun hz => hpos d hd (UInt64.toNat_inj.mp hz)
      omega
    have hone : n.toNat = elementCount shape := hprod.trans (Nat.one_mul _)
    refine ⟨by omega, by omega, hpos, by rw [hbytes, hone], ?_⟩
    intro hz
    have hzero : (n * paiDtypeSize dtype).toNat = 0 := by rw [hz]; rfl
    rw [hbytes, hone] at hzero
    have hmul := Nat.mul_pos hcount (paiDtypeSize_pos dtype)
    omega

/-- A product of extents is exact when it does not overflow. -/
lemma toNat_foldl_mul {shape : List UInt64} {n : UInt64}
    (h : n.toNat * elementCount shape < 2 ^ 64) (hpos : ∀ d ∈ shape, d ≠ 0) :
    (shape.foldl (· * ·) n).toNat = n.toNat * elementCount shape := by
  induction shape generalizing n with
  | nil => exact (Nat.mul_one _).symm
  | cons d ds ih =>
    have hcount : elementCount (d :: ds) = d.toNat * elementCount ds := by
      rw [elementCount, elementCount, List.map_cons, List.prod_cons]
    rw [hcount, ← Nat.mul_assoc] at h ⊢
    have hds : 0 < elementCount ds := by
      apply List.prod_pos
      intro x hx
      obtain ⟨e, he, rfl⟩ := List.mem_map.mp hx
      have hne : e.toNat ≠ 0 := fun hz => hpos e (List.mem_cons_of_mem d he) (UInt64.toNat_inj.mp hz)
      omega
    have hnd : n.toNat * d.toNat < 2 ^ 64 := by
      calc n.toNat * d.toNat = n.toNat * d.toNat * 1 := (Nat.mul_one _).symm
        _ ≤ n.toNat * d.toNat * elementCount ds := Nat.mul_le_mul_left _ hds
        _ < 2 ^ 64 := h
    have hmul : (n * d).toNat = n.toNat * d.toNat := by
      rw [UInt64.toNat_mul, Nat.mod_eq_of_lt hnd]
    rw [List.foldl_cons, ih (by rw [hmul]; exact h) fun e he => hpos e (List.mem_cons_of_mem d he),
      hmul]

/-- The product of the extents of a tensor that has a size is its element count. -/
lemma toNat_foldl_of_contiguousSize {dtype : PaiDtype} {shape : List UInt64} {bytes : UInt64}
    (h : paiTensorContiguousSize dtype shape = .ok bytes) :
    (shape.foldl (· * ·) 1).toNat = elementCount shape := by
  obtain ⟨-, -, hpos, hsize, -⟩ := paiTensorContiguousSize_spec h
  have hlt := bytes.toNat_lt
  have hle : elementCount shape ≤ bytes.toNat := by
    rw [hsize]
    exact Nat.le_mul_of_pos_right _ (paiDtypeSize_pos dtype)
  have hone : (1 : UInt64).toNat * elementCount shape = elementCount shape := Nat.one_mul _
  rw [toNat_foldl_mul (by rw [hone]; omega) hpos, hone]

end Prospero
