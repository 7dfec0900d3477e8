import Mathlib.Algebra.Order.Round
import Mathlib.Data.Rat.Floor
import Prospero.Models.Quantize
import Prospero.Lib.Sweeps

/-!
# Quantization in exact arithmetic

`pai_quantize_f32` and `pai_dequantize_f32` of `models/quantize.c` on rational numbers: programs over the
vector, the packed values, the scales and the result.  `lrintf` is a parameter.

The values are packed in place, as the source does it: two neighbours of one byte may belong to different
groups, and the store of one nibble loads the other.

The indices do not wrap, because the vector is in memory (`F32Vector`).
-/

namespace Prospero.QuantExact

open Arrays

/-! ## Memory -/

/-- The arrays of the two functions. -/
inductive QuantArray where
  /-- The vector that is quantized. -/
  | src
  /-- The packed values. -/
  | q
  /-- The scales. -/
  | scales
  /-- The dequantized vector. -/
  | out
deriving DecidableEq

/-- What the arrays hold. -/
abbrev QuantElem : QuantArray → Type
  | .src => ℚ
  | .q => Int8
  | .scales => ℚ
  | .out => ℚ

/-- Programs over the arrays. -/
abbrev Quant := Prog QuantElem

/-- A vector of floats in memory. -/
structure F32Vector where
  /-- The number of elements. -/
  n : ℕ
  /-- The elements; from the `n`th on, what follows the vector. -/
  elem : ℕ → ℚ
  /-- The bytes of the vector have addresses. -/
  fits : 4 * n < 0x10000000000000000

/-- Memory with a vector, before its quantization. -/
def F32Vector.memory (v : F32Vector) (q : ℕ → Int8) (scales out : ℕ → ℚ) : Store QuantElem
  | .src => v.elem
  | .q => q
  | .scales => scales
  | .out => out

/-- `src[i]`. -/
def loadSrc (i : ℕ) : Quant ℚ := do
  let v ← load .src i 1
  pure (v ⟨0, Nat.one_pos⟩)

/-- `q[i]`. -/
def loadQ (i : ℕ) : Quant Int8 := do
  let v ← load .q i 1
  pure (v ⟨0, Nat.one_pos⟩)

/-- `scales[g]`. -/
def loadScale (g : ℕ) : Quant ℚ := do
  let v ← load .scales g 1
  pure (v ⟨0, Nat.one_pos⟩)

/-- `out_q[i] = b`. -/
def storeQ (i : ℕ) (b : Int8) : Quant Unit := store .q i fun _ : Fin 1 => b

/-- `out_scales[g] = scale`. -/
def storeScale (g : ℕ) (scale : ℚ) : Quant Unit := store .scales g fun _ : Fin 1 => scale

/-- `out[i] = x`. -/
def storeOut (i : ℕ) (x : ℚ) : Quant Unit := store .out i fun _ : Fin 1 => x

/-! ## Quantizing -/

/-- `t1`, the end of the group that starts at `t`. -/
def groupEnd (n gs t : ℕ) : ℕ := if t + gs < n then t + gs else n

/-- The loop for `max_abs`. -/
def maxAbsLoop (t t1 : ℕ) : Quant ℚ :=
  rounds (fun i maxAbs => do
    let av ← loadSrc i
    pure (if maxAbs < |av| then |av| else maxAbs)) t (t1 - t) 0

/-- `qmax`. -/
def qmaxOf (scheme : QuantScheme) : ℤ := if scheme.bitWidth = 8 then 127 else 7

/-- `q`, the quantized value of `x`. -/
def quantCode (lrintf : ℚ → ℤ) (qmax : ℤ) (scale x : ℚ) : ℤ :=
  if 0 < scale then
    let q := lrintf (x / scale)
    let q := if qmax < q then qmax else q
    if q < -qmax then -qmax else q
  else 0

/-- The byte in which `nib` replaces the nibble of element `i`, the low one when `i` is even. -/
def packNibble (i : ℕ) (byte nib : Int8) : Int8 :=
  if i % 2 = 0 then (byte &&& (0xF0 : Int8)) ||| (nib &&& (0x0F : Int8))
  else (byte &&& (0x0F : Int8)) ||| (nib <<< (4 : Int8))

/-- The store of `q` as element `i`. -/
def storeCode (scheme : QuantScheme) (i : ℕ) (q : ℤ) : Quant Unit :=
  if scheme.bitWidth = 4 then do
    let nib := Int8.ofInt (q % 16)
    let byte ← loadQ (i / 2)
    storeQ (i / 2) (packNibble i byte nib)
  else storeQ i (Int8.ofInt q)

/-- One round of the group loop; it is given and returns `g`. -/
def quantizeGroup (lrintf : ℚ → ℤ) (scheme : QuantScheme) (n gs t g : ℕ) : Quant ℕ := do
  let t1 := groupEnd n gs t
  let maxAbs ← maxAbsLoop t t1
  let scale := if 0 < maxAbs then maxAbs / qmaxOf scheme else 0
  storeScale g scale
  rounds (fun i _ => do
    let x ← loadSrc i
    storeCode scheme i (quantCode lrintf (qmaxOf scheme) scale x)) t (t1 - t) ()
  pure (g + 1)

/-- `pai_quantize_f32`; the result is the status or the number of groups. -/
def paiQuantizeF32 (lrintf : ℚ → ℤ) (scheme : QuantScheme) (n : ℕ) : Quant (Except PaiStatus ℕ) :=
  match h : quantGroupSize scheme n with
  | .error st => pure (.error st)
  | .ok gs => do
    store .q 0 fun _ : Fin (paiQuantValueBytes n scheme) => (0 : Int8)
    let r ← forStep 1 (Nat.pos_of_ne_zero (quantGroupSize_ok h).1) n
      (quantizeGroup lrintf scheme n gs) 0 0
    pure (.ok r.2)

/-! ## Dequantizing -/

/-- The nibble of element `i`. -/
def nibbleOf (i : ℕ) (byte : Int8) : Int8 :=
  if i % 2 = 0 then byte &&& (0x0F : Int8) else (byte >>> (4 : Int8)) &&& (0x0F : Int8)

/-- A nibble, sign-extended. -/
def signedNibble (nib : Int8) : ℤ :=
  if nib &&& (0x08 : Int8) ≠ 0 then nib.toInt - 16 else nib.toInt

/-- `qv` from the byte of element `i`. -/
def codeOf (scheme : QuantScheme) (i : ℕ) (byte : Int8) : ℤ :=
  if scheme.bitWidth = 4 then signedNibble (nibbleOf i byte) else byte.toInt

/-- The byte of element `i`. -/
def placeOf (scheme : QuantScheme) (i : ℕ) : ℕ := if scheme.bitWidth = 4 then i / 2 else i

/-- One round of the group loop. -/
def dequantizeGroup (scheme : QuantScheme) (n gs t g : ℕ) : Quant ℕ := do
  let t1 := groupEnd n gs t
  let scale ← loadScale g
  rounds (fun i _ => do
    let byte ← loadQ (placeOf scheme i)
    storeOut i (scale * codeOf scheme i byte)) t (t1 - t) ()
  pure (g + 1)

/-- `pai_dequantize_f32`. -/
def paiDequantizeF32 (scheme : QuantScheme) (n : ℕ) : Quant PaiStatus :=
  match h : quantGroupSize scheme n with
  | .error st => pure st
  | .ok gs => do
    let _ ← forStep 1 (Nat.pos_of_ne_zero (quantGroupSize_ok h).1) n (dequantizeGroup scheme n gs) 0 0
    pure paiOk

end Prospero.QuantExact
