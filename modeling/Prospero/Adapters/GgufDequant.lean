import Prospero.Adapters.GgufSafe
import Prospero.Lib.Sweeps

/-!
# Dequantization of GGUF tensors

`pai_gguf_dequant` of `adapters/llama/gguf.c`: the sizes of a tensor and the fifteen block layouts of
`dequant_block`, as programs over the bytes of the file and the floats of the destination.

Pointers into the file and into the destination are indices; a run lists its accesses, inside or outside.
The arithmetic of floats is a parameter.

### Outline

* Sizes.
* Reading and converting.
* The layouts.
* `dequant_block`, `pai_gguf_dequant`.
-/

namespace Prospero

open Arrays

/-! ## Sizes -/

/-- `pai_gguf_tensor_numel`, in 64-bit arithmetic. -/
def paiGgufTensorNumel (t : GgufTensor) : UInt64 :=
  if t.dims = [] then 0 else t.dims.foldl (· * ·) 1

/-- The bytes of a tensor in blocks of `len` elements and `per` bytes. -/
def blockedBytes (len per numel : UInt64) : UInt64 :=
  if numel % len = 0 then numel / len * per else 0

/-- `pai_gguf_type_bytes`. -/
def paiGgufTypeBytes (type : UInt32) (numel : UInt64) : UInt64 :=
  match type.toNat with
  | 0 => numel * 4
  | 1 => numel * 2
  | 20 => numel * 2
  | 2 => blockedBytes 32 18 numel
  | 3 => blockedBytes 32 20 numel
  | 6 => blockedBytes 32 22 numel
  | 7 => blockedBytes 32 24 numel
  | 8 => blockedBytes 32 34 numel
  | 9 => blockedBytes 32 36 numel
  | 10 => blockedBytes 256 84 numel
  | 11 => blockedBytes 256 110 numel
  | 12 => blockedBytes 256 144 numel
  | 13 => blockedBytes 256 176 numel
  | 14 => blockedBytes 256 210 numel
  | 15 => blockedBytes 256 292 numel
  | _ => 0

/-! ## Reading and converting -/

/-- The arrays of `dequant_block`. -/
inductive DequantArray where
  /-- The bytes of the file. -/
  | src
  /-- The floats of the destination. -/
  | dst
deriving DecidableEq

/-- What the arrays hold. -/
abbrev DequantElem (F : Type) : DequantArray → Type
  | .src => UInt8
  | .dst => F

/-- Programs over the two arrays. -/
abbrev Dequant (F : Type) := Prog (DequantElem F)

/-- The arithmetic of floats. -/
structure FloatOps (F : Type) where
  /-- The float with the bits. -/
  ofBits : UInt32 → F
  /-- Conversion of an integer. -/
  ofInt : ℤ → F
  /-- Product. -/
  mul : F → F → F
  /-- Sum. -/
  add : F → F → F
  /-- Difference. -/
  sub : F → F → F

variable {F : Type}

/-- Read a byte. -/
def readByte (p : ℕ) : Dequant F UInt8 := do
  let v ← load .src p 1
  pure (v 0)

/-- Read a little-endian 16-bit number. -/
def readU16 (p : ℕ) : Dequant F UInt16 := do
  let b0 ← readByte p
  let b1 ← readByte (p + 1)
  pure (b0.toUInt16 ||| (b1.toUInt16 <<< 8))

/-- Read a little-endian 32-bit number. -/
def readU32 (p : ℕ) : Dequant F UInt32 := do
  let b0 ← readByte p
  let b1 ← readByte (p + 1)
  let b2 ← readByte (p + 2)
  let b3 ← readByte (p + 3)
  pure (b0.toUInt32 ||| (b1.toUInt32 <<< 8) ||| (b2.toUInt32 <<< 16) ||| (b3.toUInt32 <<< 24))

/-- `dst[i] = x`. -/
def writeFloat (i : ℕ) (x : F) : Dequant F Unit := store .dst i fun _ : Fin 1 => x

/-- The shift loop of `f16_to_f32` on a subnormal mantissa; ten shifts reach its leading bit. -/
def normalizeF16 : ℕ → UInt32 → UInt32 → UInt32 × UInt32
  | 0, exp, mant => (exp, mant)
  | n + 1, exp, mant =>
    if mant &&& (0x400 : UInt32) = 0 then normalizeF16 n (exp - 1) (mant <<< 1) else (exp, mant)

/-- The bits that `f16_to_f32` computes. -/
def f16ToF32 (h : UInt16) : UInt32 :=
  let sign := (h &&& 0x8000).toUInt32 <<< 16
  let exp := ((h >>> 10) &&& 0x1F).toUInt32
  let mant := (h &&& 0x3FF).toUInt32
  if exp = 0 then
    if mant = 0 then sign
    else
      let (exp, mant) := normalizeF16 10 (127 - 15 + 1) mant
      sign ||| (exp <<< 23) ||| ((mant &&& 0x3FF) <<< 13)
  else if exp = 31 then sign ||| (0x7F800000 : UInt32) ||| (mant <<< 13)
  else sign ||| ((exp + 127 - 15) <<< 23) ||| (mant <<< 13)

variable (fl : FloatOps F)

/-- `le_f16`. -/
def leF16 (p : ℕ) : Dequant F F := do
  let h ← readU16 p
  pure (fl.ofBits (f16ToF32 h))

/-- A byte as `(float)` of its value. -/
def ofByte (b : UInt8) : F := fl.ofInt b.toNat

/-- A byte as `(float)(int8_t)`. -/
def ofInt8 (b : UInt8) : F := fl.ofInt b.toInt8.toInt

/-- `get_scale_min_k4`: scale and minimum of sub-block `j`. -/
def getScaleMinK4 (j q : ℕ) : Dequant F (UInt8 × UInt8) :=
  if j < 4 then do
    let d ← readByte (q + j)
    let m ← readByte (q + (j + 4))
    pure (d &&& 63, m &&& 63)
  else do
    let a ← readByte (q + (j + 4))
    let b ← readByte (q + (j - 4))
    let c ← readByte (q + j)
    pure ((a &&& (0x0F : UInt8)) ||| ((b >>> 6) <<< 4), (a >>> 4) ||| ((c >>> 6) <<< 4))

/-! ## The layouts

A layout turns one block at `src` into floats at `dst` and returns the pointers behind them. -/

/-- The loop over `numel` elements of `width` bytes. -/
def floatLoop (width : ℕ) (convert : ℕ → Dequant F F) (src dst numel : ℕ) : Dequant F ℕ :=
  rounds (fun i p => do
    let x ← convert p
    writeFloat (dst + i) x
    pure (p + width)) 0 numel src

/-- `PAI_GGUF_F32`: an element. -/
def convertF32 (p : ℕ) : Dequant F F := do
  let bits ← readU32 p
  pure (fl.ofBits bits)

/-- `PAI_GGUF_BF16`: an element. -/
def convertBf16 (p : ℕ) : Dequant F F := do
  let h ← readU16 p
  pure (fl.ofBits (h.toUInt32 <<< 16))

/-- The loop over the 16 bytes at `qs` whose nibbles are the elements `j` and `j + 16`. -/
def nibbleLoop (qs dst : ℕ) (lo hi : ℕ → UInt8 → F) : Dequant F Unit :=
  rounds (fun j _ => do
    let q ← readByte (qs + j)
    writeFloat (dst + j) (lo j q)
    writeFloat (dst + (j + 16)) (hi j q)) 0 16 ()

/-- `PAI_GGUF_Q4_0`. -/
def dequantQ40 (src dst : ℕ) : Dequant F (ℕ × ℕ) := do
  let d ← leF16 fl src
  nibbleLoop (src + 2) dst
    (fun _ q => fl.mul (fl.ofInt ((q &&& 0x0F).toNat - 8)) d)
    (fun _ q => fl.mul (fl.ofInt ((q >>> 4).toNat - 8)) d)
  pure (src + 18, dst + 32)

/-- `PAI_GGUF_Q4_1`. -/
def dequantQ41 (src dst : ℕ) : Dequant F (ℕ × ℕ) := do
  let d ← leF16 fl src
  let m ← leF16 fl (src + 2)
  nibbleLoop (src + 4) dst
    (fun _ q => fl.add (fl.mul (ofByte fl (q &&& 0x0F)) d) m)
    (fun _ q => fl.add (fl.mul (ofByte fl (q >>> 4)) d) m)
  pure (src + 20, dst + 32)

/-- `xh_0`: the fifth bit of element `j`. -/
def xh0 (qh : UInt32) (j : ℕ) : UInt8 := (((qh >>> UInt32.ofNat j) <<< 4) &&& 0x10).toUInt8

/-- `xh_1`: the fifth bit of element `j + 16`. -/
def xh1 (qh : UInt32) (j : ℕ) : UInt8 := ((qh >>> UInt32.ofNat (j + 12)) &&& 0x10).toUInt8

/-- `PAI_GGUF_Q5_0`. -/
def dequantQ50 (src dst : ℕ) : Dequant F (ℕ × ℕ) := do
  let d ← leF16 fl src
  let qh ← readU32 (src + 2)
  nibbleLoop (src + 6) dst
    (fun j q => fl.mul (fl.ofInt (((q &&& 0x0F) ||| xh0 qh j).toNat - 16)) d)
    (fun j q => fl.mul (fl.ofInt (((q >>> 4) ||| xh1 qh j).toNat - 16)) d)
  pure (src + 22, dst + 32)

/-- `PAI_GGUF_Q5_1`. -/
def dequantQ51 (src dst : ℕ) : Dequant F (ℕ × ℕ) := do
  let d ← leF16 fl src
  let m ← leF16 fl (src + 2)
  let qh ← readU32 (src + 4)
  nibbleLoop (src + 8) dst
    (fun j q => fl.add (fl.mul (ofByte fl ((q &&& 0x0F) ||| xh0 qh j)) d) m)
    (fun j q => fl.add (fl.mul (ofByte fl ((q >>> 4) ||| xh1 qh j)) d) m)
  pure (src + 24, dst + 32)

/-- The loop over `n` signed bytes at `qs`. -/
def int8Loop (qs dst n : ℕ) (d : F) : Dequant F Unit :=
  rounds (fun j _ => do
    let q ← readByte (qs + j)
    writeFloat (dst + j) (fl.mul (ofInt8 fl q) d)) 0 n ()

/-- `PAI_GGUF_Q8_0`. -/
def dequantQ80 (src dst : ℕ) : Dequant F (ℕ × ℕ) := do
  let d ← leF16 fl src
  int8Loop fl (src + 2) dst 32 d
  pure (src + 34, dst + 32)

/-- `PAI_GGUF_Q8_1`. -/
def dequantQ81 (src dst : ℕ) : Dequant F (ℕ × ℕ) := do
  let d ← leF16 fl src
  int8Loop fl (src + 4) dst 32 d
  pure (src + 36, dst + 32)

/-- The loop `*dst++ = value(l)` over 16 bytes at `q`. -/
def pushLoop (q : ℕ) (value : ℕ → UInt8 → Dequant F F) (dst : ℕ) : Dequant F ℕ :=
  rounds (fun l dst => do
    let b ← readByte (q + l)
    let x ← value l b
    writeFloat dst x
    pure (dst + 1)) 0 16 dst

/-- `PAI_GGUF_Q2_K`. -/
def dequantQ2K (src dst : ℕ) : Dequant F (ℕ × ℕ) := do
  let sc := src
  let d ← leF16 fl (src + 80)
  let min ← leF16 fl (src + 82)
  -- `q`, `is` and `dst` are carried from one half of the block to the next
  let (_, _, dst) ← rounds (fun _ (q, is, dst) => do
    let (is, _, dst) ← rounds (fun _ (is, shift, dst) => do
      let s ← readByte (sc + is)
      let dl := fl.mul d (ofByte fl (s &&& 0x0F))
      let ml := fl.mul min (ofByte fl (s >>> 4))
      let dst ← pushLoop q
        (fun _ b => pure (fl.sub (fl.mul dl (ofInt8 fl ((b >>> shift) &&& 3))) ml)) dst
      let s ← readByte (sc + (is + 1))
      let dl := fl.mul d (ofByte fl (s &&& 0x0F))
      let ml := fl.mul min (ofByte fl (s >>> 4))
      let dst ← pushLoop (q + 16)
        (fun _ b => pure (fl.sub (fl.mul dl (ofInt8 fl ((b >>> shift) &&& 3))) ml)) dst
      pure (is + 2, shift + 2, dst)) 0 4 (is, (0 : UInt8), dst)
    pure (q + 32, is, dst)) 0 2 (src + 16, 0, dst)
  pure (src + 84, dst)

/-- The unpacked scales of `PAI_GGUF_Q3_K`: 16 bytes in four words. -/
def unpackScales (aux0 aux1 tmp : UInt32) (is : ℕ) : UInt8 :=
  let word : UInt32 :=
    match is / 4 with
    | 0 => (aux0 &&& (0x0F0F0F0F : UInt32)) ||| (((tmp >>> 0) &&& (0x03030303 : UInt32)) <<< 4)
    | 1 => (aux1 &&& (0x0F0F0F0F : UInt32)) ||| (((tmp >>> 2) &&& (0x03030303 : UInt32)) <<< 4)
    | 2 => ((aux0 >>> 4) &&& (0x0F0F0F0F : UInt32)) ||| (((tmp >>> 4) &&& (0x03030303 : UInt32)) <<< 4)
    | _ => ((aux1 >>> 4) &&& (0x0F0F0F0F : UInt32)) ||| (((tmp >>> 6) &&& (0x03030303 : UInt32)) <<< 4)
  (word >>> UInt32.ofNat (8 * (is % 4))).toUInt8

/-- `PAI_GGUF_Q3_K`. -/
def dequantQ3K (src dst : ℕ) : Dequant F (ℕ × ℕ) := do
  let hm := src
  let dAll ← leF16 fl (src + 108)
  let aux0 ← readU32 (src + 96)
  let aux1 ← readU32 (src + 100)
  let tmp ← readU32 (src + 104)
  let scale (is : ℕ) := fl.mul dAll (fl.ofInt ((unpackScales aux0 aux1 tmp is).toInt8.toInt - 32))
  let (_, _, _, dst) ← rounds (fun _ (q, is, m, dst) => do
    let (is, _, m, dst) ← rounds (fun _ (is, shift, m, dst) => do
      let value (hm : ℕ) (dl : F) (l : ℕ) (b : UInt8) : Dequant F F := do
        let h ← readByte (hm + l)
        pure (fl.mul dl (fl.sub (ofInt8 fl ((b >>> shift) &&& 3))
          (if h &&& m ≠ 0 then fl.ofInt 0 else fl.ofInt 4)))
      let dst ← pushLoop q (value hm (scale is)) dst
      let dst ← pushLoop (q + 16) (value (hm + 16) (scale (is + 1))) dst
      pure (is + 2, shift + 2, m <<< 1, dst)) 0 4 (is, (0 : UInt8), m, dst)
    pure (q + 32, is, m, dst)) 0 2 (src + 32, 0, (1 : UInt8), dst)
  pure (src + 110, dst)

/-- The loop `dst[l] = value(l)` over 32 bytes at `q`. -/
def putLoop (q dst : ℕ) (value : ℕ → UInt8 → Dequant F F) : Dequant F Unit :=
  rounds (fun l _ => do
    let b ← readByte (q + l)
    let x ← value l b
    writeFloat (dst + l) x) 0 32 ()

/-- `PAI_GGUF_Q4_K`. -/
def dequantQ4K (src dst : ℕ) : Dequant F (ℕ × ℕ) := do
  let sc := src + 4
  let d ← leF16 fl src
  let min ← leF16 fl (src + 2)
  let (_, _, dst) ← rounds (fun _ (q, is, dst) => do
    let (s, m) ← getScaleMinK4 (is + 0) sc
    let d1 := fl.mul d (ofByte fl s)
    let m1 := fl.mul min (ofByte fl m)
    let (s, m) ← getScaleMinK4 (is + 1) sc
    let d2 := fl.mul d (ofByte fl s)
    let m2 := fl.mul min (ofByte fl m)
    putLoop q dst fun _ b => pure (fl.sub (fl.mul d1 (ofByte fl (b &&& 0x0F))) m1)
    putLoop q (dst + 32) fun _ b => pure (fl.sub (fl.mul d2 (ofByte fl (b >>> 4))) m2)
    pure (q + 32, is + 2, dst + 64)) 0 4 (src + 16, 0, dst)
  pure (src + 144, dst)

/-- `PAI_GGUF_Q5_K`. -/
def dequantQ5K (src dst : ℕ) : Dequant F (ℕ × ℕ) := do
  let qh := src + 16
  let sc := src + 4
  let d ← leF16 fl src
  let min ← leF16 fl (src + 2)
  let (_, _, _, _, dst) ← rounds (fun _ (ql, is, u1, u2, dst) => do
    let (s, m) ← getScaleMinK4 (is + 0) sc
    let d1 := fl.mul d (ofByte fl s)
    let m1 := fl.mul min (ofByte fl m)
    let (s, m) ← getScaleMinK4 (is + 1) sc
    let d2 := fl.mul d (ofByte fl s)
    let m2 := fl.mul min (ofByte fl m)
    putLoop ql dst fun l b => do
      let h ← readByte (qh + l)
      pure (fl.sub (fl.mul d1 (fl.ofInt ((b &&& 0x0F).toNat + if h &&& u1 ≠ 0 then 16 else 0))) m1)
    putLoop ql (dst + 32) fun l b => do
      let h ← readByte (qh + l)
      pure (fl.sub (fl.mul d2 (fl.ofInt ((b >>> 4).toNat + if h &&& u2 ≠ 0 then 16 else 0))) m2)
    pure (ql + 32, is + 2, u1 <<< 2, u2 <<< 2, dst + 64)) 0 4
    (src + 48, 0, (1 : UInt8), (2 : UInt8), dst)
  pure (src + 176, dst)

/-- `PAI_GGUF_Q6_K`. -/
def dequantQ6K (src dst : ℕ) : Dequant F (ℕ × ℕ) := do
  let d ← leF16 fl (src + 208)
  let (_, _, _, dst) ← rounds (fun _ (ql, qh, sc, dst) => do
    rounds (fun l _ => do
      let is := l / 16
      let a ← readByte (ql + l)
      let b ← readByte (ql + (l + 32))
      let h ← readByte (qh + l)
      let q1 := ((a &&& (0x0F : UInt8)) ||| (((h >>> 0) &&& (3 : UInt8)) <<< 4)).toInt8.toInt - 32
      let q2 := ((b &&& (0x0F : UInt8)) ||| (((h >>> 2) &&& (3 : UInt8)) <<< 4)).toInt8.toInt - 32
      let q3 := ((a >>> 4) ||| (((h >>> 4) &&& (3 : UInt8)) <<< 4)).toInt8.toInt - 32
      let q4 := ((b >>> 4) ||| (((h >>> 6) &&& (3 : UInt8)) <<< 4)).toInt8.toInt - 32
      let s1 ← readByte (sc + (is + 0))
      writeFloat (dst + l) (fl.mul (fl.mul d (ofInt8 fl s1)) (fl.ofInt q1))
      let s2 ← readByte (sc + (is + 2))
      writeFloat (dst + (l + 32)) (fl.mul (fl.mul d (ofInt8 fl s2)) (fl.ofInt q2))
      let s3 ← readByte (sc + (is + 4))
      writeFloat (dst + (l + 64)) (fl.mul (fl.mul d (ofInt8 fl s3)) (fl.ofInt q3))
      let s4 ← readByte (sc + (is + 6))
      writeFloat (dst + (l + 96)) (fl.mul (fl.mul d (ofInt8 fl s4)) (fl.ofInt q4))) 0 32 ()
    pure (ql + 64, qh + 32, sc + 8, dst + 128)) 0 2 (src, src + 128, src + 192, dst)
  pure (src + 210, dst)

/-- `PAI_GGUF_Q8_K`. -/
def dequantQ8K (src dst : ℕ) : Dequant F (ℕ × ℕ) := do
  let bits ← readU32 src
  int8Loop fl (src + 4) dst 256 (fl.ofBits bits)
  pure (src + 292, dst + 256)

/-! ## Tensors -/

/-- The loop over the blocks of a tensor. -/
def blockLoop (layout : ℕ → ℕ → Dequant F (ℕ × ℕ)) (nb src dst : ℕ) : Dequant F Unit := do
  let _ ← rounds (fun _ (src, dst) => layout src dst) 0 nb (src, dst)
  pure ()

/-- `dequant_block`; `none` for an unsupported type. -/
def dequantBlock (type : UInt32) (src dst numel : ℕ) : Option (Dequant F Unit) :=
  match type.toNat with
  | 0 => some do let _ ← floatLoop 4 (convertF32 fl) src dst numel
  | 1 => some do let _ ← floatLoop 2 (leF16 fl) src dst numel
  | 20 => some do let _ ← floatLoop 2 (convertBf16 fl) src dst numel
  | 2 => some (blockLoop (dequantQ40 fl) (numel / 32) src dst)
  | 3 => some (blockLoop (dequantQ41 fl) (numel / 32) src dst)
  | 6 => some (blockLoop (dequantQ50 fl) (numel / 32) src dst)
  | 7 => some (blockLoop (dequantQ51 fl) (numel / 32) src dst)
  | 8 => some (blockLoop (dequantQ80 fl) (numel / 32) src dst)
  | 9 => some (blockLoop (dequantQ81 fl) (numel / 32) src dst)
  | 10 => some (blockLoop (dequantQ2K fl) (numel / 256) src dst)
  | 11 => some (blockLoop (dequantQ3K fl) (numel / 256) src dst)
  | 12 => some (blockLoop (dequantQ4K fl) (numel / 256) src dst)
  | 13 => some (blockLoop (dequantQ5K fl) (numel / 256) src dst)
  | 14 => some (blockLoop (dequantQ6K fl) (numel / 256) src dst)
  | 15 => some (blockLoop (dequantQ8K fl) (numel / 256) src dst)
  | _ => none

/-- What `pai_gguf_dequant` returns with `PAI_OK`, and how it came about. -/
structure Dequantized (F : Type) where
  /-- `out_n`. -/
  outN : UInt64
  /-- The bytes asked of `malloc` for the destination. -/
  allocated : ℕ
  /-- The floats of the destination. -/
  floats : ℕ → F
  /-- The accesses of `dequant_block`; elements of the destination are counted from its start. -/
  accesses : List (Access DequantArray)

/-- `pai_gguf_dequant`; `malloc` says whether the destination can be allocated, `garbage` is what is in
it. -/
def paiGgufDequant (malloc : ℕ → Bool) (garbage : ℕ → F) (f : GgufFile) (t : GgufTensor) :
    Except PaiStatus (Dequantized F) :=
  let numel := paiGgufTensorNumel t
  if numel = 0 then .error paiErrProtocol
  else
    let bytes := paiGgufTypeBytes t.type numel
    if bytes = 0 then .error paiErrUnsupported
    else
      let region := f.data.length - f.dataStart
      let rel := t.offset.toNat
      if region < rel ∨ region - rel < bytes.toNat then .error paiErrProtocol
      else
        let size := numel.toNat * 4 % 0x10000000000000000
        if malloc size = false then .error paiErrNomem
        else
          match dequantBlock fl t.type (f.dataStart + rel) 0 numel.toNat with
          | none => .error paiErrUnsupported
          | some run =>
            let memory : Store (DequantElem F)
              | .src => fun p => f.data.getD p 0
              | .dst => garbage
            let r := run memory
            .ok ⟨numel, size, r.2.1 .dst, r.2.2⟩

end Prospero
