import Prospero.Status
import Prospero.Lib.Reader

/-!
# GGUF files

The reader of `adapters/llama/gguf.c`: header, metadata and tensor records of a GGUF file, and the
getters of the metadata values.

The computations are in `Read`, so that a read outside the file is an outcome of its own.  `skip_value`
calls itself for the elements of an array; here it has fuel, and running out of fuel is the error
`GgufStop.hang` (the depth of the C stack is not modelled).  A cursor is an offset from the start of the file, the end of the file is
`data.length`.
-/

namespace Prospero

open Buffer ByteString Reader

/-- `PAI_GGUF_MAGIC`. -/
def paiGgufMagic : UInt32 := 0x46554747
/-- `PAI_GGUF_MAX_VERSION`. -/
def paiGgufMaxVersion : UInt32 := 3
/-- `PAI_GGUF_ALIGN_DEFAULT`. -/
def paiGgufAlignDefault : UInt32 := 32
/-- `PAI_GGUF_MAX_TENSORS`. -/
def paiGgufMaxTensors : UInt64 := 1024
/-- `PAI_GGUF_MAX_DIM`. -/
def paiGgufMaxDim : UInt64 := 0x4000000
/-- `sizeof(t->name)`. -/
abbrev ggufNameSize : ℕ := 128
/-- The most elements an array getter returns, `1u << 20`. -/
def ggufMaxElements : UInt64 := 0x100000

/-- Why a computation of the reader stops. -/
inductive GgufStop where
  /-- The fuel ran out. -/
  | hang
  /-- A status is returned. -/
  | status (st : PaiStatus)
deriving DecidableEq

/-- A computation that reads a GGUF file. -/
abbrev Reading := Read GgufStop

/-- Return a status. -/
def stopWith {α : Type} (st : PaiStatus) : Reading α := .error (.fail (.status st))

/-! ## Walking over values -/

/-- `cur_ok`: `need` bytes are left behind the cursor. -/
abbrev curOk (data : List UInt8) (p need : ℕ) : Prop := need ≤ data.length - p

/-- `read_string`: offset and length of the bytes of a string; `none` on overrun. -/
def readString (data : List UInt8) (p : ℕ) : Reading (Option (ℕ × ℕ)) :=
  if curOk data p 8 then do
    let len ← u64At data p
    .ok (if curOk data (p + 8) len.toNat then some (p + 8, len.toNat) else none)
  else .ok none

/-- The bytes of a scalar of the value type; `none` for strings, arrays and unknown types. -/
def scalarBytes (type : UInt32) : Option ℕ :=
  match type.toNat with
  | 0 | 1 | 7 => some 1
  | 2 | 3 => some 2
  | 4 | 5 | 6 => some 4
  | 10 | 11 | 12 => some 8
  | _ => none

/-- `count` rounds of a loop that moves the cursor and ends early on `none`. -/
def skipMany (skip : ℕ → Reading (Option ℕ)) : ℕ → ℕ → Reading (Option ℕ)
  | 0, p => .ok (some p)
  | count + 1, p => do
    match ← skip p with
    | some p => skipMany skip count p
    | none => .ok none

/-- `skip_value`: the offset behind a value; `none` on overrun and for unknown types. -/
def skipValue (data : List UInt8) : ℕ → UInt32 → ℕ → Reading (Option ℕ)
  | 0, _, _ => .error (.fail .hang)
  | fuel + 1, type, p =>
    match scalarBytes type with
    | some n => .ok (if curOk data p n then some (p + n) else none)
    | none =>
      if type = 8 then do
        let s ← readString data p
        .ok (s.map fun s => s.1 + s.2)
      else if type = 9 then
        if curOk data p 12 then do
          let elemType ← u32At data p
          let count ← u64At data (p + 4)
          skipMany (skipValue data fuel elemType) count.toNat (p + 12)
        else .ok none
      else .ok none

/-! ## Opening a file -/

/-- `pai_gguf_tensor_t`; the name has the bytes of the file, the extents in use are listed. -/
structure GgufTensor where
  /-- Name, cut at its first zero byte when it is compared. -/
  name : List UInt8
  /-- Extents, one to four. -/
  dims : List UInt64
  /-- `pai_gguf_type_t`. -/
  type : UInt32
  /-- Offset into the data region. -/
  offset : UInt64
deriving DecidableEq

/-- `pai_gguf_t`. -/
structure GgufFile where
  /-- The bytes of the file. -/
  data : List UInt8
  /-- Format version. -/
  version : UInt32
  /-- Tensor records. -/
  tensors : List GgufTensor
  /-- Number of metadata entries; they start at byte 24. -/
  kvCount : ℕ
  /-- Alignment of the data region. -/
  alignment : UInt32
  /-- Start of the data region. -/
  dataStart : ℕ
deriving DecidableEq

/-- `kv_start`. -/
abbrev ggufKvStart : ℕ := 24

/-- One round of the metadata loop. -/
def skipKv (data : List UInt8) (fuel p : ℕ) : Reading (Option ℕ) := do
  match ← readString data p with
  | none => .ok none
  | some (start, len) =>
    if curOk data (start + len) 4 then do
      let vtype ← u32At data (start + len)
      skipValue data fuel vtype (start + len + 4)
    else .ok none

/-- The test of a key: `memcmp` runs only on a key of the wanted length. -/
def sameKey (data : List UInt8) (start len : ℕ) (key : List UInt8) : Reading Bool :=
  if len = key.length then do
    let bytes ← bytesAt data start len
    .ok (decide (bytes = key))
  else .ok false

/-- `find_kv`: type and offset of the value of a key. -/
def findKv (data : List UInt8) (fuel : ℕ) (key : List UInt8) :
    ℕ → ℕ → Reading (Option (UInt32 × ℕ))
  | 0, _ => .ok none
  | n + 1, p => do
    match ← readString data p with
    | none => .ok none
    | some (start, len) =>
      if curOk data (start + len) 4 then do
        let vtype ← u32At data (start + len)
        let same ← sameKey data start len key
        if same then .ok (some (vtype, start + len + 4))
        else
          match ← skipValue data fuel vtype (start + len + 4) with
          | some p => findKv data fuel key n p
          | none => .ok none
      else .ok none

/-- `pai_gguf_get_u32` on `kvCount` metadata entries.  `le_bytes_to_u64` does not store the value it
computes, so that the variable of the caller keeps its value `local64`. -/
def getU32 (data : List UInt8) (fuel kvCount : ℕ) (local64 : UInt64) (key : List UInt8) :
    Reading UInt32 := do
  match ← findKv data fuel key kvCount ggufKvStart with
  | none => stopWith paiErrMismatch
  | some (type, v) =>
    match scalarBytes type with
    | none => stopWith paiErrMismatch
    | some n => do
      let bytes ← bytesAt data v n
      .ok (if n = 8 then local64.toUInt32 else UInt32.ofNat (leNat bytes))

/-- The extents of a tensor record, with the offset behind them. -/
def readExtents (data : List UInt8) : ℕ → ℕ → Reading (List UInt64 × ℕ)
  | 0, p => .ok ([], p)
  | n + 1, p => do
    refuse (¬ curOk data p 8) (.status paiErrProtocol)
    let dim ← u64At data p
    refuse (paiGgufMaxDim < dim) (.status paiErrProtocol)
    let (dims, p) ← readExtents data n (p + 8)
    .ok (dim :: dims, p)

/-- One tensor record, with the offset behind it. -/
def readTensor (data : List UInt8) (p : ℕ) : Reading (GgufTensor × ℕ) := do
  match ← readString data p with
  | none => stopWith paiErrProtocol
  | some (start, len) =>
    refuse (len = 0 ∨ ggufNameSize ≤ len) (.status paiErrProtocol)
    let name ← bytesAt data start len
    refuse (¬ curOk data (start + len) 4) (.status paiErrProtocol)
    let numDims ← u32At data (start + len)
    refuse (numDims = 0 ∨ 4 < numDims) (.status paiErrProtocol)
    let (dims, p) ← readExtents data numDims.toNat (start + len + 4)
    refuse (¬ curOk data p 4) (.status paiErrProtocol)
    let type ← u32At data p
    refuse (¬ curOk data (p + 4) 8) (.status paiErrProtocol)
    let offset ← u64At data (p + 4)
    .ok (⟨name, dims, type, offset⟩, p + 12)

/-- The tensor records, with the offset behind them. -/
def readTensors (data : List UInt8) : ℕ → ℕ → Reading (List GgufTensor × ℕ)
  | 0, p => .ok ([], p)
  | n + 1, p => do
    let (t, p) ← readTensor data p
    let (ts, p) ← readTensors data n p
    .ok (t :: ts, p)

/-- `general.alignment`. -/
def alignmentKey : List UInt8 := "general.alignment".toUTF8.toList

/-- The alignment in the metadata, or the default. -/
def readAlignment (data : List UInt8) (fuel kvCount : ℕ) (local64 : UInt64) : Reading UInt32 :=
  match getU32 data fuel kvCount local64 alignmentKey with
  | .error (.fail (.status _)) => .ok paiGgufAlignDefault
  | alignment => alignment

/-- `pai_gguf_open`; `calloc` says whether the tensor records can be allocated. -/
def paiGgufOpen (calloc : ℕ → Bool) (fuel : ℕ) (local64 : UInt64) (data : List UInt8) :
    Reading GgufFile := do
  refuse (data.length < 24) (.status paiErrProtocol)
  let magic ← u32At data 0
  refuse (magic ≠ paiGgufMagic) (.status paiErrProtocol)
  let version ← u32At data 4
  refuse (version < 1 ∨ paiGgufMaxVersion < version) (.status paiErrUnsupported)
  let tensorCount ← u64At data 8
  let kvCount ← u64At data 16
  refuse (paiGgufMaxTensors < tensorCount) (.status paiErrUnsupported)
  match ← skipMany (skipKv data fuel) kvCount.toNat ggufKvStart with
  | none => stopWith paiErrProtocol
  | some p =>
    refuse (calloc (max tensorCount.toNat 1) = false) (.status paiErrNomem)
    let (tensors, after) ← readTensors data tensorCount.toNat p
    let alignment ← readAlignment data fuel kvCount.toNat local64
    refuse (alignment = 0 ∨ alignment &&& (alignment - 1) ≠ 0 ∨ 4096 < alignment)
      (.status paiErrProtocol)
    let aligned := (after + alignment.toNat - 1) / alignment.toNat * alignment.toNat
    refuse (data.length < aligned) (.status paiErrProtocol)
    .ok ⟨data, version, tensors, kvCount.toNat, alignment, aligned⟩

/-! ## Getters -/

/-- `pai_gguf_get_u32`. -/
def paiGgufGetU32 (fuel : ℕ) (local64 : UInt64) (f : GgufFile) (key : List UInt8) : Reading UInt32 :=
  getU32 f.data fuel f.kvCount local64 key

/-- The value `pai_gguf_get_f32` converts to its result. -/
inductive GgufFloat where
  /-- The bits of a float. -/
  | single (bits : UInt32)
  /-- The bits of a double. -/
  | double (bits : UInt64)
  /-- An integer. -/
  | integer (u : UInt32)
deriving DecidableEq

/-- `pai_gguf_get_f32`; a double is read with `le_bytes_to_u64`, see `getU32`. -/
def paiGgufGetF32 (fuel : ℕ) (local64 : UInt64) (f : GgufFile) (key : List UInt8) :
    Reading GgufFloat := do
  match ← findKv f.data fuel key f.kvCount ggufKvStart with
  | none => stopWith paiErrMismatch
  | some (type, v) =>
    if type = 6 then do
      let bits ← u32At f.data v
      .ok (.single bits)
    else if type = 12 then do
      let _ ← bytesAt f.data v 8
      .ok (.double local64)
    else do
      let u ← paiGgufGetU32 fuel local64 f key
      .ok (.integer u)

/-- Store `n` bytes at `off` of an allocation of `size` bytes. -/
def storeInside (size off n : ℕ) : Reading Unit :=
  if off + n ≤ size then .ok () else .error .outOfRange

/-- `pai_gguf_get_string` into a buffer of `cap` bytes. -/
def paiGgufGetString (fuel : ℕ) (f : GgufFile) (key : List UInt8) (cap : ℕ) :
    Reading (List UInt8) := do
  refuse (cap = 0) (.status paiErrInvalidArg)
  match ← findKv f.data fuel key f.kvCount ggufKvStart with
  | none => stopWith paiErrMismatch
  | some (type, v) =>
    refuse (type ≠ 8) (.status paiErrMismatch)
    let len ← u64At f.data v
    refuse (cap ≤ len.toNat) (.status paiErrNomem)
    let bytes ← bytesAt f.data (v + 8) len.toNat
    storeInside cap 0 len.toNat
    storeInside cap len.toNat 1
    .ok bytes

/-- `find_array`: element type, count and offset of the elements. -/
def findArray (fuel : ℕ) (f : GgufFile) (key : List UInt8) : Reading (Option (UInt32 × ℕ × ℕ)) := do
  match ← findKv f.data fuel key f.kvCount ggufKvStart with
  | none => .ok none
  | some (type, v) =>
    if type ≠ 9 then .ok none
    else do
      let elemType ← u32At f.data v
      let count ← u64At f.data (v + 4)
      .ok (some (elemType, count.toNat, v + 12))

/-- The first pass over a string array: the bytes of its strings with their terminators. -/
def sizeStrings (data : List UInt8) : ℕ → ℕ → Reading ℕ
  | 0, _ => .ok 0
  | n + 1, p => do
    let len ← u64At data p
    refuse (data.length - p - 8 < len.toNat) (.status paiErrProtocol)
    let blob ← sizeStrings data n (p + 8 + len.toNat)
    .ok (len.toNat + 1 + blob)

/-- The second pass: the strings are copied to `blobp` on, the pointer of string `i` is stored in slot
`i` of an allocation of `size` bytes. -/
def fillStrings (data : List UInt8) (size : ℕ) : ℕ → ℕ → ℕ → ℕ → Reading (List (List UInt8))
  | 0, _, _, _ => .ok []
  | n + 1, i, p, blobp => do
    let len ← u64At data p
    let bytes ← bytesAt data (p + 8) len.toNat
    storeInside size blobp len.toNat
    storeInside size (blobp + len.toNat) 1
    storeInside size (i * 8) 8
    let strings ← fillStrings data size n (i + 1) (p + 8 + len.toNat) (blobp + len.toNat + 1)
    .ok (bytes :: strings)

/-- `pai_gguf_get_string_array`: one allocation holds the pointers and the strings behind them. -/
def paiGgufGetStringArray (malloc : ℕ → Bool) (fuel : ℕ) (f : GgufFile) (key : List UInt8) :
    Reading (List (List UInt8)) := do
  match ← findArray fuel f key with
  | none => stopWith paiErrMismatch
  | some (elemType, count, p) =>
    refuse (elemType ≠ 8) (.status paiErrMismatch)
    refuse (ggufMaxElements.toNat < count) (.status paiErrUnsupported)
    let blob ← sizeStrings f.data count p
    let size := (count * 8 + if 0 < blob then blob else 1) % 0x10000000000000000
    refuse (malloc size = false) (.status paiErrNomem)
    match ← findArray fuel f key with
    | none => .error .outOfRange
    | some (_, count, p) => fillStrings f.data size count 0 p (count * 8)

/-- The copy loop of a float array. -/
def fillFloats (data : List UInt8) (size : ℕ) : ℕ → ℕ → ℕ → Reading (List UInt32)
  | 0, _, _ => .ok []
  | n + 1, i, p => do
    let bits ← u32At data p
    storeInside size (i * 4) 4
    let floats ← fillFloats data size n (i + 1) (p + 4)
    .ok (bits :: floats)

/-- `pai_gguf_get_f32_array`. -/
def paiGgufGetF32Array (malloc : ℕ → Bool) (fuel : ℕ) (f : GgufFile) (key : List UInt8) :
    Reading (List UInt32) := do
  match ← findArray fuel f key with
  | none => stopWith paiErrMismatch
  | some (elemType, count, p) =>
    refuse (elemType ≠ 6) (.status paiErrMismatch)
    refuse (ggufMaxElements.toNat < count ∨ f.data.length - p < count * 4) (.status paiErrProtocol)
    refuse (malloc (count * 4) = false) (.status paiErrNomem)
    fillFloats f.data (count * 4) count 0 p

end Prospero
