import Prospero.Compression.CopyMatch
import Prospero.Lib.Bytes
import Prospero.Lib.Emission
import Prospero.Status

/-!
# The decoder

`compression/kraken_decode.c` and `pai_compress_decode` of `compression/pai_compress.c`.  The decoder reads the stream and a buffer that it allocates, and writes the
destination, which it never reads to decide anything: it is a program that performs operations on the
destination (`DstOp`), each at a place counted from the start of the whole output.  Places below that start
are negative numbers.  An access outside of its buffer, or of a byte of the allocated buffer that nothing has
been written to, ends the run with `Halt.fault`, and a loop that does not come to its end with
`Halt.forever`.

The allocated buffer is the list of the bytes written so far, which go to its front one after another; the
offset tables stand after them.
-/

namespace Prospero

open ByteString Emission

/-- How a run ends without a result. -/
inductive Halt where
  /-- `return -1`. -/
  | reject
  /-- A loop that does not end. -/
  | forever
  /-- An access out of range. -/
  | fault
deriving DecidableEq, Repr

/-- What the decoder does to the destination. -/
inductive DstOp where
  /-- `memcpy` of bytes of another buffer. -/
  | copyIn (place : ℕ) (bytes : List UInt8)
  /-- `memset`. -/
  | fill (place : ℕ) (byte : UInt8) (n : ℕ)
  /-- `kk_copy_match`. -/
  | copyMatch (place : ℕ) (source : ℤ) (n : ℕ)
  /-- The loop that adds the byte at `base` to literals. -/
  | addDelta (place : ℕ) (base : ℤ) (lits : List UInt8)
deriving DecidableEq, Repr

/-- The memory with `bytes` from `place` on. -/
def placeBytes (mem : ℕ → UInt8) (place : ℕ) (bytes : List UInt8) : ℕ → UInt8 := fun a =>
  if place ≤ a then bytes.getD (a - place) (mem a) else mem a

/-- `for (i = 0; i < n; i++) dst_cur[i] = lit[i] + dst_cur[recent];`, with the byte added at `base`. -/
def deltaLiterals (mem : ℕ → UInt8) (place base : ℕ) : List UInt8 → ℕ → UInt8
  | [] => mem
  | lit :: lits => deltaLiterals (Function.update mem place (lit + mem base)) (place + 1) base lits

/-- Perform an operation on a destination of `size` bytes.  A match of no bytes touches nothing; a longer one
with its own place as source is never finished, since the loop that doubles what is written starts with
nothing. -/
def DstOp.run (size : ℕ) (op : DstOp) (mem : ℕ → UInt8) : Except Halt (ℕ → UInt8) :=
  match op with
  | .copyIn place bytes =>
    if place + bytes.length ≤ size then .ok (placeBytes mem place bytes) else .error .fault
  | .fill place byte n =>
    if place + n ≤ size then .ok (placeBytes mem place (List.replicate n byte)) else .error .fault
  | .copyMatch place source n =>
    if n = 0 then .ok mem
    else if source = place then .error .forever
    else if 0 ≤ source ∧ source < place ∧ place + n ≤ size then
      .ok (kkCopyMatch mem place source.toNat n)
    else .error .fault
  | .addDelta place base lits =>
    if lits = [] then .ok mem
    else if 0 ≤ base ∧ base < size ∧ place + lits.length ≤ size then
      .ok (deltaLiterals mem place base.toNat lits)
    else .error .fault

/-- Perform an operation on the allocated buffer, of which `written` has been written. -/
def DstOp.runScratch (size : ℕ) (op : DstOp) (written : List UInt8) : Except Halt (List UInt8) :=
  match op with
  | .copyIn place bytes =>
    if place = written.length ∧ place + bytes.length ≤ size then .ok (written ++ bytes)
    else .error .fault
  | .fill place byte n =>
    if place = written.length ∧ place + n ≤ size then .ok (written ++ List.replicate n byte)
    else .error .fault
  | .copyMatch _ _ _ => .error .fault
  | .addDelta _ _ _ => .error .fault

/-- The decoder's programs. -/
abbrev Dec := Emit DstOp Halt

/-- `(uint32_t)(a - b)`. -/
def u32Sub (a b : ℕ) : ℕ := (((a : ℤ) - b) % 4294967296).toNat

/-! ## Input -/

/-- `kk_in_t`: the place read next, and the end. -/
structure KkIn where
  /-- The next place. -/
  p : ℕ
  /-- The end. -/
  stop : ℕ
deriving DecidableEq

section Input

variable (src : List UInt8)

/-- A byte of a buffer. -/
def byteAt (p : ℕ) : Dec ℕ :=
  match src[p]? with
  | some b => pure b.toNat
  | none => halt .fault

/-- `n` bytes of a buffer. -/
def sliceAt (p n : ℕ) : Dec (List UInt8) :=
  if p + n ≤ src.length then pure ((src.drop p).take n) else halt .fault

/-- `kk_in_u8`. -/
def kkInU8 (i : KkIn) : Dec (ℕ × KkIn) :=
  if i.stop ≤ i.p then halt .reject else do
    let b ← byteAt src i.p
    pure (b, { i with p := i.p + 1 })

/-- `kk_in_u16`. -/
def kkInU16 (i : KkIn) : Dec (ℕ × KkIn) :=
  if i.stop < i.p + 2 then halt .reject else do
    let b0 ← byteAt src i.p
    let b1 ← byteAt src (i.p + 1)
    pure (b0 ||| b1 <<< 8, { i with p := i.p + 2 })

/-- `kk_in_u24`. -/
def kkInU24 (i : KkIn) : Dec (ℕ × KkIn) :=
  if i.stop < i.p + 3 then halt .reject else do
    let b0 ← byteAt src i.p
    let b1 ← byteAt src (i.p + 1)
    let b2 ← byteAt src (i.p + 2)
    pure (b0 ||| b1 <<< 8 ||| b2 <<< 16, { i with p := i.p + 3 })

/-- `kk_in_u24_be`. -/
def kkInU24Be (i : KkIn) : Dec (ℕ × KkIn) :=
  if i.stop < i.p + 3 then halt .reject else do
    let b0 ← byteAt src i.p
    let b1 ← byteAt src (i.p + 1)
    let b2 ← byteAt src (i.p + 2)
    pure (b0 <<< 16 ||| b1 <<< 8 ||| b2, { i with p := i.p + 3 })

/-- `kk_in_bytes`: the place of the next `n` bytes. -/
def kkInBytes (i : KkIn) (n : ℕ) : Dec (ℕ × KkIn) :=
  if u32Sub i.stop i.p < n then halt .reject else pure (i.p, { i with p := i.p + n })

/-- `kk_in_bytes`, and `memcpy` of these bytes. -/
def kkInCopy (i : KkIn) (n place : ℕ) : Dec KkIn := do
  let (raw, i) ← kkInBytes i n
  let bytes ← sliceAt src raw n
  emit (.copyIn place bytes)
  pure i

/-! ## Nested chunks -/

/-- The variables of the command loop of `kk_nested_rle`. -/
structure Rle where
  /-- `cmd`. -/
  cmd : ℕ
  /-- `cmd_end`. -/
  cmdEnd : ℕ
  /-- `dst_cur`. -/
  cur : ℕ
  /-- `rle_byte`. -/
  rleByte : ℕ

/-- One command of `kk_nested_rle`. -/
def rleStep (dstEnd : ℕ) (s : Rle) : Dec Rle := do
  let c ← byteAt src (s.cmdEnd - 1)
  -- `c - 1 >= 0x2F` for unsigned numbers, which zero satisfies too; the command's own byte stays
  if c = 0 ∨ 0x30 ≤ c then
    let ncopy := (0xFFFFFFFF - c) &&& 0xF
    let nrle := c >>> 4
    if s.cmdEnd < s.cmd + ncopy ∨ u32Sub dstEnd s.cur < ncopy + nrle then halt .reject else do
      let bytes ← sliceAt src (s.cmdEnd - ncopy) ncopy
      emit (.copyIn s.cur bytes)
      emit (.fill (s.cur + ncopy) (UInt8.ofNat s.rleByte) nrle)
      pure { s with cmdEnd := s.cmdEnd - ncopy, cur := s.cur + ncopy + nrle }
  else if 0x10 ≤ c then
    if s.cmdEnd < s.cmd + 2 then halt .reject else do
      let c' ← byteAt src (s.cmdEnd - 2)
      let data := (c' ||| c <<< 8) - 4096
      let ncopy := data &&& 0x3F
      let nrle := data >>> 6
      if s.cmdEnd - 2 < s.cmd + ncopy ∨ u32Sub dstEnd s.cur < ncopy + nrle then halt .reject else do
        let bytes ← sliceAt src s.cmd ncopy
        emit (.copyIn s.cur bytes)
        emit (.fill (s.cur + ncopy) (UInt8.ofNat s.rleByte) nrle)
        pure { s with cmd := s.cmd + ncopy, cmdEnd := s.cmdEnd - 2, cur := s.cur + ncopy + nrle }
  else if c = 1 then
    if s.cmdEnd = s.cmd then halt .reject else do
      let b ← byteAt src s.cmd
      pure { s with cmd := s.cmd + 1, cmdEnd := s.cmdEnd - 1, rleByte := b }
  else if 9 ≤ c then
    if s.cmdEnd < s.cmd + 2 then halt .reject else do
      let c' ← byteAt src (s.cmdEnd - 2)
      let nrle := ((c' ||| c <<< 8) - 0x8FF) * 128
      if u32Sub dstEnd s.cur < nrle then halt .reject else do
        emit (.fill s.cur (UInt8.ofNat s.rleByte) nrle)
        pure { s with cmdEnd := s.cmdEnd - 2, cur := s.cur + nrle }
  else
    if s.cmdEnd < s.cmd + 2 then halt .reject else do
      let c' ← byteAt src (s.cmdEnd - 2)
      let ncopy := ((c' ||| c <<< 8) - 511) * 64
      if s.cmdEnd - 2 < s.cmd + ncopy ∨ u32Sub dstEnd s.cur < ncopy then halt .reject else do
        let bytes ← sliceAt src s.cmd ncopy
        emit (.copyIn s.cur bytes)
        pure { s with cmd := s.cmd + ncopy, cmdEnd := s.cmdEnd - 2, cur := s.cur + ncopy }

/-- The command loop of `kk_nested_rle`, for a number of rounds. -/
def rleLoop (dstEnd : ℕ) : ℕ → Rle → Dec Rle
  | 0, _ => halt .forever
  | rounds + 1, s =>
    if s.cmd < s.cmdEnd then do
      let s ← rleStep src dstEnd s
      rleLoop dstEnd rounds s
    else pure s

/-- `kk_nested_rle`, which is called without a buffer of its own. -/
def kkNestedRle (i : KkIn) (place dstSize : ℕ) : Dec Unit :=
  let srcSize := u32Sub i.stop i.p
  if srcSize = 0 then halt .reject
  else if srcSize = 1 then do
    let (b, _) ← kkInU8 src i
    emit (.fill place (UInt8.ofNat b) dstSize)
  else do
    let b ← byteAt src i.p
    if b ≠ 0 then halt .reject else do
      let dstEnd := place + dstSize
      let s ← rleLoop src dstEnd (i.stop - (i.p + 1) + dstSize + 1) ⟨i.p + 1, i.stop, place, 0⟩
      if s.cmdEnd ≠ s.cmd ∨ s.cur ≠ dstEnd then halt .reject else pure ()

/-- The sizes in the header of a nested chunk of type `t`, read after its first byte `b0`. -/
def nestedSizes (i : KkIn) (b0 t : ℕ) : Dec ((ℕ × ℕ) × KkIn) :=
  if t = 0 then
    if 0x80 ≤ b0 then do
      let (b1, i) ← kkInU8 src i
      let srcSize := (b0 &&& 0x0F) <<< 8 ||| b1
      pure ((srcSize, srcSize), i)
    else do
      let (b1, i) ← kkInU8 src i
      let (b2, i) ← kkInU8 src i
      let srcSize := b0 <<< 16 ||| b1 <<< 8 ||| b2
      if 0x3FFFF < srcSize then halt .reject else pure ((srcSize, srcSize), i)
  else if 6 ≤ t then halt .reject
  else if 0x80 ≤ b0 then do
    let (b1, i) ← kkInU8 src i
    let (b2, i) ← kkInU8 src i
    let bits := (b0 &&& 0x0F) <<< 16 ||| b1 <<< 8 ||| b2
    let srcSize := bits &&& 0x3FF
    pure ((srcSize, srcSize + (bits >>> 10 &&& 0x3FF) + 1), i)
  else do
    let (b1, i) ← kkInU8 src i
    let (b2, i) ← kkInU8 src i
    let (b3, i) ← kkInU8 src i
    let (b4, i) ← kkInU8 src i
    let bits := b1 <<< 24 ||| b2 <<< 16 ||| b3 <<< 8 ||| b4
    let srcSize := bits &&& 0x3FFFF
    let dstSize := ((bits >>> 18 ||| b0 <<< 14) &&& 0x3FFFF) + 1
    if dstSize ≤ srcSize then halt .reject else pure ((srcSize, dstSize), i)

/-- `kk_nested_chunk_decode`, with the number of bytes written. -/
def kkNestedChunkDecode (i : KkIn) (place dstCap : ℕ) : Dec (ℕ × KkIn) := do
  let (b0, i) ← kkInU8 src i
  let t := b0 >>> 4 &&& 7
  let ((srcSize, dstSize), i) ← nestedSizes src i b0 t
  if dstCap < dstSize then halt .reject else do
    let (payload, i) ← kkInBytes i srcSize
    if t = 0 then do
      let bytes ← sliceAt src payload srcSize
      emit (.copyIn place bytes)
      pure (dstSize, i)
    else if t = 3 then do
      kkNestedRle src ⟨payload, payload + srcSize⟩ place dstSize
      pure (dstSize, i)
    else halt .reject

/-! ## The streams of a chunk -/

/-- `kk_lz_t`.  The commands, the literals and the tables of far offsets are in the allocated buffer, the
lengths and the near offsets in the stream. -/
structure KkLz where
  /-- `cmd`. -/
  cmd : ℕ
  /-- `cmd_split`. -/
  cmdSplit : ℕ
  /-- `cmd_end`. -/
  cmdEnd : ℕ
  /-- `lit`. -/
  lit : ℕ
  /-- `lit_end`. -/
  litEnd : ℕ
  /-- `len`. -/
  len : ℕ
  /-- `len_end`. -/
  lenEnd : ℕ
  /-- `off16`. -/
  off16 : ℕ
  /-- `off16_end`. -/
  off16End : ℕ
  /-- `off32`. -/
  off32 : ℕ
  /-- `off32_end`. -/
  off32End : ℕ
  /-- `off32_2`. -/
  off32Two : ℕ
  /-- `off32_2_end`. -/
  off32TwoEnd : ℕ

/-- Run a program that writes the allocated buffer. -/
def inScratch {α : Type} (size : ℕ) (m : Dec α) (scratch : List UInt8) : Dec (α × List UInt8) :=
  match m.run (DstOp.runScratch size) scratch with
  | .ok r => pure r
  | .error e => halt e

/-- Read `n` far offsets into the table at `place`. -/
def readOff32 (base size : ℕ) : ℕ → ℕ → KkIn → List UInt8 → Dec (KkIn × List UInt8)
  | 0, _, i, scratch => pure (i, scratch)
  | n + 1, place, i, scratch => do
    let (off, i) ← kkInU24 src i
    let (off, i) ←
      (if 0xC00000 - 1 ≤ base ∧ 0xC00000 ≤ off then do
        let (hi, i) ← kkInU8 src i
        pure (off + hi <<< 22, i)
      else pure (off, i))
    if base < off then halt .reject else do
      let (_, scratch) ← inScratch size (emit (.copyIn place (leBytes 4 off))) scratch
      readOff32 base size n (place + 4) i scratch

/-- A size of a table of far offsets; the largest one is followed by the actual size. -/
def extendedSize (size : ℕ) (i : KkIn) : Dec (ℕ × KkIn) :=
  if size = 4095 then kkInU16 src i else pure (size, i)

/-- `kk_lz_read`, for a chunk at `outOffs` of the output. -/
def kkLzRead (i : KkIn) (dstCount outOffs scratchSize : ℕ) : Dec (KkLz × List UInt8) := do
  let i ← (if outOffs = 0 then kkInCopy src i 8 outOffs else pure i)
  -- literals
  let ((lits, i), scratch) ← inScratch scratchSize (kkNestedChunkDecode src i 0 scratchSize) []
  -- commands
  let ((cmds, i), scratch) ←
    inScratch scratchSize (kkNestedChunkDecode src i lits (scratchSize - lits)) scratch
  let used := lits + cmds
  let (cmdSplit, i) ←
    (if 0x10000 < dstCount then do
      let (split, i) ← kkInU16 src i
      if cmds < split then halt .reject else pure (lits + split, i)
    else pure (used, i))
  -- near offsets
  let (off16Count, i) ← kkInU16 src i
  if off16Count = 0xFFFF then halt .reject else do
    let (off16, i) ← kkInBytes i (off16Count * 2)
    -- far offsets
    let (tmp, i) ← kkInU24 src i
    let (size1, i) ← (if tmp ≠ 0 then extendedSize src (tmp >>> 12) i else pure (0, i))
    let (size2, i) ← (if tmp ≠ 0 then extendedSize src (tmp &&& 0xFFF) i else pure (0, i))
    if scratchSize - used < (size1 + size2) * 4 + 64 then halt .reject else do
      let (i, scratch) ← readOff32 src outOffs scratchSize size1 used i scratch
      let (i, scratch) ←
        readOff32 src (outOffs + 0x10000) scratchSize size2 (used + 4 * size1) i scratch
      pure (⟨lits, cmdSplit, used, 0, lits, i.p, i.stop, off16, off16 + off16Count * 2, used,
        used + 4 * size1, used + 4 * size1, used + 4 * (size1 + size2)⟩, scratch)

/-! ## The commands of a half -/

/-- The variables of the command loop of `kk_runs`. -/
structure RunCursor where
  /-- `dst_cur`. -/
  cur : ℕ
  /-- `cmd`. -/
  cmd : ℕ
  /-- `lit`. -/
  lit : ℕ
  /-- `len`. -/
  len : ℕ
  /-- `off16`. -/
  off16 : ℕ
  /-- `off32`. -/
  off32 : ℕ
  /-- `recent`. -/
  recent : ℤ

section Commands

variable (scratch : List UInt8) (lz : KkLz) (dstEnd chunkStart mode : ℕ)

/-- The length that follows a command, with `base` added. -/
def runLength (len base : ℕ) : Dec (ℕ × ℕ) :=
  if lz.lenEnd ≤ len then halt .reject else do
    let length ← byteAt src len
    if 251 < length then
      if lz.lenEnd < len + 1 + 2 then halt .reject else do
        let b0 ← byteAt src (len + 1)
        let b1 ← byteAt src (len + 2)
        pure (length + 4 * (b0 ||| b1 <<< 8) + base, len + 3)
    else pure (length + base, len + 1)

/-- The next near offset, negated. -/
def nextOff16 (off16 : ℕ) : Dec (ℤ × ℕ) :=
  if lz.off16End < off16 + 2 then halt .reject else do
    let b0 ← byteAt src off16
    let b1 ← byteAt src (off16 + 1)
    pure (-((b0 ||| b1 <<< 8 : ℕ) : ℤ), off16 + 2)

/-- The source of a match at the next far offset. -/
def nextOff32 (off32 : ℕ) : Dec (ℤ × ℕ) :=
  if off32 = lz.off32End then halt .reject else do
    let off ← sliceAt scratch off32 4
    pure (chunkStart - (leNat off : ℤ), off32 + 4)

/-- Write `n` literals. -/
def literals (r : RunCursor) (n : ℕ) : Dec RunCursor := do
  let lits ← sliceAt scratch r.lit n
  emit (if mode = 1 then .copyIn r.cur lits else .addDelta r.cur (r.cur + r.recent) lits)
  pure { r with cur := r.cur + n, lit := r.lit + n }

/-- One command of `kk_runs`. -/
def runStep (r : RunCursor) : Dec RunCursor := do
  let c ← byteAt scratch r.cmd
  let r := { r with cmd := r.cmd + 1 }
  if 24 ≤ c then
    let litlen := c &&& 7
    let matchlen := c >>> 3 &&& 0xF
    let (recent, off16) ←
      (if c &&& 0x80 ≠ 0 then nextOff16 src lz r.off16 else pure (r.recent, r.off16))
    if u32Sub dstEnd r.cur < litlen + matchlen ∨ u32Sub lz.litEnd r.lit < litlen ∨ r.cur + recent < 0 then
      halt .reject
    else do
      let r ← literals scratch mode { r with recent := recent, off16 := off16 } litlen
      emit (.copyMatch r.cur (r.cur + r.recent) matchlen)
      pure { r with cur := r.cur + matchlen }
  else if 2 < c then
    let matchlen := c + 5
    let (source, off32) ← nextOff32 scratch lz chunkStart r.off32
    if source < chunkStart ∨ u32Sub dstEnd r.cur < matchlen then halt .reject else do
      emit (.copyMatch r.cur source matchlen)
      pure { r with cur := r.cur + matchlen, off32 := off32, recent := source - r.cur }
  else if c = 0 then
    let (length, len) ← runLength src lz r.len 64
    if u32Sub dstEnd r.cur < length ∨ u32Sub lz.litEnd r.lit < length then halt .reject
    else literals scratch mode { r with len := len } length
  else if c = 1 then
    let (length, len) ← runLength src lz r.len 91
    let (recent, off16) ← nextOff16 src lz r.off16
    if r.cur + recent < 0 ∨ u32Sub dstEnd r.cur < length then halt .reject else do
      emit (.copyMatch r.cur (r.cur + recent) length)
      pure { r with cur := r.cur + length, len := len, off16 := off16, recent := recent }
  else
    let (length, len) ← runLength src lz r.len 29
    let (source, off32) ← nextOff32 scratch lz chunkStart r.off32
    if source < chunkStart ∨ u32Sub dstEnd r.cur < length then halt .reject else do
      emit (.copyMatch r.cur source length)
      pure { r with cur := r.cur + length, len := len, off32 := off32, recent := source - r.cur }

/-- The command loop of `kk_runs`, for a number of rounds. -/
def runLoop : ℕ → RunCursor → Dec RunCursor
  | 0, _ => halt .forever
  | rounds + 1, r =>
    if r.cmd < lz.cmdEnd then do
      let r ← runStep src scratch lz dstEnd chunkStart mode r
      runLoop rounds r
    else pure r

/-- `kk_runs`: the commands of a half that ends at `dstEnd`, then the rest of its literals. -/
def kkRuns (start : ℕ) (recent : ℤ) : Dec (KkLz × ℤ) := do
  let r ← runLoop src scratch lz dstEnd chunkStart mode (lz.cmdEnd - lz.cmd + 1)
    ⟨start, lz.cmd, lz.lit, lz.len, lz.off16, lz.off32, recent⟩
  let length := u32Sub dstEnd r.cur
  if u32Sub lz.litEnd r.lit < length then halt .reject else do
    let r ← literals scratch mode r length
    pure ({ lz with len := r.len, off16 := r.off16, lit := r.lit }, r.recent)

end Commands

/-! ## Quanta -/

/-- A compressed chunk of `kk_mermaid_quantum_decode`: its streams and its two halves. -/
def lzChunk (i : KkIn) (place chunk mode scratchSize : ℕ) : Dec Unit := do
  let (lz, scratch) ← kkLzRead src i chunk place scratchSize
  let half1 := if 0x10000 < chunk then 0x10000 else chunk
  let half2 := chunk - half1
  let startoff := if place = 0 then 8 else 0
  let (half, recent) ← kkRuns src scratch { lz with cmdEnd := lz.cmdSplit } (place + half1) place mode
    (place + startoff) (-8)
  let lz := { lz with len := half.len, off16 := half.off16, lit := half.lit }
  let lz ←
    (if 0 < half2 then do
      let (half, _) ← kkRuns src scratch
        { lz with cmd := lz.cmdSplit, off32 := lz.off32Two, off32End := lz.off32TwoEnd }
        (place + half1 + half2) place mode (place + half1) recent
      pure { lz with len := half.len, off16 := half.off16, lit := half.lit }
    else pure lz)
  -- every byte of the lengths must have been used
  if lz.len ≠ lz.lenEnd then halt .reject else pure ()

/-- One chunk of `kk_mermaid_quantum_decode`, at `place` of the output. -/
def quantumStep (i : KkIn) (place chunk scratchSize : ℕ) : Dec KkIn := do
  let (h, i) ← kkInU24Be src i
  if h &&& 0x800000 = 0 then do
    let (dec, i) ← kkNestedChunkDecode src i place chunk
    if dec ≠ chunk then halt .reject else pure i
  else
    let srcUsed := h &&& 0x7FFFF
    let mode := h >>> 19 &&& 0xF
    if 1 < mode ∨ u32Sub i.stop i.p < srcUsed then halt .reject
    else if srcUsed = chunk ∧ mode = 0 then kkInCopy src i srcUsed place
    else do
      lzChunk src ⟨i.p, i.p + srcUsed⟩ place chunk mode scratchSize
      pure { i with p := i.p + srcUsed }

/-- `kk_mermaid_quantum_decode`, for a number of rounds; `produced` bytes of `dstCount` are there. -/
def kkMermaidQuantumDecode (dstCount outOffs scratchSize : ℕ) : ℕ → ℕ → KkIn → Dec KkIn
  | 0, _, _ => halt .forever
  | rounds + 1, produced, i =>
    if produced < dstCount then do
      let chunk := if 0x20000 < dstCount - produced then 0x20000 else dstCount - produced
      let i ← quantumStep src i (outOffs + produced) chunk scratchSize
      kkMermaidQuantumDecode dstCount outOffs scratchSize rounds (produced + chunk) i
    else pure i

/-! ## The container -/

/-- The variables of `kk_container_decode` that a header sets. -/
structure KkHeader where
  /-- `method`. -/
  method : ℕ
  /-- `uncompressed`. -/
  uncompressed : ℕ
  /-- `checksums`. -/
  checksums : ℕ

/-- The header at a boundary of the output. -/
def kkHeader (i : KkIn) : Dec (KkHeader × KkIn) := do
  let (b0, i) ← kkInU8 src i
  let (b1, i) ← kkInU8 src i
  if b0 &&& 0xF ≠ 0xC ∨ b0 >>> 4 &&& 3 ≠ 0 then halt .reject else
    let method := b1 &&& 0x7F
    if method ≠ 6 ∧ method ≠ 10 ∧ method ≠ 12 ∧ method ≠ 5 ∧ method ≠ 11 then halt .reject
    else pure (⟨method, b0 >>> 6 &&& 1, b1 >>> 7⟩, i)

/-- The quantum of `size` bytes that a header announces with `compSize` bytes of the stream. -/
def kkPayload (header : KkHeader) (i : KkIn) (outOffs quantum compSize scratchSize : ℕ) : Dec KkIn := do
  let i ←
    (if header.checksums ≠ 0 then do
      let (_, i) ← kkInU24 src i
      pure i
    else pure i)
  if u32Sub i.stop i.p < compSize ∨ quantum < compSize then halt .reject
  else if compSize = quantum then kkInCopy src i compSize outOffs
  else if header.method = 10 then do
    let _ ← kkMermaidQuantumDecode src quantum outOffs scratchSize (quantum + 1) 0
      ⟨i.p, i.p + compSize⟩
    pure { i with p := i.p + compSize }
  else halt .reject

/-- One quantum of `kk_container_decode`. -/
def containerStep (header : KkHeader) (i : KkIn) (outOffs quantum scratchSize : ℕ) : Dec KkIn :=
  if header.uncompressed ≠ 0 then kkInCopy src i quantum outOffs
  else do
    let (v, i) ← kkInU24Be src i
    let compSize := v &&& 0x3FFFF
    if compSize = 0x3FFFF then
      if v >>> 18 = 1 then do
        let (byte, i) ← kkInU8 src i
        emit (.fill outOffs (UInt8.ofNat byte) quantum)
        pure i
      else if v >>> 18 = 3 then kkPayload src header i outOffs quantum 0x40000 scratchSize
      else halt .reject
    else if v >>> 18 &&& 1 ≠ 0 ∨ v >>> 19 &&& 1 ≠ 0 then halt .reject
    else kkPayload src header i outOffs quantum (compSize + 1) scratchSize

/-- `kk_container_decode`, for a number of rounds; `outOffs` bytes are there. -/
def kkContainerDecode (dstLen scratchSize : ℕ) : ℕ → KkHeader → ℕ → KkIn → Dec KkIn
  | 0, _, _, _ => halt .forever
  | rounds + 1, header, outOffs, i =>
    if outOffs < dstLen then do
      let quantum := if 0x40000 < dstLen - outOffs then 0x40000 else dstLen - outOffs
      let (header, i) ← (if outOffs &&& 0x3FFFF = 0 then kkHeader src i else pure (header, i))
      let i ← containerStep src header i outOffs quantum scratchSize
      kkContainerDecode dstLen scratchSize rounds header (outOffs + quantum) i
    else pure i

/-- `kk_decode_stream`. -/
def kkDecodeStream (malloc : ℕ → Bool) (dstLen : ℕ) : Dec Unit :=
  let scratchSize := 2 * 0x20000 + 0x100000
  if malloc scratchSize = false then halt .reject else do
    let i ← kkContainerDecode src dstLen scratchSize (dstLen + 1) ⟨0, 0, 0⟩ 0 ⟨0, src.length⟩
    if i.p ≠ i.stop then halt .reject else pure ()

/-- The result of `kk_decode_stream` as a length or a status. -/
def decodeStatus (decLen : ℕ) (m : Dec Unit) : Dec (Except PaiStatus ℕ) :=
  match m.result with
  | .ok _ => ⟨m.ops, .ok (.ok decLen)⟩
  | .error .reject => ⟨m.ops, .ok (.error paiErrProtocol)⟩
  | .error e => ⟨m.ops, .error e⟩

/-- `pai_compress_decode`: the number of decoded bytes, or a status. -/
def paiCompressDecode (malloc : ℕ → Bool) (cap : ℕ) : Dec (Except PaiStatus ℕ) :=
  -- "PAKC", the method and the decoded size
  if 16 ≤ src.length ∧ src.take 4 = [0x50, 0x41, 0x4B, 0x43] then
    let method := leNat ((src.drop 4).take 4)
    let decLen := leNat ((src.drop 8).take 8)
    if method ≠ 1 then pure (.error paiErrUnsupported)
    else if cap < decLen ∨ decLen = 0 then pure (.error paiErrInvalidArg)
    else decodeStatus decLen (kkDecodeStream (src.drop 16) malloc decLen)
  else pure (.error paiErrUnsupported)

end Input

end Prospero
