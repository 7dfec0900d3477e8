import Prospero.Compression.Decoder

/-!
# The encoder

`compression/kraken_encode.c` and `pai_compress_encode` of `compression/pai_compress.c`.  A buffer is the list
of the bytes written to it, with its capacity and the number of bytes of memory that are really there.  The
buffers of the chunks are windows of the output (`KeBuf.window`), whose bytes count only once they are added to
it.  Besides `return -1` a run can end in two ways that the source does not check for: a write beyond the
memory of a buffer (`KeEnd.fault`), and an append that fails where the result of `ke_put` is ignored
(`KeEnd.dropped`), with which the source goes on without the byte.
-/

namespace Prospero

open ByteString

/-- How the encoder ends without a stream. -/
inductive KeEnd where
  /-- `return -1`. -/
  | fail
  /-- An ignored failure. -/
  | dropped
  /-- A write out of range. -/
  | fault
  /-- A loop that does not end. -/
  | forever
deriving DecidableEq, Repr

/-- `(uint64_t)(a - b)`. -/
def u64Sub (a b : ℕ) : ℕ := (((a : ℤ) - b) % 18446744073709551616).toNat

/-! ## Buffers -/

/-- `ke_buf_t`. -/
structure KeBuf where
  /-- The bytes `p[0]` to `p[n - 1]`. -/
  bytes : List UInt8
  /-- `cap`. -/
  cap : ℕ
  /-- The bytes of memory from `p` on. -/
  room : ℕ

/-- `n`. -/
def KeBuf.n (b : KeBuf) : ℕ := b.bytes.length

/-- The window of a buffer `skip` bytes behind its end. -/
def KeBuf.window (b : KeBuf) (skip : ℕ) : KeBuf := ⟨[], u32Sub (u32Sub b.cap b.n) skip, b.room - (b.n + skip)⟩

/-- Write bytes to the end of a buffer without a look at its capacity. -/
def keStore (b : KeBuf) (bytes : List UInt8) : Except KeEnd KeBuf :=
  if bytes ≠ [] ∧ b.room < b.n + bytes.length then .error .fault
  else .ok { b with bytes := b.bytes ++ bytes }

/-- `ke_put`. -/
def kePut (b : KeBuf) (v : ℕ) : Except KeEnd KeBuf :=
  if b.cap ≤ b.n then .error .fail else keStore b [UInt8.ofNat v]

/-- `ke_put16`. -/
def kePut16 (b : KeBuf) (v : ℕ) : Except KeEnd KeBuf := do
  let b ← kePut b (v &&& 0xFF)
  kePut b (v >>> 8)

/-- `ke_put24`. -/
def kePut24 (b : KeBuf) (v : ℕ) : Except KeEnd KeBuf := do
  let b ← kePut b (v &&& 0xFF)
  let b ← kePut b (v >>> 8 &&& 0xFF)
  kePut b (v >>> 16)

/-- A call whose failure is ignored. -/
def ignored {α : Type} (r : Except KeEnd α) : Except KeEnd α :=
  match r with
  | .error .fail => .error .dropped
  | r => r

/-- `memcpy` to the end of a buffer, after a look at its capacity. -/
def keAppend (b : KeBuf) (bytes : List UInt8) : Except KeEnd KeBuf :=
  if u32Sub b.cap b.n < bytes.length then .error .fail else keStore b bytes

/-- `ke_raw_chunk`. -/
def keRawChunk (b : KeBuf) (data : List UInt8) : Except KeEnd KeBuf := do
  let n := data.length
  if n ≤ 0xFFF then do
    let b ← kePut b (0x80 ||| n >>> 8)
    let b ← kePut b (n &&& 0xFF)
    keAppend b data
  else if 0x3FFFF < n then .error .fail
  else do
    let b ← kePut b (n >>> 16)
    let b ← kePut b (n >>> 8)
    let b ← kePut b n
    keAppend b data

/-- `ke_len_emit`, with the length it returns. -/
def keLenEmit (lb : KeBuf) (len base : ℕ) : Except KeEnd (ℕ × KeBuf) := do
  let l := u32Sub len base
  if 251 < l then do
    let b := 252 + (l - 252 &&& 3)
    let k := (l - b) / 4
    let lb ← ignored (kePut lb b)
    let lb ← ignored (kePut16 lb k)
    pure (base + (b + 4 * k), lb)
  else do
    let lb ← ignored (kePut lb l)
    pure (base + l, lb)

/-! ## Matches -/

/-- `ke_enc_t`, without the source. -/
structure KeEnc where
  /-- `table`. -/
  table : ℕ → ℤ
  /-- `chain`. -/
  chain : ℕ → ℤ
  /-- `lit`. -/
  lit : KeBuf
  /-- `cmd`. -/
  cmd : KeBuf
  /-- `off16`. -/
  off16 : KeBuf
  /-- `off32`. -/
  off32 : KeBuf
  /-- `lenb`. -/
  lenb : KeBuf
  /-- `lit_claimed`. -/
  litClaimed : ℕ
  /-- `lit_chunk0`. -/
  litChunk0 : ℕ
  /-- `cmd_chunk0`. -/
  cmdChunk0 : ℕ
  /-- `off16_chunk0`. -/
  off16Chunk0 : ℕ
  /-- `off32_chunk0`. -/
  off32Chunk0 : ℕ
  /-- `lenb_chunk0`. -/
  lenbChunk0 : ℕ
  /-- `cmd_half1`. -/
  cmdHalf1 : ℕ
  /-- `off32_half1`. -/
  off32Half1 : ℕ

/-- `ke_pending`. -/
def kePending (e : KeEnc) : ℕ := u32Sub e.lit.n e.litClaimed

/-- `ke_flush_lits`, for a number of rounds. -/
def keFlushLits (pos halfEnd : ℕ) : ℕ → KeEnc → Except KeEnd KeEnc
  | 0, _ => .error .forever
  | rounds + 1, e =>
    if 64 ≤ kePending e ∧ 64 ≤ u64Sub halfEnd pos then do
      let run := if u64Sub halfEnd pos < kePending e then u64Sub halfEnd pos else kePending e
      let run := if 64 + 251 < run then 64 + 251 else run
      let cmd ← kePut e.cmd 0
      let (_, lenb) ← keLenEmit e.lenb run 64
      keFlushLits pos halfEnd rounds { e with cmd := cmd, lenb := lenb, litClaimed := e.litClaimed + run }
    else pure e

section Source

variable (src : List UInt8)

/-- `n` bytes of the source. -/
def srcBytes (p n : ℕ) : List UInt8 := (src.drop p).take n

/-- `ke_hash4`. -/
def keHash4 (p : ℕ) : ℕ := (leNat (srcBytes src p 4) * 0x9E3779B1 % 4294967296) >>> 14

/-- The bytes that are the same at two places, up to `n`. -/
def matchLength (q pos : ℕ) : ℕ → ℕ → ℕ
  | 0, n => n
  | rest + 1, n => if src[q + n]? = src[pos + n]? then matchLength q pos rest (n + 1) else n

/-- The loop of `ke_find` over at most `left` candidates; there are 64 to start with. -/
def findLoop (chain : ℕ → ℤ) (pos chunkStart maxLen : ℕ) : ℕ → ℤ → ℕ × ℕ → ℕ × ℕ
  | 0, _, best => best
  | left + 1, cand, best =>
    if cand < 0 then best
    else
      let q := cand.toNat
      -- the distance is unsigned, and a candidate behind `pos` is far off
      if pos ≤ q ∨ 0xFFFFFFFF < pos - q then best
      else if 0xFFFF < pos - q ∧ q < chunkStart then findLoop chain pos chunkStart maxLen left (chain q) best
      else if 0 < best.1 ∧ best.1 < maxLen ∧ src[q + best.1]? ≠ src[pos + best.1]? then
        findLoop chain pos chunkStart maxLen left (chain q) best
      else
        let n := matchLength src q pos maxLen 0
        if best.1 < n ∧ (maxLen ≤ n ∨ 64 ≤ n) then (n, q)
        else
          let best := if best.1 < n then (n, q) else best
          if best.1 = 0 ∧ 16 ≤ 63 - left then best
          else findLoop chain pos chunkStart maxLen left (chain q) best

/-- `ke_find`: length and place of a match. -/
def keFind (e : KeEnc) (pos chunkStart maxLen : ℕ) : Option (ℕ × ℕ) :=
  if maxLen < 5 then none
  else
    let best := findLoop src e.chain pos chunkStart maxLen 64 (e.table (keHash4 src pos)) (0, 0)
    if best.1 < 5 then none else some best

end Source

/-- The form of a near match with its length in the command. -/
def emitNear (e : KeEnc) (dist mlen : ℕ) : Except KeEnd (Option ℕ × KeEnc) := do
  let cmd ← kePut e.cmd (0x80 ||| mlen <<< 3 ||| kePending e)
  let off16 ← ignored (kePut16 e.off16 dist)
  pure (some mlen, { e with cmd := cmd, off16 := off16, litClaimed := e.litClaimed + kePending e })

/-- The command of a far match, with its length and what it adds to the length stream. -/
def farCommand (e : KeEnc) (mlen : ℕ) : Except KeEnd (ℕ × KeBuf × KeBuf) :=
  if 5 ≤ mlen ∧ mlen ≤ 20 then do
    let cmd ← kePut e.cmd (3 + mlen - 5)
    pure (mlen, cmd, e.lenb)
  else if 29 ≤ mlen then do
    let cmd ← kePut e.cmd 2
    let (mlen, lenb) ← keLenEmit e.lenb mlen 29
    pure (mlen, cmd, lenb)
  else do
    let cmd ← kePut e.cmd (3 + 20 - 5)
    pure (20, cmd, e.lenb)

/-- The forms of a far match. -/
def emitFar (e : KeEnc) (q mlen chunkStart : ℕ) : Except KeEnd (Option ℕ × KeEnc) := do
  let off := u32Sub chunkStart q
  let (mlen, cmd, lenb) ← farCommand e mlen
  let off32 ← ignored (kePut24 e.off32 off)
  let off32 ← (if 0xC00000 - 1 ≤ chunkStart ∧ 0xC00000 ≤ off then ignored (kePut off32 (off >>> 22))
    else pure off32)
  pure (some mlen, { e with cmd := cmd, lenb := lenb, off32 := off32,
                            litClaimed := e.litClaimed + kePending e })

/-- `ke_emit_match`: the length taken, if the match can be encoded. -/
def keEmitMatch (e : KeEnc) (pos q mlen chunkStart : ℕ) : Except KeEnd (Option ℕ × KeEnc) :=
  let dist := u32Sub pos q
  if 0xFFFF < dist then
    if q < chunkStart then pure (none, e) else emitFar e q mlen chunkStart
  else if mlen ≤ 15 then emitNear e dist mlen
  else if 91 ≤ mlen then do
    let cmd ← kePut e.cmd 1
    let (mlen, lenb) ← keLenEmit e.lenb mlen 91
    let off16 ← ignored (kePut16 e.off16 dist)
    pure (some mlen, { e with cmd := cmd, lenb := lenb, off16 := off16,
                              litClaimed := e.litClaimed + kePending e })
  else if q < chunkStart then emitNear e dist 15
  else emitFar e q mlen chunkStart

/-! ## Chunks -/

/-- The end of a batch of literals: `while (n < end && ke_pending(e) + (uint32_t)(n - p) < 64u) n++`. -/
def batchEnd (pending p stop : ℕ) : ℕ → ℕ → ℕ
  | 0, n => n
  | rest + 1, n => if n < stop ∧ pending + (n - p) < 64 then batchEnd pending p stop rest (n + 1) else n

section Source

variable (src : List UInt8)

/-- The match at `p`, if there is one that is long enough up to the end of the half and can be encoded. -/
def matchStep (e : KeEnc) (p chunkStart stop halfEnd : ℕ) : Except KeEnd (Option ℕ × KeEnc) :=
  match if kePending e ≤ 7 then keFind src e p chunkStart (stop - p) else none with
  | some (mlen, q) =>
    let mlen := if halfEnd - p < mlen then halfEnd - p else mlen
    if 5 ≤ mlen then keEmitMatch e p q mlen chunkStart else pure (none, e)
  | none => pure (none, e)

/-- The literals at `p`, with the place behind them. -/
def literalStep (e : KeEnc) (p stop halfEnd : ℕ) : Except KeEnd (ℕ × KeEnc) := do
  let n := batchEnd (kePending e) p stop (stop - p) (p + 1)
  let lit ← keAppend e.lit (srcBytes src p (n - p))
  let e := { e with lit := lit }
  let e ← keFlushLits n halfEnd (kePending e + 1) e
  pure (n, e)

/-- The loop of `ke_encode_chunk`, for a number of rounds. -/
def chunkLoop (chunkStart stop : ℕ) : ℕ → ℕ → ℕ → KeEnc → Except KeEnd KeEnc
  | 0, _, _, _ => .error .forever
  | rounds + 1, p, half, e =>
    if p < stop then do
      let second := half = 0 ∧ 0x10000 ≤ p - chunkStart
      let e := if second then { e with cmdHalf1 := e.cmd.n, off32Half1 := e.off32.n } else e
      let half := if second then 1 else half
      let halfEnd := if half = 0 then chunkStart + 0x10000 else stop
      match ← matchStep src e p chunkStart stop halfEnd with
      | (some taken, e) => chunkLoop chunkStart stop rounds (p + taken) half e
      | (none, e) => do
        let (p, e) ← literalStep src e p stop halfEnd
        chunkLoop chunkStart stop rounds p half e
    else pure e

/-- The header of the tables of far offsets and the tables, or zero without any. -/
def farTables (e : KeEnc) (w : KeBuf) : Except KeEnd KeBuf :=
  let n := e.off32.n - e.off32Chunk0
  let n1 := e.off32Half1 - e.off32Chunk0
  if n ≠ 0 then do
    let w ← ignored (kePut24 w ((n1 / 3) <<< 12 ||| (n - n1) / 3))
    keAppend w (e.off32.bytes.drop e.off32Chunk0)
  else ignored (kePut24 w 0)

/-- The payload of a chunk. -/
def chunkPayload (e : KeEnc) (w : KeBuf) (chunkStart dstCount outOffs : ℕ) : Except KeEnd KeBuf := do
  -- the first eight bytes of the whole stream are stored raw
  let w ← (if outOffs = 0 then keAppend w (srcBytes src chunkStart 8) else pure w)
  let w ← keRawChunk w (e.lit.bytes.drop e.litChunk0)
  let w ← keRawChunk w (e.cmd.bytes.drop e.cmdChunk0)
  let w ← (if 0x10000 < dstCount then ignored (kePut16 w (e.cmdHalf1 - e.cmdChunk0)) else pure w)
  let w ← ignored (kePut16 w ((e.off16.n - e.off16Chunk0) / 2))
  let w ← keAppend w (e.off16.bytes.drop e.off16Chunk0)
  let w ← farTables e w
  keAppend w (e.lenb.bytes.drop e.lenbChunk0)

/-- A raw nested chunk behind a header of zeros, added to `q`. -/
def rawChunk (q : KeBuf) (chunkStart dstCount : ℕ) : Except KeEnd KeBuf := do
  let w ← kePut24 (q.window 0) 0
  let w ← keRawChunk w (srcBytes src chunkStart dstCount)
  pure { q with bytes := q.bytes ++ w.bytes }

/-- `ke_encode_chunk`. -/
def keEncodeChunk (e : KeEnc) (q : KeBuf) (chunkStart dstCount outOffs : ℕ) :
    Except KeEnd (KeEnc × KeBuf) :=
  -- too small for the eight bytes at the start of the stream
  if outOffs = 0 ∧ dstCount < 8 then do
    let q ← rawChunk src q chunkStart dstCount
    pure (e, q)
  else do
    let e := { e with litChunk0 := e.lit.n, cmdChunk0 := e.cmd.n, off16Chunk0 := e.off16.n,
                      off32Chunk0 := e.off32.n, lenbChunk0 := e.lenb.n, cmdHalf1 := e.cmd.n,
                      off32Half1 := e.off32.n, litClaimed := e.lit.n }
    let stop := chunkStart + dstCount
    let e ← chunkLoop src chunkStart stop (dstCount + 1) (chunkStart + if outOffs = 0 then 8 else 0) 0 e
    let e := if dstCount ≤ 0x10000 then { e with cmdHalf1 := e.cmd.n, off32Half1 := e.off32.n } else e
    let w ← chunkPayload src e (q.window 3) chunkStart dstCount outOffs
    let payload := w.n
    if dstCount ≤ payload then do
      let q ← rawChunk src q chunkStart dstCount
      pure (e, q)
    else do
      let q ← kePut q (0x80 ||| 1 <<< 3 ||| payload >>> 16)
      let q ← kePut q (payload >>> 8)
      let q ← kePut q payload
      pure (e, { q with bytes := q.bytes ++ w.bytes })

/-! ## Quanta -/

/-- `ke_quantum_fill`. -/
def keQuantumFill (bytes : List UInt8) : Option UInt8 :=
  match bytes with
  | [] => none
  | b :: bs => if bs.all (· = b) then some b else none

/-- The chunks of a quantum at `pos`, for a number of rounds; `produced` bytes of `qlen` are done. -/
def quantumChunks (pos qlen : ℕ) : ℕ → ℕ → KeEnc → KeBuf → Except KeEnd (KeEnc × KeBuf)
  | 0, _, _, _ => .error .forever
  | rounds + 1, produced, e, q =>
    if produced < qlen then do
      let chunk := if 0x20000 < qlen - produced then 0x20000 else qlen - produced
      let (e, q) ← keEncodeChunk src e q (pos + produced) chunk (pos + produced)
      quantumChunks pos qlen rounds (produced + chunk) e q
    else pure (e, q)

/-- The three bytes of a number, the high one first. -/
def be24 (v : ℕ) : List UInt8 := [UInt8.ofNat (v >>> 16), UInt8.ofNat (v >>> 8), UInt8.ofNat v]

/-- A quantum that is not of one value: its chunks, or the bytes as they are when these are shorter. -/
def encodeQuantum (e : KeEnc) (out : KeBuf) (pos qlen : ℕ) : Except KeEnd (KeEnc × KeBuf) := do
  let e := { e with lit := { e.lit with bytes := [] }, cmd := { e.cmd with bytes := [] },
                    off16 := { e.off16 with bytes := [] }, off32 := { e.off32 with bytes := [] },
                    lenb := { e.lenb with bytes := [] }, litClaimed := 0 }
  let (e, q) ← quantumChunks src pos qlen (qlen + 1) 0 e (out.window 3)
  if qlen ≤ q.n then do
    let out ← keStore out (if qlen = 0x40000 then [0x0F, 0xFF, 0xFF] else be24 (qlen - 1))
    let out ← keAppend out (srcBytes src pos qlen)
    pure (e, out)
  else do
    let out ← keStore out (be24 (q.n - 1))
    pure (e, { out with bytes := out.bytes ++ q.bytes })

/-- Enter the places of a quantum in the table and the chains. -/
def hashWindow (stop : ℕ) : ℕ → ℕ → KeEnc → KeEnc
  | 0, _, e => e
  | rest + 1, hp, e =>
    if hp + 4 ≤ stop then
      let h := keHash4 src hp
      hashWindow stop rest (hp + 1)
        { e with chain := Function.update e.chain hp (e.table h), table := Function.update e.table h hp }
    else e

/-- One quantum of `kk_encode_stream`. -/
def streamStep (e : KeEnc) (out : KeBuf) (pos qlen : ℕ) : Except KeEnd (KeEnc × KeBuf) := do
  let out ← (if pos &&& 0x3FFFF = 0 then do
    let out ← kePut out 0x0C
    kePut out 10
  else pure out)
  let (e, out) ← (match keQuantumFill (srcBytes src pos qlen) with
    | some fill => do
      let out ← keAppend out [0x07, 0xFF, 0xFF, fill]
      pure (e, out)
    | none => encodeQuantum src e out pos qlen)
  pure (hashWindow src (pos + qlen) qlen pos e, out)

/-- The loop of `kk_encode_stream`, for a number of rounds. -/
def streamLoop : ℕ → ℕ → KeEnc → KeBuf → Except KeEnd KeBuf
  | 0, _, _, _ => .error .forever
  | rounds + 1, pos, e, out =>
    if pos < src.length then do
      let quantum := if 0x40000 < src.length - pos then 0x40000 else src.length - pos
      let (e, out) ← streamStep src e out pos quantum
      streamLoop rounds (pos + quantum) e out
    else pure out

/-- The encoder before the first quantum.  The chains are not initialised; each entry that is followed has been
entered. -/
def keInit : KeEnc where
  table := fun _ => -1
  chain := fun _ => 0
  lit := ⟨[], 0x40000 + 64, 0x40000 + 64⟩
  cmd := ⟨[], 0x40000 + 64, 0x40000 + 64⟩
  off16 := ⟨[], 2 * 0x40000 + 64, 2 * 0x40000 + 64⟩
  off32 := ⟨[], 0x40000 + 64, 0x40000 + 64⟩
  lenb := ⟨[], 0x40000 + 64, 0x40000 + 64⟩
  litClaimed := 0
  litChunk0 := 0
  cmdChunk0 := 0
  off16Chunk0 := 0
  off32Chunk0 := 0
  lenbChunk0 := 0
  cmdHalf1 := 0
  off32Half1 := 0

/-- `kk_encode_stream`; `alloc n` says whether allocation number `n` succeeds. -/
def kkEncodeStream (alloc : ℕ → Bool) (out : KeBuf) : Except KeEnd KeBuf :=
  if (List.range 7).all alloc then streamLoop src (src.length + 1) 0 keInit out else .error .fail

/-- `pai_compress_bound`. -/
def paiCompressBound (len : ℕ) : ℕ := u64 (len + len / 0x40000 * 8 + 0x10000)

/-- `pai_compress_encode`: the bytes written, or a status. -/
def paiCompressEncode (alloc : ℕ → Bool) (cap : ℕ) : Except KeEnd (Except PaiStatus (List UInt8)) :=
  let bound := paiCompressBound src.length
  if src.length = 0 then .ok (.error paiErrInvalidArg)
  else if cap < 16 ∨ cap < (bound + 16) % 18446744073709551616 then .ok (.error paiErrInvalidArg)
  else
    let header := [0x50, 0x41, 0x4B, 0x43] ++ leBytes 4 1 ++ leBytes 8 src.length
    match kkEncodeStream src alloc ⟨[], u32Sub (cap % 4294967296) 16, cap - 16⟩ with
    | .ok stream => .ok (.ok (header ++ stream.bytes))
    | .error .fail => .ok (.error paiErrInternal)
    | .error e => .error e

end Source

end Prospero
