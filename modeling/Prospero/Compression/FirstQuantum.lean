import Prospero.Compression.DecoderRuns
import Prospero.Compression.EncoderBounds

/-!
# The first quantum

The places of a quantum are entered in the table when the quantum is done, so in the first one there is
nothing to find (`KeEnc.Blank`): every byte becomes a literal, the payload of each chunk is longer than the
chunk, and the quantum is stored as it is, unless it is of one value.  An input of a single quantum therefore
comes back from the decoder.

### Outline

* `chunkLoop_blank`: without matches all bytes of a chunk are literals.
* `encodeQuantum_blank`: the quantum is stored as it is.
* `kkContainerDecode_stored`, `kkContainerDecode_fill`: what the decoder makes of the two forms.
-/

namespace Prospero

open ByteString Emission

/-! ## What a result satisfies -/

/-- If the computation gives a result, it satisfies `P`. -/
def Yields {ε α : Type} (m : Except ε α) (P : α → Prop) : Prop := ∀ a, m = .ok a → P a

section Results

variable {ε α β : Type} {P : α → Prop} {Q : β → Prop}

lemma yields_ok {a : α} (h : P a) : Yields (.ok a : Except ε α) P := fun _ heq => Except.ok.inj heq ▸ h

lemma yields_error {e : ε} : Yields (.error e) P := fun _ h => by cases h

lemma Yields.bind {m : Except ε α} {f : α → Except ε β} (hm : Yields m P) (hf : ∀ a, P a → Yields (f a) Q) :
    Yields (m >>= f) Q := by
  cases m with
  | error e => exact yields_error
  | ok a => exact hf a (hm a rfl)

lemma yields_ite {p : Prop} [Decidable p] {m m' : Except ε α} (hpos : p → Yields m P)
    (hneg : ¬ p → Yields m' P) : Yields (if p then m else m') P := by
  by_cases h : p
  · rw [if_pos h]
    exact hpos h
  · rw [if_neg h]
    exact hneg h

end Results

/-! ## Buffers -/

section Buffers

variable {b : KeBuf} {n : ℕ}

lemma keStore_yields {bytes : List UInt8} : Yields (keStore b bytes) (· = b.push bytes) :=
  yields_ite (fun _ => yields_error) fun _ => yields_ok rfl

lemma kePut_yields {v : ℕ} : Yields (kePut b v) (· = b.push [UInt8.ofNat v]) :=
  yields_ite (fun _ => yields_error) fun _ => keStore_yields

lemma keAppend_yields {bytes : List UInt8} : Yields (keAppend b bytes) (· = b.push bytes) :=
  yields_ite (fun _ => yields_error) fun _ => keStore_yields

lemma ignored_yields {m : Except KeEnd KeBuf} {P : KeBuf → Prop} (h : Yields m P) : Yields (ignored m) P := by
  rcases m with e | a
  · cases e <;> exact yields_error
  · exact h

/-- At least `n` bytes are added. -/
def KeBuf.Grows (b : KeBuf) (n : ℕ) (b' : KeBuf) : Prop := b.n + n ≤ b'.n

lemma grows_push {bytes : List UInt8} (h : n ≤ bytes.length) : b.Grows n (b.push bytes) := by
  unfold KeBuf.Grows
  rw [KeBuf.push_n]
  exact Nat.add_le_add_left h _

lemma kePut16_grows {v : ℕ} : Yields (kePut16 b v) (b.Grows 0) := by
  refine kePut_yields.bind fun b₁ h₁ b₂ h₂ => ?_
  rw [kePut_yields b₂ h₂, h₁, KeBuf.push_push]
  exact grows_push (Nat.zero_le _)

lemma kePut24_yields {v : ℕ} : Yields (kePut24 b v) fun b' => ∃ bytes, b' = b.push bytes ∧ bytes.length = 3 := by
  refine kePut_yields.bind fun b₁ h₁ => kePut_yields.bind fun b₂ h₂ b₃ h₃ => ?_
  rw [kePut_yields b₃ h₃, h₂, h₁, KeBuf.push_push, KeBuf.push_push]
  exact ⟨_, rfl, rfl⟩

lemma keRawChunk_grows {data : List UInt8} : Yields (keRawChunk b data) (b.Grows data.length) := by
  refine yields_ite (fun _ => ?_) fun _ => yields_ite (fun _ => yields_error) fun _ => ?_
  · refine kePut_yields.bind fun b₁ h₁ => kePut_yields.bind fun b₂ h₂ b₃ h₃ => ?_
    rw [keAppend_yields b₃ h₃, h₂, h₁, KeBuf.push_push, KeBuf.push_push]
    exact grows_push (by simp only [List.length_append]; omega)
  · refine kePut_yields.bind fun b₁ h₁ => kePut_yields.bind fun b₂ h₂ => kePut_yields.bind
      fun b₃ h₃ b₄ h₄ => ?_
    rw [keAppend_yields b₄ h₄, h₃, h₂, h₁, KeBuf.push_push, KeBuf.push_push, KeBuf.push_push]
    exact grows_push (by simp only [List.length_append]; omega)

end Buffers

/-! ## Chunks -/

/-- Nothing is in the table. -/
def KeEnc.Blank (e : KeEnc) : Prop := ∀ h, e.table h = -1

section Chunks

variable {src : List UInt8} {e : KeEnc}

/-- In an empty table there is nothing to find. -/
lemma keFind_blank (h : e.Blank) (pos chunkStart maxLen : ℕ) : keFind src e pos chunkStart maxLen = none := by
  unfold keFind
  rw [h]
  exact ite_self _

lemma keLenEmit_yields {lb : KeBuf} {len base : ℕ} : Yields (keLenEmit lb len base) fun _ => True :=
  fun _ _ => trivial

/-- Runs of literals leave the literals and the table alone. -/
lemma keFlushLits_keeps {pos halfEnd rounds : ℕ} : Yields (keFlushLits pos halfEnd rounds e) fun e' =>
    e'.table = e.table ∧ e'.lit = e.lit ∧ e'.litChunk0 = e.litChunk0 := by
  induction rounds generalizing e with
  | zero => exact yields_error
  | succ rounds ih =>
    refine yields_ite (fun _ => ?_) fun _ => yields_ok ⟨rfl, rfl, rfl⟩
    exact kePut_yields.bind fun _ _ => keLenEmit_yields.bind fun _ _ => ih

/-- A batch of literals without a match. -/
lemma literalStep_blank {p stop halfEnd : ℕ} (hp : p < stop) (hsrc : stop ≤ src.length) :
    Yields (literalStep src e p stop halfEnd) fun r => p < r.1 ∧ r.1 ≤ stop ∧ r.2.table = e.table ∧
      r.2.lit.n = e.lit.n + (r.1 - p) ∧ r.2.litChunk0 = e.litChunk0 := by
  obtain ⟨hlo, hhi⟩ := @batchEnd_mem (kePending e) p stop (stop - p) (p + 1) hp
  unfold literalStep
  generalize batchEnd (kePending e) p stop (stop - p) (p + 1) = n at hlo hhi
  refine keAppend_yields.bind fun lit hlit => keFlushLits_keeps.bind ?_
  rintro e' ⟨htable, hlit', hmark⟩
  refine yields_ok ⟨hlo, hhi, htable, ?_, hmark⟩
  dsimp only
  rw [hlit', hlit, KeBuf.push_n, length_srcBytes (by omega)]

/-- Without matches all bytes of a chunk are literals. -/
lemma chunkLoop_blank {chunkStart stop rounds p half : ℕ} (h : e.Blank) (hp : p ≤ stop)
    (hsrc : stop ≤ src.length) : Yields (chunkLoop src chunkStart stop rounds p half e) fun e' =>
      e'.Blank ∧ e'.lit.n = e.lit.n + (stop - p) ∧ e'.litChunk0 = e.litChunk0 := by
  induction rounds generalizing e p half with
  | zero => exact yields_error
  | succ rounds ih =>
    refine yields_ite (fun hmore => ?_) fun hdone => ?_
    · dsimp only
      obtain ⟨e₁, he₁⟩ : ∃ e₁, e₁ = if half = 0 ∧ 0x10000 ≤ p - chunkStart then
        { e with cmdHalf1 := e.cmd.n, off32Half1 := e.off32.n } else e := ⟨_, rfl⟩
      have hsame : e₁.table = e.table ∧ e₁.lit = e.lit ∧ e₁.litChunk0 = e.litChunk0 := by
        rw [he₁]
        split <;> exact ⟨rfl, rfl, rfl⟩
      obtain ⟨htable, hlit, hmark⟩ := hsame
      have hblank : e₁.Blank := fun k => by rw [htable, h k]
      rw [← he₁]
      have hmatch (halfEnd : ℕ) : matchStep src e₁ p chunkStart stop halfEnd = .ok (none, e₁) := by
        unfold matchStep
        rw [keFind_blank hblank, ite_self]
        rfl
      rw [hmatch]
      refine (literalStep_blank hmore hsrc).bind ?_
      rintro ⟨n, e₂⟩ ⟨hlo, hhi, htable', hlit', hmark'⟩ e' he'
      obtain ⟨hb, hl, hm⟩ := ih (fun k => by rw [htable', hblank k]) hhi e' he'
      refine ⟨hb, ?_, by rw [hm, hmark', hmark]⟩
      rw [hl, hlit', hlit]
      omega
    · exact yields_ok ⟨h, by omega, rfl⟩

lemma farTables_grows {w : KeBuf} : Yields (farTables e w) (w.Grows 0) := by
  refine yields_ite (fun _ => ?_) fun _ => ?_
  · refine (ignored_yields kePut24_yields).bind ?_
    rintro _ ⟨bytes, rfl, -⟩ w' hw'
    rw [keAppend_yields w' hw', KeBuf.push_push]
    exact grows_push (Nat.zero_le _)
  · intro w' hw'
    obtain ⟨bytes, rfl, -⟩ := ignored_yields kePut24_yields w' hw'
    exact grows_push (Nat.zero_le _)

/-- The literals are in the payload. -/
lemma chunkPayload_grows {w : KeBuf} {chunkStart dstCount outOffs : ℕ}
    (hsrc : outOffs = 0 → chunkStart + 8 ≤ src.length) :
    Yields (chunkPayload src e w chunkStart dstCount outOffs)
      (w.Grows ((if outOffs = 0 then 8 else 0) + (e.lit.n - e.litChunk0))) := by
  have hlit := length_drop_bytes e.lit e.litChunk0
  unfold chunkPayload
  refine Yields.bind (P := w.Grows (if outOffs = 0 then 8 else 0)) ?_ fun w₁ h₁ => ?_
  · by_cases hzero : outOffs = 0
    · rw [if_pos hzero, if_pos hzero]
      intro w' hw'
      rw [keAppend_yields w' hw']
      exact grows_push (length_srcBytes (hsrc hzero)).ge
    · rw [if_neg hzero, if_neg hzero]
      exact yields_ok le_rfl
  refine keRawChunk_grows.bind fun w₂ h₂ => keRawChunk_grows.bind fun w₃ h₃ => ?_
  refine Yields.bind (P := w₃.Grows 0) (yields_ite (fun _ => ignored_yields kePut16_grows)
    fun _ => yields_ok le_rfl) fun w₄ h₄ => ?_
  refine (ignored_yields kePut16_grows).bind fun w₅ h₅ => keAppend_yields.bind fun w₆ h₆ => ?_
  refine farTables_grows.bind fun w₇ h₇ w₈ h₈ => ?_
  rw [keAppend_yields w₈ h₈]
  rw [h₆] at h₇
  unfold KeBuf.Grows at *
  rw [KeBuf.push_n] at h₇ ⊢
  omega

lemma rawChunk_grows {q : KeBuf} {chunkStart dstCount : ℕ} (hsrc : chunkStart + dstCount ≤ src.length) :
    Yields (rawChunk src q chunkStart dstCount) (q.Grows dstCount) := by
  refine kePut24_yields.bind ?_
  rintro _ ⟨head, rfl, -⟩
  refine keRawChunk_grows.bind fun w hw => yields_ok ?_
  rw [length_srcBytes hsrc] at hw
  unfold KeBuf.Grows at hw ⊢
  rw [KeBuf.push_n] at hw
  change q.bytes.length + dstCount ≤ (q.bytes ++ w.bytes).length
  rw [List.length_append]
  exact Nat.add_le_add_left ((Nat.le_add_left _ _).trans hw) _

/-- Without matches a chunk is no shorter than its bytes. -/
lemma keEncodeChunk_blank {q : KeBuf} {chunkStart dstCount outOffs : ℕ} (h : e.Blank)
    (hsrc : chunkStart + dstCount ≤ src.length) :
    Yields (keEncodeChunk src e q chunkStart dstCount outOffs) fun r => r.1.Blank ∧ q.Grows dstCount r.2 := by
  refine yields_ite (fun _ => (rawChunk_grows hsrc).bind fun q' hq' => yields_ok ⟨h, hq'⟩) fun hlong => ?_
  obtain ⟨first, hfirst⟩ : ∃ first, first = if outOffs = 0 then 8 else 0 := ⟨_, rfl⟩
  have hle : first ≤ dstCount := by
    split_ifs at hfirst <;> omega
  dsimp only
  rw [← hfirst]
  refine (chunkLoop_blank (by exact h) (by omega) hsrc).bind ?_
  rintro e₁ ⟨hblank, hlit, hmark⟩
  dsimp only at hlit hmark
  obtain ⟨e₂, he₂⟩ : ∃ e₂, e₂ = if dstCount ≤ 0x10000 then
    { e₁ with cmdHalf1 := e₁.cmd.n, off32Half1 := e₁.off32.n } else e₁ := ⟨_, rfl⟩
  have hsame : e₂.table = e₁.table ∧ e₂.lit = e₁.lit ∧ e₂.litChunk0 = e₁.litChunk0 := by
    rw [he₂]
    split <;> exact ⟨rfl, rfl, rfl⟩
  rw [← he₂]
  have hblank' : e₂.Blank := fun k => by rw [hsame.1, hblank k]
  refine (chunkPayload_grows fun hzero => by
    rw [if_pos hzero] at hfirst
    omega).bind fun w hw => ?_
  rw [hsame.2.1, hsame.2.2, hlit, hmark, ← hfirst] at hw
  have hlong : dstCount ≤ w.n := by
    unfold KeBuf.Grows at hw
    omega
  rw [if_pos hlong]
  exact (rawChunk_grows hsrc).bind fun q' hq' => yields_ok ⟨hblank', hq'⟩

end Chunks

/-! ## The quantum -/

/-- The stream of a single quantum: a header, and the value of all the bytes or the bytes as they are. -/
def plainStream (src : List UInt8) : List UInt8 :=
  [0x0C, 10] ++
    match keQuantumFill src with
    | some fill => [0x07, 0xFF, 0xFF, fill]
    | none => (if src.length = 0x40000 then [0x0F, 0xFF, 0xFF] else be24 (src.length - 1)) ++ src

section Quantum

variable {src : List UInt8} {e : KeEnc}

/-- Without matches the chunks are no shorter than the quantum. -/
lemma quantumChunks_blank {q : KeBuf} {pos qlen produced rounds : ℕ} (h : e.Blank)
    (hproduced : produced ≤ qlen) (hsrc : pos + qlen ≤ src.length) :
    Yields (quantumChunks src pos qlen rounds produced e q) fun r => q.Grows (qlen - produced) r.2 := by
  induction rounds generalizing produced e q with
  | zero => exact yields_error
  | succ rounds ih =>
    refine yields_ite (fun hmore => ?_) fun hdone => yields_ok ?_
    · dsimp only
      obtain ⟨chunk, hchunk⟩ : ∃ chunk, chunk =
        if 0x20000 < qlen - produced then 0x20000 else qlen - produced := ⟨_, rfl⟩
      have hle : chunk ≤ qlen - produced := by
        split_ifs at hchunk <;> omega
      rw [← hchunk]
      refine (keEncodeChunk_blank h (by omega)).bind ?_
      rintro ⟨e', q'⟩ ⟨hblank, hgrows⟩ r hr
      have hrest := ih hblank (by omega) r hr
      unfold KeBuf.Grows at hgrows hrest ⊢
      dsimp only at hgrows hrest
      omega
    · rw [show qlen - produced = 0 by omega]
      exact le_rfl

/-- Without matches a quantum is stored as it is. -/
lemma encodeQuantum_blank {out : KeBuf} {pos qlen : ℕ} (h : e.Blank) (hsrc : pos + qlen ≤ src.length) :
    Yields (encodeQuantum src e out pos qlen) fun r => r.2 = out.push
      ((if qlen = 0x40000 then [0x0F, 0xFF, 0xFF] else be24 (qlen - 1)) ++ srcBytes src pos qlen) := by
  refine (quantumChunks_blank (by exact h) (Nat.zero_le _) hsrc).bind ?_
  rintro ⟨e', q⟩ hgrows
  unfold KeBuf.Grows at hgrows
  dsimp only at hgrows ⊢
  rw [if_pos (by omega)]
  refine keStore_yields.bind fun out₁ h₁ => keAppend_yields.bind fun out₂ h₂ => yields_ok ?_
  rw [h₂, h₁, KeBuf.push_push]

/-- What the encoder writes for a single quantum. -/
lemma streamLoop_single {out : KeBuf} {rounds : ℕ} (h : e.Blank) (hpos : 0 < src.length)
    (hlen : src.length ≤ 0x40000) :
    Yields (streamLoop src (rounds + 2) 0 e out) (· = out.push (plainStream src)) := by
  have hbytes : srcBytes src 0 src.length = src := by
    rw [srcBytes, List.drop_zero, List.take_length]
  unfold streamLoop
  rw [if_pos hpos, Nat.sub_zero, if_neg (Nat.not_lt.mpr hlen)]
  refine Yields.bind (P := fun r => r.2 = out.push (plainStream src)) ?_ fun r hr => ?_
  · unfold streamStep
    rw [if_pos (Nat.zero_and _)]
    refine Yields.bind (P := (· = out.push [0x0C, 10])) ?_ ?_
    · refine kePut_yields.bind fun out₁ h₁ out₂ h₂ => ?_
      rw [kePut_yields out₂ h₂, h₁, KeBuf.push_push]
      rfl
    · rintro _ rfl
      rw [hbytes]
      unfold plainStream
      cases keQuantumFill src with
      | some fill =>
        refine Yields.bind (P := fun r => r.2 = (out.push [0x0C, 10]).push [0x07, 0xFF, 0xFF, fill])
          (keAppend_yields.bind fun out₁ h₁ => yields_ok h₁) fun r hr => yields_ok ?_
        exact hr.trans (KeBuf.push_push _ _ _)
      | none =>
        refine (encodeQuantum_blank h (Nat.zero_add _).le).bind fun r hr => yields_ok ?_
        rw [hbytes] at hr
        exact hr.trans (KeBuf.push_push _ _ _)
  · obtain ⟨e', out'⟩ := r
    dsimp only
    rw [Nat.zero_add, streamLoop, if_neg (Nat.lt_irrefl _)]
    exact yields_ok hr

end Quantum

/-! ## Reading it back -/

section Reading

variable {src : List UInt8} {p stop : ℕ}

lemma byteAt_eq {b : UInt8} (h : src[p]? = some b) : byteAt src p = pure b.toNat := by
  rw [byteAt, h]

lemma kkInU8_eq {b : UInt8} (h : src[p]? = some b) (hstop : p < stop) :
    kkInU8 src ⟨p, stop⟩ = pure (b.toNat, ⟨p + 1, stop⟩) := by
  rw [kkInU8, if_neg (Nat.not_le.mpr hstop), byteAt_eq h]
  rfl

lemma kkInU24Be_eq {b₀ b₁ b₂ : UInt8} (h₀ : src[p]? = some b₀) (h₁ : src[p + 1]? = some b₁)
    (h₂ : src[p + 2]? = some b₂) (hstop : p + 3 ≤ stop) : kkInU24Be src ⟨p, stop⟩ =
      pure (b₀.toNat <<< 16 ||| b₁.toNat <<< 8 ||| b₂.toNat, ⟨p + 3, stop⟩) := by
  rw [kkInU24Be, if_neg (Nat.not_lt.mpr hstop), byteAt_eq h₀, byteAt_eq h₁, byteAt_eq h₂]
  rfl

/-- The three bytes of a number are read back. -/
lemma be24_eq {v : ℕ} (h : v < 0x1000000) : (UInt8.ofNat (v >>> 16)).toNat <<< 16 |||
    (UInt8.ofNat (v >>> 8)).toNat <<< 8 ||| (UInt8.ofNat v).toNat = v := by
  rw [UInt8.toNat_ofNat', UInt8.toNat_ofNat', UInt8.toNat_ofNat', Nat.or_assoc,
    ← Nat.shiftLeft_add_eq_or_of_lt (show v % 256 < 2 ^ 8 from Nat.mod_lt _ (by decide)),
    ← Nat.shiftLeft_add_eq_or_of_lt (show (v >>> 8 % 256) <<< 8 + v % 256 < 2 ^ 16 by
      rw [Nat.shiftLeft_eq]
      omega)]
  simp only [Nat.shiftLeft_eq, Nat.shiftRight_eq_div_pow]
  omega

lemma kkInCopy_eq {i : KkIn} {n place : ℕ} {data : List UInt8} (hdata : (src.drop i.p).take n = data)
    (hsrc : i.p + n ≤ src.length) (hstop : i.p + n ≤ i.stop) (hlt : i.stop < 4294967296) :
    kkInCopy src i n place = ⟨[.copyIn place data], .ok { i with p := i.p + n }⟩ := by
  rw [kkInCopy, kkInBytes, u32Sub_eq (by omega) (by omega), if_neg (by omega)]
  change (sliceAt src i.p n >>= _) = _
  rw [sliceAt, if_pos hsrc, hdata]
  rfl

/-- A quantum stored as it is. -/
lemma kkPayload_stored {header : KkHeader} {i : KkIn} {place n size : ℕ} {data : List UInt8}
    (hchecks : header.checksums = 0) (hdata : (src.drop i.p).take n = data) (hsrc : i.p + n ≤ src.length)
    (hstop : i.p + n ≤ i.stop) (hlt : i.stop < 4294967296) :
    kkPayload src header i place n n size = ⟨[.copyIn place data], .ok { i with p := i.p + n }⟩ := by
  rw [kkPayload, if_neg (not_not_intro hchecks)]
  change (if _ then _ else _) = _
  rw [u32Sub_eq (by omega) (by omega), if_neg (by omega), if_pos rfl]
  exact kkInCopy_eq hdata hsrc hstop hlt

end Reading

section Single

variable {stream src : List UInt8} {n size : ℕ} {op : DstOp}

/-- The header that the encoder writes. -/
def plainHeader : KkHeader := ⟨10, 0, 0⟩

/-- The one value of a quantum. -/
lemma containerStep_fill {fill : UInt8} :
    containerStep [0x0C, 10, 0x07, 0xFF, 0xFF, fill] plainHeader ⟨2, 6⟩ 0 n size =
      ⟨[.fill 0 fill n], .ok ⟨6, 6⟩⟩ := by
  have hstep : containerStep [0x0C, 10, 0x07, 0xFF, 0xFF, fill] plainHeader ⟨2, 6⟩ 0 n size =
      ⟨[.fill 0 (UInt8.ofNat fill.toNat) n], .ok ⟨6, 6⟩⟩ := rfl
  rwa [UInt8.ofNat_toNat] at hstep

/-- The bytes of a quantum. -/
lemma containerStep_stored (hpos : 0 < src.length) (hlen : src.length ≤ 0x40000)
    (hstream : stream = [0x0C, 10] ++
      ((if src.length = 0x40000 then [0x0F, 0xFF, 0xFF] else be24 (src.length - 1)) ++ src)) :
    containerStep stream plainHeader ⟨2, stream.length⟩ 0 src.length size =
      ⟨[.copyIn 0 src], .ok ⟨stream.length, stream.length⟩⟩ := by
  obtain ⟨b₀, b₁, b₂, hhead⟩ : ∃ b₀ b₁ b₂, (if src.length = 0x40000 then [0x0F, 0xFF, 0xFF]
      else be24 (src.length - 1)) = [b₀, b₁, b₂] := by
    split <;> exact ⟨_, _, _, rfl⟩
  rw [hhead] at hstream
  have hn : stream.length = 5 + src.length := by
    rw [hstream]
    simp only [List.length_append, List.length_cons, List.length_nil]
    omega
  have hbytes : (stream.drop 5).take src.length = src := by
    rw [hstream]
    exact List.take_length
  have hread : kkInU24Be stream ⟨2, stream.length⟩ =
      pure (b₀.toNat <<< 16 ||| b₁.toNat <<< 8 ||| b₂.toNat, ⟨5, stream.length⟩) := by
    refine kkInU24Be_eq ?_ ?_ ?_ (by omega) <;> rw [hstream] <;> rfl
  have hpayload : kkPayload stream plainHeader ⟨5, stream.length⟩ 0 src.length src.length size =
      ⟨[.copyIn 0 src], .ok ⟨stream.length, stream.length⟩⟩ := by
    rw [kkPayload_stored rfl hbytes hn.ge hn.ge (by change stream.length < _; omega), hn]
  rw [containerStep, if_neg (by decide), hread]
  by_cases hfull : src.length = 0x40000
  · rw [if_pos hfull] at hhead
    obtain ⟨rfl, rfl, rfl⟩ : 0x0F = b₀ ∧ 0xFF = b₁ ∧ 0xFF = b₂ := by
      simpa only [List.cons.injEq, and_true] using hhead
    rw [hfull] at hpayload ⊢
    exact hpayload
  · rw [if_neg hfull] at hhead
    have hvalue : b₀.toNat <<< 16 ||| b₁.toNat <<< 8 ||| b₂.toNat = src.length - 1 := by
      unfold be24 at hhead
      obtain ⟨rfl, rfl, rfl⟩ : UInt8.ofNat ((src.length - 1) >>> 16) = b₀ ∧
          UInt8.ofNat ((src.length - 1) >>> 8) = b₁ ∧ UInt8.ofNat (src.length - 1) = b₂ := by
        simpa only [List.cons.injEq, and_true] using hhead
      exact be24_eq (by omega)
    have hlow : src.length - 1 &&& 0x3FFFF = src.length - 1 :=
      (Nat.and_two_pow_sub_one_eq_mod _ 18).trans (Nat.mod_eq_of_lt (by omega))
    have hhigh : (src.length - 1) >>> 18 = 0 := by
      rw [Nat.shiftRight_eq_div_pow]
      omega
    have hhigh' : (src.length - 1) >>> 19 = 0 := by
      rw [Nat.shiftRight_eq_div_pow]
      omega
    rw [hvalue]
    change (if src.length - 1 &&& 0x3FFFF = 0x3FFFF then _ else _) = _
    rw [hlow, if_neg (by omega), hhigh, hhigh', if_neg (by decide), Nat.sub_add_cancel hpos]
    exact hpayload

/-- A stream of a single quantum. -/
lemma kkDecodeStream_single {malloc : ℕ → Bool} {rest : List UInt8} (hstream : stream = [0x0C, 10] ++ rest)
    (hpos : 0 < n) (hn : n ≤ 0x40000) (hmalloc : malloc 0x140000 = true)
    (hstep : containerStep stream plainHeader ⟨2, stream.length⟩ 0 n 0x140000 =
      ⟨[op], .ok ⟨stream.length, stream.length⟩⟩) :
    kkDecodeStream stream malloc n = ⟨[op], .ok ()⟩ := by
  have hhead : kkHeader stream ⟨0, stream.length⟩ = pure (plainHeader, ⟨2, stream.length⟩) := by
    have hlen : 2 ≤ stream.length := by
      rw [hstream, List.length_append]
      exact Nat.le_add_right _ _
    have h₀ : stream[0]? = some 0x0C := by rw [hstream]; rfl
    have h₁ : stream[1]? = some 10 := by rw [hstream]; rfl
    rw [kkHeader, kkInU8_eq h₀ (by omega)]
    change (kkInU8 stream ⟨1, stream.length⟩ >>= _) = _
    rw [kkInU8_eq h₁ (by omega)]
    rfl
  have hloop : kkContainerDecode stream n 0x140000 (n + 1) ⟨0, 0, 0⟩ 0 ⟨0, stream.length⟩ =
      ⟨[op], .ok ⟨stream.length, stream.length⟩⟩ := by
    obtain ⟨rounds, rfl⟩ : ∃ rounds, n = rounds + 1 := ⟨n - 1, by omega⟩
    rw [kkContainerDecode, if_pos hpos, Nat.sub_zero, if_neg (Nat.not_lt.mpr hn), if_pos (Nat.zero_and _), hhead]
    change (containerStep stream plainHeader ⟨2, stream.length⟩ 0 (rounds + 1) 0x140000 >>= fun i =>
      kkContainerDecode stream (rounds + 1) 0x140000 (rounds + 1) plainHeader (0 + (rounds + 1)) i) = _
    rw [hstep]
    have hend : kkContainerDecode stream (rounds + 1) 0x140000 (rounds + 1) plainHeader (0 + (rounds + 1))
        ⟨stream.length, stream.length⟩ = ⟨[], .ok ⟨stream.length, stream.length⟩⟩ := by
      rw [kkContainerDecode, if_neg (by omega)]
      rfl
    change (⟨[op] ++ (kkContainerDecode stream (rounds + 1) 0x140000 (rounds + 1) plainHeader
      (0 + (rounds + 1)) ⟨stream.length, stream.length⟩).ops, _⟩ : Dec KkIn) = _
    dsimp only
    rw [hend]
    rfl
  rw [kkDecodeStream, if_neg (by rw [hmalloc]; decide), hloop]
  change (⟨[op] ++ (if stream.length ≠ stream.length then halt Halt.reject else pure ()).ops,
    (if stream.length ≠ stream.length then halt Halt.reject else pure ()).result⟩ : Dec Unit) = _
  rw [if_neg (not_not_intro rfl)]
  rfl

/-- What the decoder does with the stream of a single quantum. -/
lemma kkDecodeStream_plain {malloc : ℕ → Bool} (hpos : 0 < src.length) (hlen : src.length ≤ 0x40000)
    (hmalloc : malloc 0x140000 = true) : ∃ op : DstOp,
      kkDecodeStream (plainStream src) malloc src.length = ⟨[op], .ok ()⟩ ∧
      op.Clean ∧ op.meaning [] = src ∧ ∀ size, src.length ≤ size → op.Extends size 0 src.length := by
  cases hfill : keQuantumFill src with
  | some fill =>
    have hsrc : List.replicate src.length fill = src := by
      cases src with
      | nil => exact absurd hpos (Nat.lt_irrefl 0)
      | cons b bs =>
        rw [keQuantumFill] at hfill
        split at hfill
        · next hall =>
          obtain rfl := Option.some.inj hfill
          refine (List.eq_replicate_of_mem fun x hx => ?_).symm
          rcases List.mem_cons.mp hx with rfl | hx
          · rfl
          · exact of_decide_eq_true (List.all_eq_true.mp hall x hx)
        · cases hfill
    have hplain : plainStream src = [0x0C, 10, 0x07, 0xFF, 0xFF, fill] := by
      rw [plainStream, hfill]
      rfl
    refine ⟨.fill 0 fill src.length, ?_, ⟨id, id, fun _ _ _ h => by cases h⟩, hsrc,
      fun size hsize => ⟨rfl, (Nat.zero_add _).symm, hsize, trivial⟩⟩
    rw [hplain]
    exact kkDecodeStream_single rfl hpos hlen hmalloc containerStep_fill
  | none =>
    have hplain : plainStream src = [0x0C, 10] ++
        ((if src.length = 0x40000 then [0x0F, 0xFF, 0xFF] else be24 (src.length - 1)) ++ src) := by
      rw [plainStream, hfill]
    refine ⟨.copyIn 0 src, ?_, ⟨id, id, fun _ _ _ h => by cases h⟩, List.nil_append src,
      fun size hsize => ⟨rfl, (Nat.zero_add _).symm, hsize, trivial⟩⟩
    exact kkDecodeStream_single hplain hpos hlen hmalloc (containerStep_stored hpos hlen hplain)

end Single

/-! ## Round trip -/

lemma keInit_blank : keInit.Blank := fun _ => rfl

/-- The length of the stream of a single quantum. -/
lemma length_plainStream {src : List UInt8} (hpos : 0 < src.length) :
    (∀ b, src = List.replicate src.length b → (plainStream src).length = 6) ∧
      ((∀ b, src ≠ List.replicate src.length b) → (plainStream src).length = src.length + 5) := by
  obtain ⟨b, bs, rfl⟩ := List.exists_cons_of_length_pos hpos
  have hhead : (if (b :: bs).length = 0x40000 then [0x0F, 0xFF, 0xFF]
      else be24 ((b :: bs).length - 1)).length = 3 := by
    split <;> rfl
  by_cases hall : bs.all (· = b) = true
  · have hsrc : b :: bs = List.replicate (b :: bs).length b := List.eq_replicate_of_mem fun x hx => by
      rcases List.mem_cons.mp hx with rfl | hx
      · rfl
      · exact of_decide_eq_true (List.all_eq_true.mp hall x hx)
    refine ⟨fun _ _ => ?_, fun hne => absurd hsrc (hne b)⟩
    rw [plainStream, keQuantumFill, if_pos hall]
    rfl
  · refine ⟨fun c hc => absurd ?_ hall, fun _ => ?_⟩
    · rw [List.all_eq_true]
      have hmem (x : UInt8) (hx : x ∈ b :: bs) : x = c := List.eq_of_mem_replicate (hc ▸ hx)
      intro x hx
      rw [hmem x (List.mem_cons_of_mem _ hx), hmem b List.mem_cons_self]
      exact decide_eq_true rfl
    · rw [plainStream, keQuantumFill, if_neg hall]
      dsimp only
      rw [List.length_append, List.length_append, hhead, Nat.add_comm 3, ← Nat.add_assoc,
        Nat.add_comm _ 3, ← Nat.add_assoc, Nat.add_comm _ (b :: bs).length]
      rfl

/-- The decoder behind the header of the encoder. -/
lemma paiCompressDecode_header {stream : List UInt8} {malloc : ℕ → Bool} {size n : ℕ} (hpos : 0 < n)
    (hn : n < 18446744073709551616) (hsize : n ≤ size) :
    paiCompressDecode ([0x50, 0x41, 0x4B, 0x43] ++ leBytes 4 1 ++ leBytes 8 n ++ stream) malloc size =
      decodeStatus n (kkDecodeStream stream malloc n) := by
  have hnat : leNat (leBytes 8 n) = n := leNat_leBytes_of_lt hn
  have hmethod : leNat (leBytes 4 1) = 1 := leNat_leBytes_of_lt (by decide)
  have hlen : 16 ≤ ([0x50, 0x41, 0x4B, 0x43] ++ leBytes 4 1 ++ leBytes 8 n ++ stream).length := by
    rw [List.length_append]
    exact Nat.le_add_right 16 _
  rw [paiCompressDecode, if_pos ⟨hlen, rfl⟩]
  change (if leNat (leBytes 4 1) ≠ 1 then _ else if size < leNat (leBytes 8 n) ∨ leNat (leBytes 8 n) = 0 then _
    else decodeStatus (leNat (leBytes 8 n)) (kkDecodeStream stream malloc (leNat (leBytes 8 n)))) = _
  rw [hmethod, hnat, if_neg (not_not_intro rfl), if_neg (by omega)]

/-- An input of a single quantum is stored as it is, or in 22 bytes if it is of one value, and the decoder
gives it back. -/
theorem paiCompress_roundTrip {src : List UInt8} {alloc malloc : ℕ → Bool} {cap size : ℕ}
    (hpos : 0 < src.length) (hlen : src.length ≤ 0x40000) (halloc : ∀ n < 7, alloc n = true)
    (hcap : paiCompressBound src.length + 16 ≤ cap) (hcap' : cap < 4294967296)
    (hmalloc : malloc 0x140000 = true) (hsize : src.length ≤ size) (mem : ℕ → UInt8) :
    ∃ out, paiCompressEncode src alloc cap = .ok (.ok out) ∧
      (∀ b, src = List.replicate src.length b → out.length = 22) ∧
      ((∀ b, src ≠ List.replicate src.length b) → out.length = src.length + 21) ∧
      ∃ mem', decodeInto out malloc size mem = .ok (.ok src.length, mem') ∧
        Lz.front mem' src.length = src ∧ ∀ a, src.length ≤ a → mem' a = mem a := by
  obtain ⟨buf, bytes, hloop, henc, -⟩ := paiCompressEncode_eq hpos (by omega) halloc hcap hcap'
  obtain ⟨rounds, hrounds⟩ : ∃ rounds, src.length = rounds + 1 := ⟨src.length - 1, by omega⟩
  have hplain : bytes = plainStream src := by
    rw [show src.length + 1 = rounds + 2 by omega] at hloop
    have hpush := streamLoop_single keInit_blank hpos hlen _ hloop
    unfold KeBuf.push at hpush
    exact List.append_cancel_left (congrArg KeBuf.bytes hpush)
  subst hplain
  obtain ⟨op, hdec, hclean, hmeaning, hextends⟩ := @kkDecodeStream_plain src malloc hpos hlen hmalloc
  have hop := hextends size hsize
  obtain ⟨write, hwrite, hframe, -⟩ := DstOp.run_of_extends hop hclean.ends
  have hdecode : paiCompressDecode ([0x50, 0x41, 0x4B, 0x43] ++ leBytes 4 1 ++ leBytes 8 src.length ++
      plainStream src) malloc size = ⟨[op], .ok (.ok src.length)⟩ := by
    rw [paiCompressDecode_header hpos (hlen.trans_lt (by decide)) hsize, hdec]
    rfl
  obtain ⟨hconst, hother⟩ := length_plainStream hpos
  refine ⟨_, henc, fun b hb => ?_, fun hb => ?_, write mem, ?_, ?_, fun a ha => hframe mem a (Or.inr ha)⟩
  · rw [List.length_append, hconst b hb]
    rfl
  · rw [List.length_append, hother hb, Nat.add_comm, Nat.add_assoc]
    rfl
  · rw [decodeInto, hdecode, Emit.run, replay, hwrite]
    rfl
  · exact (DstOp.front_run hop hclean (hwrite mem)).trans hmeaning

/-- Sixteen different bytes. -/
theorem paiCompress_roundTrip_sixteen :
    ∃ out, paiCompressEncode ((List.range 16).map UInt8.ofNat) (fun _ => true) 0x20000 = .ok (.ok out) ∧
      (∀ b, (List.range 16).map UInt8.ofNat = List.replicate 16 b → out.length = 22) ∧
      ((∀ b, (List.range 16).map UInt8.ofNat ≠ List.replicate 16 b) → out.length = 16 + 21) ∧
      ∃ mem', decodeInto out (fun _ => true) 16 (fun _ => 0) = .ok (.ok 16, mem') ∧
        Lz.front mem' 16 = (List.range 16).map UInt8.ofNat ∧ ∀ a, 16 ≤ a → mem' a = 0 :=
  paiCompress_roundTrip (by decide) (by decide) (fun _ _ => rfl) (by decide) (by decide) rfl le_rfl
    fun _ => 0

end Prospero
