import Prospero.Compression.DecoderBounds
import Prospero.Compression.Encoder

/-!
# The size of the encoder's output

The encoder succeeds on every input, within the bound that `pai_compress_bound` gives.  A chunk pays for its
commands, offsets and lengths with the bytes that its matches cover, and for the runs of literals, each of
sixty-four at least, with two bytes a run (`KeEnc.Paid`); so no stream of a quantum outgrows the quantum, and
the payload of a chunk is longer than the chunk by little, however long it gets before it is thrown away.

### Outline

* `kePut_of_fits` and its like: what a call appends when there is room (`KeBuf.Fits`).
* `chunkLoop_paid`: the loop of a chunk keeps the account.
* `keEncodeChunk_fits`, `encodeQuantum_fits`, `streamLoop_fits`: what a chunk, a quantum and the stream add.
-/

namespace Prospero

open ByteString

/-! ## Results -/

/-- The computation gives a result, and one that satisfies `P`. -/
def Gives {ε α : Type} (m : Except ε α) (P : α → Prop) : Prop := ∃ a, m = .ok a ∧ P a

section Results

variable {ε α β : Type} {P : α → Prop} {Q : β → Prop}

lemma gives_ok {a : α} (h : P a) : Gives (.ok a : Except ε α) P := ⟨a, rfl, h⟩

lemma Gives.bind {m : Except ε α} {f : α → Except ε β} (hm : Gives m P) (hf : ∀ a, P a → Gives (f a) Q) :
    Gives (m >>= f) Q := by
  obtain ⟨a, rfl, ha⟩ := hm
  exact hf a ha

lemma Gives.mono {m : Except ε α} {P' : α → Prop} (hm : Gives m P) (h : ∀ a, P a → P' a) : Gives m P' := by
  obtain ⟨a, rfl, ha⟩ := hm
  exact ⟨a, rfl, h a ha⟩

lemma gives_ite {p : Prop} [Decidable p] {m m' : Except ε α} (hpos : p → Gives m P)
    (hneg : ¬ p → Gives m' P) : Gives (if p then m else m') P := by
  by_cases h : p
  · rw [if_pos h]
    exact hpos h
  · rw [if_neg h]
    exact hneg h

/-- A first step that is known. -/
lemma gives_bind_of_eq {m : Except ε α} {f : α → Except ε β} {a : α} (hm : m = .ok a) (hf : Gives (f a) Q) :
    Gives (m >>= f) Q := by
  rw [hm]
  exact hf

end Results

/-! ## Buffers -/

/-- The buffer with more bytes. -/
def KeBuf.push (b : KeBuf) (bytes : List UInt8) : KeBuf := { b with bytes := b.bytes ++ bytes }

@[simp] lemma KeBuf.push_n (b : KeBuf) (bytes : List UInt8) : (b.push bytes).n = b.n + bytes.length :=
  List.length_append

@[simp] lemma KeBuf.push_cap (b : KeBuf) (bytes : List UInt8) : (b.push bytes).cap = b.cap := rfl

@[simp] lemma KeBuf.push_room (b : KeBuf) (bytes : List UInt8) : (b.push bytes).room = b.room := rfl

lemma KeBuf.push_push (b : KeBuf) (bytes bytes' : List UInt8) :
    (b.push bytes).push bytes' = b.push (bytes ++ bytes') := by
  unfold KeBuf.push
  rw [List.append_assoc]

/-- There is room for `k` more bytes. -/
structure KeBuf.Fits (b : KeBuf) (k : ℕ) : Prop where
  /-- Up to the capacity. -/
  le_cap : b.n + k ≤ b.cap
  /-- The memory is there. -/
  cap_le : b.cap ≤ b.room
  /-- The capacity is a 32-bit number. -/
  cap_lt : b.cap < 4294967296

lemma KeBuf.Fits.mono {b : KeBuf} {k k' : ℕ} (h : b.Fits k) (hk : k' ≤ k) : b.Fits k' :=
  ⟨(Nat.add_le_add_left hk _).trans h.le_cap, h.cap_le, h.cap_lt⟩

lemma KeBuf.Fits.push {b : KeBuf} {k : ℕ} {bytes : List UInt8} (h : b.Fits (bytes.length + k)) :
    (b.push bytes).Fits k :=
  ⟨by rw [KeBuf.push_n, Nat.add_assoc]; exact h.le_cap, h.cap_le, h.cap_lt⟩

lemma KeBuf.Fits.push_one {b : KeBuf} {k : ℕ} {byte : UInt8} (h : b.Fits (k + 1)) :
    (b.push [byte]).Fits k :=
  KeBuf.Fits.push (by rwa [Nat.add_comm] at h)

lemma KeBuf.Fits.window {b : KeBuf} {k skip : ℕ} (h : b.Fits (k + skip)) : (b.window skip).Fits k := by
  obtain ⟨hcap, hroom, hlt⟩ := h
  have hn : u32Sub b.cap b.n = b.cap - b.n := u32Sub_eq (by omega) (by omega)
  have hskip : u32Sub (b.cap - b.n) skip = b.cap - b.n - skip := u32Sub_eq (by omega) (by omega)
  refine ⟨?_, ?_, ?_⟩
  · change 0 + k ≤ u32Sub (u32Sub b.cap b.n) skip
    rw [hn, hskip]
    omega
  · change u32Sub (u32Sub b.cap b.n) skip ≤ b.room - (b.n + skip)
    rw [hn, hskip]
    omega
  · change u32Sub (u32Sub b.cap b.n) skip < 4294967296
    rw [hn, hskip]
    omega

lemma keStore_of_fits {b : KeBuf} {bytes : List UInt8} (h : b.Fits bytes.length) :
    keStore b bytes = .ok (b.push bytes) :=
  if_neg fun hbad => absurd hbad.2 (Nat.not_lt.mpr (h.le_cap.trans h.cap_le))

lemma kePut_of_fits {b : KeBuf} {v : ℕ} (h : b.Fits 1) : kePut b v = .ok (b.push [UInt8.ofNat v]) := by
  have hcap := h.le_cap
  rw [kePut, if_neg (by omega), keStore_of_fits h]

lemma kePut16_of_fits {b : KeBuf} {v : ℕ} (h : b.Fits 2) :
    kePut16 b v = .ok (b.push [UInt8.ofNat (v &&& 0xFF), UInt8.ofNat (v >>> 8)]) := by
  rw [kePut16, kePut_of_fits (h.mono (by decide))]
  change kePut (b.push _) _ = _
  rw [kePut_of_fits h.push, KeBuf.push_push]
  rfl

lemma kePut24_of_fits {b : KeBuf} {v : ℕ} (h : b.Fits 3) : kePut24 b v =
    .ok (b.push [UInt8.ofNat (v &&& 0xFF), UInt8.ofNat (v >>> 8 &&& 0xFF), UInt8.ofNat (v >>> 16)]) := by
  rw [kePut24, kePut_of_fits (h.mono (by decide))]
  change (kePut (b.push _) _ >>= _) = _
  rw [kePut_of_fits (h.mono (show 2 ≤ 3 by decide)).push_one]
  change kePut ((b.push _).push _) _ = _
  rw [KeBuf.push_push, kePut_of_fits h.push, KeBuf.push_push]
  rfl

lemma keAppend_of_fits {b : KeBuf} {bytes : List UInt8} (h : b.Fits bytes.length) :
    keAppend b bytes = .ok (b.push bytes) := by
  have hcap := h.le_cap
  have hlt := h.cap_lt
  rw [keAppend, u32Sub_eq (by omega) (by omega), if_neg (by omega), keStore_of_fits h]

/-- The header of a raw nested chunk. -/
def rawHeader (n : ℕ) : List UInt8 :=
  if n ≤ 0xFFF then [UInt8.ofNat (0x80 ||| n >>> 8), UInt8.ofNat (n &&& 0xFF)]
  else [UInt8.ofNat (n >>> 16), UInt8.ofNat (n >>> 8), UInt8.ofNat n]

lemma length_rawHeader_le (n : ℕ) : (rawHeader n).length ≤ 3 := by
  unfold rawHeader
  split
  · exact (show 2 ≤ 3 by decide)
  · exact le_rfl

lemma keRawChunk_of_fits {b : KeBuf} {data : List UInt8} (h : b.Fits (data.length + 3))
    (hlen : data.length ≤ 0x3FFFF) :
    keRawChunk b data = .ok (b.push (rawHeader data.length ++ data)) := by
  unfold keRawChunk rawHeader
  by_cases hsmall : data.length ≤ 0xFFF
  · simp only [if_pos hsmall]
    rw [kePut_of_fits (h.mono (by omega))]
    change (kePut (b.push _) _ >>= _) = _
    rw [kePut_of_fits (KeBuf.Fits.push_one (h.mono (by omega)))]
    change keAppend ((b.push _).push _) _ = _
    rw [KeBuf.push_push, keAppend_of_fits (KeBuf.Fits.push (h.mono ?_)), KeBuf.push_push]
    · rfl
    · rw [List.length_append, List.length_singleton, List.length_singleton]
      omega
  · simp only [if_neg hsmall, if_neg (Nat.not_lt.mpr hlen)]
    rw [kePut_of_fits (h.mono (by omega))]
    change (kePut (b.push _) _ >>= _) = _
    rw [kePut_of_fits (KeBuf.Fits.push_one (h.mono (by omega)))]
    change (kePut ((b.push _).push _) _ >>= _) = _
    rw [KeBuf.push_push, kePut_of_fits (KeBuf.Fits.push (h.mono (by
      rw [List.length_append, List.length_singleton, List.length_singleton]
      omega)))]
    change keAppend ((b.push _).push _) _ = _
    rw [KeBuf.push_push, keAppend_of_fits (KeBuf.Fits.push (h.mono ?_)), KeBuf.push_push]
    · rfl
    · simp only [List.length_append, List.length_singleton]
      omega

/-- A length less its base in the length stream. -/
def lengthBytes (l : ℕ) : List UInt8 :=
  if 251 < l then
    [UInt8.ofNat (252 + (l - 252) % 4), UInt8.ofNat ((l - (252 + (l - 252) % 4)) / 4 &&& 0xFF),
      UInt8.ofNat (((l - (252 + (l - 252) % 4)) / 4) >>> 8)]
  else [UInt8.ofNat l]

lemma length_lengthBytes_le (l : ℕ) : (lengthBytes l).length ≤ 3 := by
  unfold lengthBytes
  split
  · exact le_rfl
  · exact (show 1 ≤ 3 by decide)

lemma length_lengthBytes_of_le {l : ℕ} (h : l ≤ 251) : (lengthBytes l).length = 1 := by
  rw [lengthBytes, if_neg (by omega)]
  rfl

/-- A length is put down in full. -/
lemma keLenEmit_of_fits {lb : KeBuf} {len base : ℕ} (h : lb.Fits (lengthBytes (len - base)).length)
    (hbase : base ≤ len) (hlen : len < 4294967296) :
    keLenEmit lb len base = .ok (len, lb.push (lengthBytes (len - base))) := by
  unfold keLenEmit
  unfold lengthBytes at h ⊢
  rw [u32Sub_eq hbase (by omega)]
  by_cases hlong : 251 < len - base
  · rw [if_pos hlong] at h
    have hmod : len - base - 252 &&& 3 = (len - base - 252) % 4 :=
      Nat.and_two_pow_sub_one_eq_mod (len - base - 252) 2
    simp only [if_pos hlong, hmod]
    have hfull : base + (252 + (len - base - 252) % 4 +
        4 * ((len - base - (252 + (len - base - 252) % 4)) / 4)) = len := by omega
    rw [hfull]
    replace h : lb.Fits 3 := h
    generalize (len - base - (252 + (len - base - 252) % 4)) / 4 = k
    generalize 252 + (len - base - 252) % 4 = b
    rw [kePut_of_fits (h.mono (show 1 ≤ 3 by decide))]
    change (ignored (kePut16 (lb.push _) _) >>= _) = _
    rw [kePut16_of_fits (KeBuf.Fits.push_one h)]
    exact congrArg (fun b => Except.ok (len, b)) (KeBuf.push_push lb _ _)
  · rw [if_neg hlong] at h
    simp only [if_neg hlong]
    rw [kePut_of_fits h]
    change Except.ok _ = _
    rw [show base + (len - base) = len by omega]

/-! ## The account of a chunk -/

/-- A buffer of its own with `size` bytes. -/
def KeBuf.Sized (b : KeBuf) (size : ℕ) : Prop := b.cap = size ∧ b.room = size

lemma KeBuf.Sized.fits {b : KeBuf} {size k : ℕ} (h : b.Sized size) (hk : b.n + k ≤ size)
    (hsize : size < 4294967296) : b.Fits k :=
  ⟨hk.trans_eq h.1.symm, (h.1.trans h.2.symm).le, h.1.trans_lt hsize⟩

/-- The buffers of the encoder. -/
structure KeEnc.Ready (e : KeEnc) : Prop where
  /-- Literals. -/
  lit : e.lit.Sized 0x40040
  /-- Commands. -/
  cmd : e.cmd.Sized 0x40040
  /-- Near offsets. -/
  off16 : e.off16.Sized 0x80040
  /-- Far offsets. -/
  off32 : e.off32.Sized 0x40040
  /-- Lengths. -/
  lenb : e.lenb.Sized 0x40040

/-- What has been written since the start of the chunk. -/
def KeEnc.written (e : KeEnc) : ℕ :=
  (e.lit.n - e.litChunk0) + (e.cmd.n - e.cmdChunk0) + (e.off16.n - e.off16Chunk0) +
    (e.off32.n - e.off32Chunk0) + (e.lenb.n - e.lenbChunk0)

/-- The account of a chunk that starts `base` bytes into its quantum, after `done` bytes. -/
structure KeEnc.Paid (base done : ℕ) (e : KeEnc) : Prop extends e.Ready where
  /-- The streams of the chunks before. -/
  before : e.litChunk0 ≤ base ∧ e.cmdChunk0 ≤ base ∧ e.off16Chunk0 ≤ base ∧ e.off32Chunk0 ≤ base ∧
    e.lenbChunk0 ≤ base
  /-- They are still there. -/
  since : e.cmdChunk0 ≤ e.cmd.n ∧ e.off16Chunk0 ≤ e.off16.n ∧ e.off32Chunk0 ≤ e.off32.n ∧
    e.lenbChunk0 ≤ e.lenb.n
  /-- The literals that commands have claimed. -/
  claimed : e.litChunk0 ≤ e.litClaimed ∧ e.litClaimed ≤ e.lit.n
  /-- Every literal is a byte of the source. -/
  lits : e.lit.n ≤ e.litChunk0 + done
  /-- The source pays for everything but two bytes for each run. -/
  account : ∃ runs, 64 * runs ≤ e.litClaimed - e.litChunk0 ∧ e.written ≤ done + 2 * runs

namespace KeEnc.Paid

variable {base done : ℕ} {e : KeEnc}

/-- No stream is longer than what is done of the quantum. -/
lemma n_le (h : e.Paid base done) : e.lit.n ≤ base + done ∧ e.cmd.n ≤ base + done ∧
    e.off16.n ≤ base + done ∧ e.off32.n ≤ base + done ∧ e.lenb.n ≤ base + done := by
  obtain ⟨runs, hruns, hwritten⟩ := h.account
  have hbefore := h.before
  have hclaimed := h.claimed
  have hlits := h.lits
  unfold KeEnc.written at hwritten
  omega

lemma pending_eq (h : e.Paid base done) (hdone : base + done ≤ 0x40000) :
    kePending e = e.lit.n - e.litClaimed :=
  u32Sub_eq h.claimed.2 (by have := h.n_le; omega)

/-- Something is written and paid for. -/
lemma spend {e' : KeEnc} (h : e.Paid base done) (cost runs taken : ℕ) (hready : e'.Ready)
    (hmarks : e'.litChunk0 = e.litChunk0 ∧ e'.cmdChunk0 = e.cmdChunk0 ∧ e'.off16Chunk0 = e.off16Chunk0 ∧
      e'.off32Chunk0 = e.off32Chunk0 ∧ e'.lenbChunk0 = e.lenbChunk0)
    (hclaimed : e.litClaimed ≤ e'.litClaimed ∧ e'.litClaimed ≤ e'.lit.n)
    (hlit : e'.lit.n = e.lit.n)
    (hmore : e.cmd.n ≤ e'.cmd.n ∧ e.off16.n ≤ e'.off16.n ∧ e.off32.n ≤ e'.off32.n ∧ e.lenb.n ≤ e'.lenb.n)
    (hcost : e'.cmd.n + e'.off16.n + e'.off32.n + e'.lenb.n ≤
      e.cmd.n + e.off16.n + e.off32.n + e.lenb.n + cost)
    (hpaid : cost ≤ taken + 2 * runs) (hruns : e.litClaimed + 64 * runs ≤ e'.litClaimed) : e'.Paid base (done + taken) := by
  obtain ⟨hm1, hm2, hm3, hm4, hm5⟩ := hmarks
  have hbefore := h.before
  have hsince := h.since
  have hcl := h.claimed
  have hlits := h.lits
  refine ⟨hready, ?_, ?_, ?_, ?_, ?_⟩
  · omega
  · omega
  · omega
  · omega
  · obtain ⟨runs', hruns', hwritten⟩ := h.account
    refine ⟨runs' + runs, by omega, ?_⟩
    unfold KeEnc.written at hwritten ⊢
    omega

end KeEnc.Paid

/-! ## Matches -/

section Matches

variable {base done : ℕ} {e : KeEnc}

/-- What a match does: nothing, or it takes at least five bytes, which pay for it. -/
def MatchPaid (base done : ℕ) (e : KeEnc) (mlen : ℕ) (r : Option ℕ × KeEnc) : Prop :=
  match r.1 with
  | none => r.2 = e
  | some taken => 5 ≤ taken ∧ taken ≤ mlen ∧ r.2.Paid base (done + taken)

lemma sized_push {b : KeBuf} {size : ℕ} {bytes : List UInt8} (h : b.Sized size) : (b.push bytes).Sized size := h

lemma emitNear_paid (h : e.Paid base done) (hdone : base + done ≤ 0x40000) {dist taken mlen : ℕ}
    (htaken : 5 ≤ taken) (hmlen : taken ≤ mlen) :
    Gives (emitNear e dist taken) (MatchPaid base done e mlen) := by
  obtain ⟨-, hcmd, h16, -, -⟩ := h.n_le
  refine gives_bind_of_eq (kePut_of_fits (h.cmd.fits (by omega) (by decide))) ?_
  refine gives_bind_of_eq (congrArg ignored (kePut16_of_fits (h.off16.fits (by omega) (by decide)))) ?_
  have hpending := h.pending_eq hdone
  have hclaimed := h.claimed
  refine gives_ok ⟨htaken, hmlen, h.spend 3 0 taken
    ⟨h.lit, sized_push h.cmd, sized_push h.off16, h.off32, h.lenb⟩ ⟨rfl, rfl, rfl, rfl, rfl⟩ ?_ rfl ?_ ?_
    (by omega) ?_⟩ <;> simp only [KeBuf.push_n, List.length_cons, List.length_nil] <;> omega

lemma farCommand_fits (h : e.Paid base done) (hdone : base + done ≤ 0x40000) {mlen : ℕ} (hmlen : 5 ≤ mlen)
    (hmax : mlen < 4294967296) :
    Gives (farCommand e mlen) fun r => 5 ≤ r.1 ∧ r.1 ≤ mlen ∧ ∃ cmd lens, r.2.1 = e.cmd.push cmd ∧
      r.2.2 = e.lenb.push lens ∧ cmd.length + lens.length + 4 ≤ r.1 := by
  obtain ⟨-, hcmd, -, -, hlen⟩ := h.n_le
  have hput (v : ℕ) : kePut e.cmd v = .ok (e.cmd.push [UInt8.ofNat v]) :=
    kePut_of_fits (h.cmd.fits (by omega) (by decide))
  have hnone : e.lenb = e.lenb.push [] := by
    unfold KeBuf.push
    rw [List.append_nil]
  refine gives_ite (fun hshort => gives_bind_of_eq (hput _) ?_) fun hshort =>
    gives_ite (fun hlong => gives_bind_of_eq (hput _) ?_) fun hlong => gives_bind_of_eq (hput _) ?_
  · exact gives_ok ⟨hshort.1, le_rfl, _, [], rfl, hnone, hshort.1⟩
  · have hbytes := length_lengthBytes_le (mlen - 29)
    refine gives_bind_of_eq (keLenEmit_of_fits (h.lenb.fits (by omega) (by decide)) hlong hmax) ?_
    refine gives_ok ⟨hmlen, le_rfl, _, _, rfl, rfl, ?_⟩
    rw [List.length_singleton]
    omega
  · exact gives_ok ⟨show 5 ≤ 20 by decide, by dsimp only; omega, _, [], rfl, hnone, show 5 ≤ 20 by decide⟩

lemma emitFar_paid (h : e.Paid base done) (hdone : base + done ≤ 0x40000) {q mlen chunkStart : ℕ}
    (hmlen : 5 ≤ mlen) (hmax : mlen < 4294967296) :
    Gives (emitFar e q mlen chunkStart) (MatchPaid base done e mlen) := by
  obtain ⟨-, -, -, h32, -⟩ := h.n_le
  have hpending := h.pending_eq hdone
  have hclaimed := h.claimed
  unfold emitFar
  generalize u32Sub chunkStart q = off
  refine (farCommand_fits h hdone hmlen hmax).bind ?_
  rintro ⟨taken, cmd', lenb'⟩ ⟨htaken, hle, cmd, lens, hcmd, hlens, hcost⟩
  dsimp only at htaken hle hcmd hlens hcost ⊢
  subst hcmd hlens
  refine gives_bind_of_eq (congrArg ignored (kePut24_of_fits (h.off32.fits (by omega) (by decide)))) ?_
  refine Gives.bind (P := fun off32' => ∃ offs, off32' = e.off32.push offs ∧ offs.length ≤ 4)
    (gives_ite (fun _ => ?_) fun _ => gives_ok ⟨_, rfl, show 3 ≤ 4 by decide⟩) ?_
  · have hsized : e.off32.Fits (3 + 1) := h.off32.fits (by omega) (by decide)
    have hput : kePut (e.off32.push [UInt8.ofNat (off &&& 0xFF), UInt8.ofNat (off >>> 8 &&& 0xFF),
        UInt8.ofNat (off >>> 16)]) (off >>> 22) = _ := kePut_of_fits (KeBuf.Fits.push hsized)
    rw [KeBuf.push_push] at hput
    exact ⟨_, congrArg ignored hput, _, rfl, le_rfl⟩
  · rintro _ ⟨offs, rfl, hoffs⟩
    refine gives_ok ⟨htaken, hle, h.spend (cmd.length + offs.length + lens.length) 0 taken
      ⟨h.lit, sized_push h.cmd, h.off16, sized_push h.off32, sized_push h.lenb⟩ ⟨rfl, rfl, rfl, rfl, rfl⟩
      ?_ rfl ?_ ?_ (by omega) ?_⟩ <;> simp only [KeBuf.push_n] <;> omega

/-- Every match that is encoded is paid for. -/
lemma keEmitMatch_paid (h : e.Paid base done) (hdone : base + done ≤ 0x40000) {pos q mlen chunkStart : ℕ}
    (hmlen : 5 ≤ mlen) (hmax : mlen < 4294967296) :
    Gives (keEmitMatch e pos q mlen chunkStart) (MatchPaid base done e mlen) := by
  refine gives_ite (fun _ => gives_ite (fun _ => gives_ok rfl) fun _ => emitFar_paid h hdone hmlen hmax)
    fun _ => gives_ite (fun _ => emitNear_paid h hdone hmlen le_rfl) fun hlong =>
      gives_ite (fun hlen => ?_) fun _ => gives_ite
        (fun _ => emitNear_paid h hdone (by decide) (by omega)) fun _ => emitFar_paid h hdone hmlen hmax
  obtain ⟨-, hcmd, h16, -, hlenb⟩ := h.n_le
  have hpending := h.pending_eq hdone
  have hclaimed := h.claimed
  have hbytes := length_lengthBytes_le (mlen - 91)
  refine gives_bind_of_eq (kePut_of_fits (h.cmd.fits (by omega) (by decide))) ?_
  refine gives_bind_of_eq (keLenEmit_of_fits (h.lenb.fits (by omega) (by decide)) hlen hmax) ?_
  refine gives_bind_of_eq (congrArg ignored (kePut16_of_fits (h.off16.fits (by omega) (by decide)))) ?_
  refine gives_ok ⟨hmlen, le_rfl, h.spend 6 0 mlen
    ⟨h.lit, sized_push h.cmd, sized_push h.off16, h.off32, sized_push h.lenb⟩ ⟨rfl, rfl, rfl, rfl, rfl⟩
    ?_ rfl ?_ ?_ (by omega) ?_⟩ <;> simp only [KeBuf.push_n, List.length_cons, List.length_nil] <;> omega

end Matches

/-! ## The loop of a chunk -/

section Loop

variable {src : List UInt8} {base done : ℕ} {e : KeEnc}

lemma matchLength_le (q pos rest n : ℕ) : matchLength src q pos rest n ≤ n + rest := by
  induction rest generalizing n with
  | zero => exact le_rfl
  | succ rest ih =>
    rw [matchLength]
    split
    · exact (ih (n + 1)).trans (by omega)
    · omega

lemma findLoop_le {chain : ℕ → ℤ} {pos chunkStart maxLen left : ℕ} {cand : ℤ} {best : ℕ × ℕ}
    (h : best.1 ≤ maxLen) : (findLoop src chain pos chunkStart maxLen left cand best).1 ≤ maxLen := by
  induction left generalizing cand best with
  | zero => exact h
  | succ left ih =>
    have hlen := @matchLength_le src cand.toNat pos maxLen 0
    rw [Nat.zero_add] at hlen
    have hbest : (if best.1 < matchLength src cand.toNat pos maxLen 0 then
        (matchLength src cand.toNat pos maxLen 0, cand.toNat) else best).1 ≤ maxLen := by
      split
      · exact hlen
      · exact h
    unfold findLoop
    dsimp only
    generalize (if best.1 < matchLength src cand.toNat pos maxLen 0 then
      (matchLength src cand.toNat pos maxLen 0, cand.toNat) else best) = longer at hbest ⊢
    split
    · exact h
    split
    · exact h
    split
    · exact ih h
    split
    · exact ih h
    split
    · exact hlen
    split
    · exact hbest
    · exact ih hbest

/-- A match is no longer than allowed. -/
lemma keFind_le {pos chunkStart maxLen : ℕ} {r : ℕ × ℕ} (h : keFind src e pos chunkStart maxLen = some r) :
    r.1 ≤ maxLen := by
  unfold keFind at h
  split at h
  · cases h
  · dsimp only at h
    split at h
    · cases h
    · rw [← Option.some.inj h]
      exact findLoop_le (Nat.zero_le _)

lemma batchEnd_mem {pending p stop rest n : ℕ} (hn : n ≤ stop) :
    n ≤ batchEnd pending p stop rest n ∧ batchEnd pending p stop rest n ≤ stop := by
  induction rest generalizing n with
  | zero => exact ⟨le_rfl, hn⟩
  | succ rest ih =>
    rw [batchEnd]
    split
    · next hmore =>
      obtain ⟨hlo, hhi⟩ := @ih (n + 1) hmore.1
      exact ⟨(Nat.le_succ n).trans hlo, hhi⟩
    · exact ⟨le_rfl, hn⟩

/-- Runs are paid for by their literals. -/
lemma keFlushLits_paid {pos halfEnd rounds : ℕ} (h : e.Paid base done) (hdone : base + done ≤ 0x40000)
    (hrounds : kePending e < rounds) :
    Gives (keFlushLits pos halfEnd rounds e) fun e' => e'.Paid base done := by
  induction rounds generalizing e with
  | zero => exact absurd hrounds (Nat.not_lt_zero _)
  | succ rounds ih =>
    refine gives_ite (fun hlong => ?_) fun _ => gives_ok h
    obtain ⟨-, hcmd, -, -, hlenb⟩ := h.n_le
    have hpending := h.pending_eq hdone
    have hclaimed := h.claimed
    obtain ⟨run, hrun⟩ : ∃ run, run =
      if 64 + 251 < (if u64Sub halfEnd pos < kePending e then u64Sub halfEnd pos else kePending e) then 64 + 251
        else if u64Sub halfEnd pos < kePending e then u64Sub halfEnd pos else kePending e := ⟨_, rfl⟩
    have hbounds : 64 ≤ run ∧ run ≤ 315 ∧ run ≤ kePending e := by
      split_ifs at hrun <;> omega
    obtain ⟨hmin, hmax, hle⟩ := hbounds
    have hone : (lengthBytes (run - 64)).length = 1 := length_lengthBytes_of_le (by omega)
    dsimp only
    rw [← hrun]
    refine gives_bind_of_eq (kePut_of_fits (h.cmd.fits (by omega) (by decide))) ?_
    refine gives_bind_of_eq (keLenEmit_of_fits (h.lenb.fits (by omega) (by decide)) hmin (by omega)) ?_
    obtain ⟨e', he'⟩ : ∃ e' : KeEnc, e' = { e with
      cmd := e.cmd.push [UInt8.ofNat 0]
      lenb := e.lenb.push (lengthBytes (run - 64))
      litClaimed := e.litClaimed + run } := ⟨_, rfl⟩
    have hnext : e'.Paid base (done + 0) := by
      rw [he']
      refine h.spend 2 1 0 ⟨h.lit, sized_push h.cmd, h.off16, h.off32, sized_push h.lenb⟩
        ⟨rfl, rfl, rfl, rfl, rfl⟩ ?_ rfl ?_ ?_ le_rfl ?_ <;>
          simp only [KeBuf.push_n, List.length_cons, List.length_nil] <;> omega
    have hless : kePending e' < rounds := by
      rw [hnext.pending_eq hdone, he']
      dsimp only
      omega
    rw [he'] at hnext hless
    exact ih hnext hless

/-- A batch of literals is part of the source. -/
lemma literalStep_paid {p stop halfEnd : ℕ} (h : e.Paid base done) (hp : p < stop)
    (hstop : base + done + (stop - p) ≤ 0x40000) (hsrc : stop ≤ src.length) :
    Gives (literalStep src e p stop halfEnd) fun r => p < r.1 ∧ r.1 ≤ stop ∧
      r.2.Paid base (done + (r.1 - p)) := by
  obtain ⟨hlo, hhi⟩ := @batchEnd_mem (kePending e) p stop (stop - p) (p + 1) hp
  unfold literalStep
  generalize batchEnd (kePending e) p stop (stop - p) (p + 1) = n at hlo hhi
  dsimp only
  have hlen : (srcBytes src p (n - p)).length = n - p := by
    rw [srcBytes, List.length_take, List.length_drop]
    omega
  have hlit := h.n_le.1
  refine gives_bind_of_eq (keAppend_of_fits (h.lit.fits (by omega) (by decide))) ?_
  have hbefore := h.before
  have hsince := h.since
  have hclaimed := h.claimed
  have hlits := h.lits
  have hnext : KeEnc.Paid base (done + (n - p)) { e with lit := e.lit.push (srcBytes src p (n - p)) } := by
    refine ⟨⟨sized_push h.lit, h.cmd, h.off16, h.off32, h.lenb⟩, hbefore, hsince,
      ⟨hclaimed.1, ?_⟩, ?_, ?_⟩
    · rw [KeBuf.push_n]
      exact hclaimed.2.trans (Nat.le_add_right _ _)
    · rw [KeBuf.push_n]
      dsimp only
      omega
    · obtain ⟨runs, hruns, hwritten⟩ := h.account
      refine ⟨runs, hruns, ?_⟩
      unfold KeEnc.written at hwritten ⊢
      simp only [KeBuf.push_n]
      omega
  refine (keFlushLits_paid hnext (by omega) (Nat.lt_succ_self _)).bind fun e' he' => ?_
  exact gives_ok ⟨hlo, hhi, he'⟩

lemma matchStep_paid {p chunkStart stop halfEnd : ℕ} (h : e.Paid base done)
    (hstop : base + done + (stop - p) ≤ 0x40000) :
    Gives (matchStep src e p chunkStart stop halfEnd) (MatchPaid base done e (stop - p)) := by
  unfold matchStep
  split
  · next mlen q hfind =>
    have hle : mlen ≤ stop - p := by
      split at hfind
      · exact keFind_le hfind
      · cases hfind
    dsimp only
    obtain ⟨mlen', hmlen'⟩ : ∃ mlen', mlen' = if halfEnd - p < mlen then halfEnd - p else mlen := ⟨_, rfl⟩
    rw [← hmlen']
    have hless : mlen' ≤ mlen := by
      split_ifs at hmlen' <;> omega
    refine gives_ite (fun hmin => ?_) fun _ => gives_ok rfl
    refine (keEmitMatch_paid h (by omega) hmin (by omega)).mono ?_
    rintro ⟨_ | taken, e'⟩ hr
    · exact hr
    · exact ⟨hr.1, hr.2.1.trans (hless.trans hle), hr.2.2⟩
  · exact gives_ok rfl

/-- The loop comes to the end of the chunk, and everything is paid for. -/
lemma chunkLoop_paid {chunkStart stop rounds p half : ℕ} (h : e.Paid base done)
    (hstop : base + done + (stop - p) ≤ 0x40000) (hp : p ≤ stop) (hsrc : stop ≤ src.length)
    (hrounds : stop - p < rounds) :
    Gives (chunkLoop src chunkStart stop rounds p half e) fun e' => e'.Paid base (done + (stop - p)) := by
  induction rounds generalizing e p half done with
  | zero => exact absurd hrounds (Nat.not_lt_zero _)
  | succ rounds ih =>
    refine gives_ite (fun hmore => ?_) fun hdone => ?_
    · dsimp only
      obtain ⟨e₁, he₁⟩ : ∃ e₁, e₁ = if half = 0 ∧ 0x10000 ≤ p - chunkStart then
        { e with cmdHalf1 := e.cmd.n, off32Half1 := e.off32.n } else e := ⟨_, rfl⟩
      have hpaid : e₁.Paid base done := by
        rw [he₁]
        split
        · exact ⟨⟨h.lit, h.cmd, h.off16, h.off32, h.lenb⟩, h.before, h.since, h.claimed, h.lits, h.account⟩
        · exact h
      rw [← he₁]
      refine (matchStep_paid hpaid hstop).bind ?_
      rintro ⟨_ | taken, e₂⟩ hr
      · obtain rfl : e₂ = e₁ := hr
        refine (literalStep_paid hpaid hmore hstop hsrc).bind ?_
        rintro ⟨n, e₃⟩ ⟨hlo, hhi, he₃⟩
        dsimp only at hlo hhi he₃ ⊢
        refine (ih he₃ (by omega) hhi (by omega)).mono fun e' he' => ?_
        rwa [show done + (n - p) + (stop - n) = done + (stop - p) by omega] at he'
      · obtain ⟨hmin, hle, he₂⟩ := hr
        dsimp only at hmin hle he₂ ⊢
        refine (ih he₂ (by omega) (by omega) (by omega)).mono fun e' he' => ?_
        rwa [show done + taken + (stop - (p + taken)) = done + (stop - p) by omega] at he'
    · rw [show stop - p = 0 by omega]
      exact gives_ok h

end Loop

/-! ## Chunks -/

section Chunks

variable {src : List UInt8} {base : ℕ} {e : KeEnc}

lemma length_drop_bytes (b : KeBuf) (k : ℕ) : (b.bytes.drop k).length = b.n - k := List.length_drop

lemma length_srcBytes {p n : ℕ} (h : p + n ≤ src.length) : (srcBytes src p n).length = n := by
  rw [srcBytes, List.length_take, List.length_drop]
  omega

/-- The tables of far offsets are their bytes behind a header. -/
lemma farTables_fits {w : KeBuf} (h : w.Fits (e.off32.n - e.off32Chunk0 + 3)) :
    Gives (farTables e w) fun w' => ∃ bytes, w' = w.push bytes ∧
      bytes.length = e.off32.n - e.off32Chunk0 + 3 := by
  have hhead := h.mono (Nat.le_add_left 3 _)
  refine gives_ite (fun _ => gives_bind_of_eq (congrArg ignored (kePut24_of_fits hhead)) ?_) fun hnone => ?_
  · have hlen := length_drop_bytes e.off32 e.off32Chunk0
    rw [keAppend_of_fits (KeBuf.Fits.push (h.mono (by
      rw [hlen]
      simp only [List.length_cons, List.length_nil]
      omega))), KeBuf.push_push]
    refine gives_ok ⟨_, rfl, ?_⟩
    rw [List.length_append, hlen, Nat.add_comm]
    rfl
  · rw [kePut24_of_fits hhead]
    refine gives_ok ⟨_, rfl, ?_⟩
    simp only [List.length_cons, List.length_nil]
    omega

/-- A step that appends to a window with room for `k` more bytes, and leaves room for the rest. -/
lemma gives_append {β : Type} {w : KeBuf} (k r : ℕ) {m : Except KeEnd KeBuf} {f : KeBuf → Except KeEnd β}
    {Q : β → Prop} (hfits : w.Fits (k + r))
    (hm : w.Fits k → Gives m fun w' => ∃ bytes, w' = w.push bytes ∧ bytes.length ≤ k)
    (hf : ∀ bytes, bytes.length ≤ k → (w.push bytes).Fits r → Gives (f (w.push bytes)) Q) :
    Gives (m >>= f) Q := by
  refine (hm (hfits.mono (Nat.le_add_right _ _))).bind ?_
  rintro _ ⟨bytes, rfl, hlen⟩
  exact hf bytes hlen (KeBuf.Fits.push (hfits.mono (Nat.add_le_add_right hlen r)))

lemma append_fits {w : KeBuf} {bytes : List UInt8} {k : ℕ} (hlen : bytes.length ≤ k) (h : w.Fits k) :
    Gives (keAppend w bytes) fun w' => ∃ more, w' = w.push more ∧ more.length ≤ k := by
  rw [keAppend_of_fits (h.mono hlen)]
  exact gives_ok ⟨bytes, rfl, hlen⟩

lemma rawChunk_data_fits {w : KeBuf} {data : List UInt8} {k : ℕ} (hlen : data.length + 3 ≤ k)
    (hdata : data.length ≤ 0x3FFFF) (h : w.Fits k) :
    Gives (keRawChunk w data) fun w' => ∃ more, w' = w.push more ∧ more.length ≤ k := by
  rw [keRawChunk_of_fits (h.mono hlen) hdata]
  refine gives_ok ⟨_, rfl, ?_⟩
  have := length_rawHeader_le data.length
  rw [List.length_append]
  omega

lemma put16_fits {w : KeBuf} {v : ℕ} (h : w.Fits 2) :
    Gives (ignored (kePut16 w v)) fun w' => ∃ more, w' = w.push more ∧ more.length ≤ 2 := by
  rw [kePut16_of_fits h]
  exact gives_ok ⟨_, rfl, le_rfl⟩

/-- A payload is longer than its chunk by little: by the headers and by two bytes for sixty-four. -/
lemma chunkPayload_fits {w : KeBuf} {chunkStart dstCount outOffs done : ℕ} (h : e.Paid base done)
    (hdone : done + (if outOffs = 0 then 8 else 0) = dstCount) (hcount : dstCount ≤ 0x20000)
    (hsrc : chunkStart + dstCount ≤ src.length) (hw : w.Fits (dstCount + dstCount / 32 + 13)) :
    Gives (chunkPayload src e w chunkStart dstCount outOffs) fun w' =>
      ∃ bytes, w' = w.push bytes ∧ bytes.length ≤ dstCount + dstCount / 32 + 13 := by
  obtain ⟨runs, hruns, hwritten⟩ := h.account
  have hclaimed := h.claimed
  have hlits := h.lits
  unfold KeEnc.written at hwritten
  have hlit := length_drop_bytes e.lit e.litChunk0
  have hcmd := length_drop_bytes e.cmd e.cmdChunk0
  have hoff := length_drop_bytes e.off16 e.off16Chunk0
  have hlen := length_drop_bytes e.lenb e.lenbChunk0
  have hfar := @farTables_fits e
  obtain ⟨first, hfirst⟩ : ∃ first, first = if outOffs = 0 then 8 else 0 := ⟨_, rfl⟩
  rw [← hfirst] at hdone
  generalize e.lit.n - e.litChunk0 = L at *
  generalize e.cmd.n - e.cmdChunk0 = C at *
  generalize e.off16.n - e.off16Chunk0 = O at *
  generalize e.off32.n - e.off32Chunk0 = F at *
  generalize e.lenb.n - e.lenbChunk0 = N at *
  have htotal : first + (L + 3) + (C + 3) + 2 + 2 + O + (F + 3) + N ≤ dstCount + dstCount / 32 + 13 := by
    omega
  refine gives_append first (L + 3 + (C + 3 + (2 + (2 + (O + (F + 3 + N))))))
    (hw.mono (by omega)) (fun hroom => ?_) fun b₁ hb₁ hw₁ => ?_
  · refine gives_ite (fun hzero => ?_) fun _ => gives_ok ⟨[], ?_, Nat.zero_le _⟩
    · rw [if_pos hzero] at hfirst
      exact append_fits (by rw [length_srcBytes (by omega)]; omega) hroom
    · unfold KeBuf.push
      rw [List.append_nil]
  refine gives_append _ _ hw₁ (rawChunk_data_fits (by omega) (by omega)) fun b₂ hb₂ hw₂ => ?_
  refine gives_append _ _ hw₂ (rawChunk_data_fits (by omega) (by omega)) fun b₃ hb₃ hw₃ => ?_
  refine gives_append _ _ hw₃ (fun hroom => gives_ite (fun _ => put16_fits hroom) fun _ =>
    gives_ok ⟨[], ?_, Nat.zero_le _⟩) fun b₄ hb₄ hw₄ => ?_
  · unfold KeBuf.push
    rw [List.append_nil]
  refine gives_append _ _ hw₄ put16_fits fun b₅ hb₅ hw₅ => ?_
  refine gives_append _ _ hw₅ (append_fits (by omega)) fun b₆ hb₆ hw₆ => ?_
  refine gives_append _ _ hw₆ (fun hroom => (hfar hroom).mono ?_) fun b₇ hb₇ hw₇ => ?_
  · rintro w' ⟨bytes, hw', hbytes⟩
    exact ⟨bytes, hw', hbytes.le⟩
  refine (append_fits (k := N) (by omega) hw₇).mono ?_
  rintro w' ⟨b₈, rfl, hb₈⟩
  simp only [KeBuf.push_push]
  refine ⟨_, rfl, ?_⟩
  simp only [List.length_append]
  omega

/-- No stream is longer than `n`. -/
def KeEnc.Short (e : KeEnc) (n : ℕ) : Prop :=
  e.lit.n ≤ n ∧ e.cmd.n ≤ n ∧ e.off16.n ≤ n ∧ e.off32.n ≤ n ∧ e.lenb.n ≤ n

lemma rawChunk_fits {q : KeBuf} {chunkStart dstCount : ℕ} (hcount : dstCount ≤ 0x20000)
    (hsrc : chunkStart + dstCount ≤ src.length) (hq : q.Fits (dstCount + 6)) :
    Gives (rawChunk src q chunkStart dstCount) fun q' =>
      ∃ bytes, q' = q.push bytes ∧ bytes.length ≤ dstCount + 6 := by
  have hlen := length_srcBytes hsrc
  have hw : (q.window 0).Fits (dstCount + 6) := KeBuf.Fits.window hq
  refine gives_bind_of_eq (kePut24_of_fits (hw.mono (Nat.le_add_left 3 _))) ?_
  refine (rawChunk_data_fits (k := dstCount + 3) (by omega) (by omega)
    (KeBuf.Fits.push (hw.mono (by simp only [List.length_cons, List.length_nil]; omega)))).bind ?_
  rintro _ ⟨bytes, rfl, hbytes⟩
  refine gives_ok ⟨_, rfl, ?_⟩
  change (((q.window 0).push _).push bytes).n ≤ _
  rw [KeBuf.push_push, KeBuf.push_n]
  change 0 + _ ≤ _
  simp only [List.length_append, List.length_cons, List.length_nil]
  omega

/-- A chunk adds at most six bytes to its length, whatever it takes to find that out. -/
lemma keEncodeChunk_fits {q : KeBuf} {chunkStart dstCount outOffs : ℕ} (hready : e.Ready)
    (hshort : e.Short base) (hbase : base + dstCount ≤ 0x40000) (hcount : dstCount ≤ 0x20000)
    (hsrc : chunkStart + dstCount ≤ src.length) (hq : q.Fits (dstCount + 0x1100)) :
    Gives (keEncodeChunk src e q chunkStart dstCount outOffs) fun r =>
      r.1.Ready ∧ r.1.Short (base + dstCount) ∧
        ∃ bytes, r.2 = q.push bytes ∧ bytes.length ≤ dstCount + 6 := by
  have hraw := rawChunk_fits hcount hsrc (hq.mono (by omega))
  obtain ⟨hlit, hcmd, h16, h32, hlenb⟩ := hshort
  refine gives_ite (fun _ => hraw.bind fun q' hq' => gives_ok ⟨hready, ?_, hq'⟩) fun hlong => ?_
  · exact ⟨hlit.trans (Nat.le_add_right _ _), hcmd.trans (Nat.le_add_right _ _),
      h16.trans (Nat.le_add_right _ _), h32.trans (Nat.le_add_right _ _), hlenb.trans (Nat.le_add_right _ _)⟩
  have hstart : KeEnc.Paid base 0 { e with
      litChunk0 := e.lit.n, cmdChunk0 := e.cmd.n, off16Chunk0 := e.off16.n, off32Chunk0 := e.off32.n
      lenbChunk0 := e.lenb.n, cmdHalf1 := e.cmd.n, off32Half1 := e.off32.n, litClaimed := e.lit.n } := by
    refine ⟨⟨hready.lit, hready.cmd, hready.off16, hready.off32, hready.lenb⟩,
      ⟨hlit, hcmd, h16, h32, hlenb⟩, ⟨le_rfl, le_rfl, le_rfl, le_rfl⟩, ⟨le_rfl, le_rfl⟩, le_rfl,
      0, Nat.zero_le _, ?_⟩
    unfold KeEnc.written
    dsimp only
    omega
  obtain ⟨first, hfirst⟩ : ∃ first, first = if outOffs = 0 then 8 else 0 := ⟨_, rfl⟩
  have hle : first ≤ dstCount := by
    split_ifs at hfirst <;> omega
  dsimp only
  rw [← hfirst]
  refine (chunkLoop_paid hstart (by omega) (by omega) hsrc (by omega)).bind fun e₁ he₁ => ?_
  rw [Nat.zero_add] at he₁
  obtain ⟨e₂, he₂⟩ : ∃ e₂, e₂ = if dstCount ≤ 0x10000 then
    { e₁ with cmdHalf1 := e₁.cmd.n, off32Half1 := e₁.off32.n } else e₁ := ⟨_, rfl⟩
  have hpaid : e₂.Paid base (chunkStart + dstCount - (chunkStart + first)) := by
    rw [he₂]
    split
    · exact ⟨⟨he₁.lit, he₁.cmd, he₁.off16, he₁.off32, he₁.lenb⟩, he₁.before, he₁.since, he₁.claimed,
        he₁.lits, he₁.account⟩
    · exact he₁
  rw [← he₂]
  have hend : e₂.Short (base + dstCount) := by
    obtain ⟨h1, h2, h3, h4, h5⟩ := hpaid.n_le
    exact ⟨by omega, by omega, by omega, by omega, by omega⟩
  refine (chunkPayload_fits hpaid (by rw [← hfirst]; omega) hcount hsrc
    (KeBuf.Fits.window (hq.mono (by omega)))).bind ?_
  rintro _ ⟨payload, rfl, -⟩
  have hn : ((q.window 3).push payload).n = payload.length := by
    rw [KeBuf.push_n]
    exact Nat.zero_add _
  rw [hn]
  refine gives_ite (fun _ => hraw.bind fun q' hq' => gives_ok ⟨hpaid.toReady, hend, hq'⟩) fun hless => ?_
  refine gives_bind_of_eq (kePut_of_fits (hq.mono (by omega))) ?_
  refine gives_bind_of_eq (kePut_of_fits (KeBuf.Fits.push_one (hq.mono (by omega)))) ?_
  refine gives_bind_of_eq (kePut_of_fits (KeBuf.Fits.push_one
    (KeBuf.Fits.push_one (hq.mono (show 1 + 1 + 1 ≤ dstCount + 0x1100 by omega))))) ?_
  simp only [KeBuf.push_push]
  refine gives_ok ⟨hpaid.toReady, hend, _, KeBuf.push_push q _ _, ?_⟩
  change (_ ++ ([] ++ payload)).length ≤ _
  simp only [List.length_append, List.length_cons, List.length_nil]
  omega

end Chunks

/-! ## Quanta -/

section Quanta

variable {src : List UInt8} {e : KeEnc}

/-- The chunks of a quantum. -/
lemma quantumChunks_fits {q : KeBuf} {pos qlen produced rounds : ℕ} (hready : e.Ready)
    (hshort : e.Short produced) (hproduced : produced ≤ qlen) (hqlen : qlen ≤ 0x40000)
    (hsrc : pos + qlen ≤ src.length) (hrounds : qlen - produced < rounds)
    (hq : q.Fits (qlen - produced + (qlen - produced + 0x1FFFF) / 0x20000 * 6 + 0x1100)) :
    Gives (quantumChunks src pos qlen rounds produced e q) fun r => r.1.Ready ∧
      ∃ bytes, r.2 = q.push bytes ∧
        bytes.length ≤ qlen - produced + (qlen - produced + 0x1FFFF) / 0x20000 * 6 := by
  induction rounds generalizing produced e q with
  | zero => exact absurd hrounds (Nat.not_lt_zero _)
  | succ rounds ih =>
    refine gives_ite (fun hmore => ?_) fun _ => ?_
    · dsimp only
      obtain ⟨chunk, hchunk⟩ : ∃ chunk, chunk =
        if 0x20000 < qlen - produced then 0x20000 else qlen - produced := ⟨_, rfl⟩
      have hbounds : 0 < chunk ∧ chunk ≤ qlen - produced ∧ chunk ≤ 0x20000 ∧
          (chunk = 0x20000 ∨ chunk = qlen - produced) := by
        split_ifs at hchunk <;> omega
      rw [← hchunk]
      obtain ⟨hpos, hle, hmax, hfull⟩ := hbounds
      refine (keEncodeChunk_fits hready hshort (by omega) hmax (by omega) (hq.mono (by omega))).bind ?_
      rintro ⟨e', q'⟩ ⟨hready', hshort', bytes, hq', hbytes⟩
      dsimp only at hready' hshort' hq'
      subst hq'
      refine (ih hready' hshort' (by omega) (by omega) (KeBuf.Fits.push (hq.mono ?_))).mono ?_
      · rcases hfull with hfull | hfull <;> omega
      · rintro r ⟨hr, more, hmore', hlen⟩
        refine ⟨hr, bytes ++ more, ?_, ?_⟩
        · rw [hmore', KeBuf.push_push]
        · rw [List.length_append]
          rcases hfull with hfull | hfull <;> omega
    · refine gives_ok ⟨hready, [], ?_, Nat.zero_le _⟩
      unfold KeBuf.push
      rw [List.append_nil]

/-- A quantum that is not of one value is at most three bytes longer. -/
lemma encodeQuantum_fits {out : KeBuf} {pos qlen : ℕ} (hready : e.Ready) (hqlen : qlen ≤ 0x40000)
    (hsrc : pos + qlen ≤ src.length) (hout : out.Fits (qlen + 0x1200)) :
    Gives (encodeQuantum src e out pos qlen) fun r => r.1.Ready ∧
      ∃ bytes, r.2 = out.push bytes ∧ bytes.length ≤ qlen + 3 := by
  have hempty : KeEnc.Ready { e with
      lit := { e.lit with bytes := [] }, cmd := { e.cmd with bytes := [] }
      off16 := { e.off16 with bytes := [] }, off32 := { e.off32 with bytes := [] }
      lenb := { e.lenb with bytes := [] }, litClaimed := 0 } :=
    ⟨hready.lit, hready.cmd, hready.off16, hready.off32, hready.lenb⟩
  refine (quantumChunks_fits hempty ⟨le_rfl, le_rfl, le_rfl, le_rfl, le_rfl⟩ (Nat.zero_le _) hqlen hsrc
    (Nat.lt_succ_self _) (KeBuf.Fits.window (hout.mono (by omega)))).bind ?_
  rintro ⟨e', q⟩ ⟨hready', bytes, hq, -⟩
  dsimp only at hready' hq ⊢
  have hn : q.n = bytes.length := by
    rw [hq, KeBuf.push_n]
    exact Nat.zero_add _
  have hstore (head : List UInt8) (hhead : head.length = 3) : keStore out head = .ok (out.push head) :=
    keStore_of_fits (hout.mono (by omega))
  refine gives_ite (fun _ => ?_) fun hless => ?_
  · have hlen := length_srcBytes hsrc
    have hhead : (if qlen = 0x40000 then [0x0F, 0xFF, 0xFF] else be24 (qlen - 1)).length = 3 := by
      split <;> rfl
    refine gives_bind_of_eq (hstore _ hhead) ?_
    rw [keAppend_of_fits (KeBuf.Fits.push (hout.mono (by omega))), KeBuf.push_push]
    refine gives_ok ⟨hready', _, rfl, ?_⟩
    rw [List.length_append]
    omega
  · refine gives_bind_of_eq (hstore _ rfl) ?_
    refine gives_ok ⟨hready', _, KeBuf.push_push out _ _, ?_⟩
    rw [List.length_append]
    change 3 + q.n ≤ _
    omega

lemma hashWindow_ready {stop rest hp : ℕ} (h : e.Ready) : (hashWindow src stop rest hp e).Ready := by
  induction rest generalizing hp e with
  | zero => exact h
  | succ rest ih =>
    rw [hashWindow]
    split
    · exact ih ⟨h.lit, h.cmd, h.off16, h.off32, h.lenb⟩
    · exact h

/-- A filled quantum or an encoded one. -/
lemma quantum_fits {out : KeBuf} {pos qlen : ℕ} (hready : e.Ready) (hpos : 0 < qlen)
    (hqlen : qlen ≤ 0x40000) (hsrc : pos + qlen ≤ src.length) (hout : out.Fits (qlen + 0x1200)) :
    Gives (match keQuantumFill (srcBytes src pos qlen) with
      | some fill => do
        let out ← keAppend out [0x07, 0xFF, 0xFF, fill]
        pure (e, out)
      | none => encodeQuantum src e out pos qlen) fun r => r.1.Ready ∧
        ∃ bytes, r.2 = out.push bytes ∧ bytes.length ≤ qlen + 3 := by
  split
  · next fill _ =>
    refine gives_bind_of_eq (keAppend_of_fits (hout.mono ?_)) ?_
    · simp only [List.length_cons, List.length_nil]
      omega
    · refine gives_ok ⟨hready, _, rfl, ?_⟩
      simp only [List.length_cons, List.length_nil]
      omega
  · exact encodeQuantum_fits hready hqlen hsrc hout

/-- A quantum adds at most five bytes to its length. -/
lemma streamStep_fits {out : KeBuf} {pos qlen : ℕ} (hready : e.Ready) (hpos : 0 < qlen)
    (hqlen : qlen ≤ 0x40000) (hsrc : pos + qlen ≤ src.length) (hout : out.Fits (qlen + 0x1300)) :
    Gives (streamStep src e out pos qlen) fun r => r.1.Ready ∧
      ∃ bytes, r.2 = out.push bytes ∧ bytes.length ≤ qlen + 5 := by
  refine gives_append 2 (qlen + 0x1200) (hout.mono (by omega)) (fun hroom =>
    gives_ite (fun _ => ?_) fun _ => gives_ok ⟨[], ?_, Nat.zero_le _⟩) fun head hhead hout' => ?_
  · refine gives_bind_of_eq (kePut_of_fits (hroom.mono (by decide))) ?_
    rw [kePut_of_fits (KeBuf.Fits.push_one hroom), KeBuf.push_push]
    exact gives_ok ⟨_, rfl, le_rfl⟩
  · unfold KeBuf.push
    rw [List.append_nil]
  refine (quantum_fits hready hpos hqlen hsrc hout').bind ?_
  rintro ⟨e', out'⟩ ⟨hready', bytes, hbytes, hlen⟩
  refine gives_ok ⟨hashWindow_ready hready', head ++ bytes, ?_, ?_⟩
  · dsimp only at hbytes ⊢
    rw [hbytes, KeBuf.push_push]
  · rw [List.length_append]
    omega

/-- The stream is at most five bytes longer for each quantum. -/
lemma streamLoop_fits {out : KeBuf} {pos rounds : ℕ} (hready : e.Ready) (hpos : pos ≤ src.length)
    (hrounds : src.length - pos < rounds)
    (hout : out.Fits (src.length - pos + (src.length - pos + 0x3FFFF) / 0x40000 * 5 + 0x1300)) :
    Gives (streamLoop src rounds pos e out) fun out' => ∃ bytes, out' = out.push bytes ∧
      bytes.length ≤ src.length - pos + (src.length - pos + 0x3FFFF) / 0x40000 * 5 := by
  induction rounds generalizing pos e out with
  | zero => exact absurd hrounds (Nat.not_lt_zero _)
  | succ rounds ih =>
    refine gives_ite (fun hmore => ?_) fun _ => ?_
    · dsimp only
      obtain ⟨quantum, hquantum⟩ : ∃ quantum, quantum =
        if 0x40000 < src.length - pos then 0x40000 else src.length - pos := ⟨_, rfl⟩
      have hbounds : 0 < quantum ∧ quantum ≤ src.length - pos ∧ quantum ≤ 0x40000 ∧
          (quantum = 0x40000 ∨ quantum = src.length - pos) := by
        split_ifs at hquantum <;> omega
      rw [← hquantum]
      obtain ⟨hmin, hle, hmax, hfull⟩ := hbounds
      refine (streamStep_fits hready hmin hmax (by omega) (hout.mono (by omega))).bind ?_
      rintro ⟨e', out'⟩ ⟨hready', bytes, hout', hbytes⟩
      dsimp only at hready' hout'
      subst hout'
      refine (ih hready' (by omega) (by omega) (KeBuf.Fits.push (hout.mono ?_))).mono ?_
      · rcases hfull with hfull | hfull <;> omega
      · rintro _ ⟨more, rfl, hlen⟩
        refine ⟨bytes ++ more, KeBuf.push_push _ _ _, ?_⟩
        rw [List.length_append]
        rcases hfull with hfull | hfull <;> omega
    · refine gives_ok ⟨[], ?_, Nat.zero_le _⟩
      unfold KeBuf.push
      rw [List.append_nil]

end Quanta

lemma keInit_ready : keInit.Ready := ⟨⟨rfl, rfl⟩, ⟨rfl, rfl⟩, ⟨rfl, rfl⟩, ⟨rfl, rfl⟩, ⟨rfl, rfl⟩⟩

/-- The stream that the encoder gives, behind the header. -/
lemma paiCompressEncode_eq {src : List UInt8} {alloc : ℕ → Bool} {cap : ℕ}
    (hlen : 0 < src.length) (hmax : src.length < 2147483648) (halloc : ∀ n < 7, alloc n = true)
    (hcap : paiCompressBound src.length + 16 ≤ cap) (hcap' : cap < 4294967296) :
    ∃ out bytes, streamLoop src (src.length + 1) 0 keInit out = .ok (out.push bytes) ∧
      paiCompressEncode src alloc cap =
        .ok (.ok ([0x50, 0x41, 0x4B, 0x43] ++ leBytes 4 1 ++ leBytes 8 src.length ++ bytes)) ∧
      16 + bytes.length ≤ paiCompressBound src.length := by
  have hbound : paiCompressBound src.length = src.length + src.length / 0x40000 * 8 + 0x10000 := by
    unfold paiCompressBound u64
    omega
  have hall : (List.range 7).all alloc = true := by
    rw [List.all_eq_true]
    exact fun n hn => halloc n (List.mem_range.mp hn)
  have hout : KeBuf.Fits ⟨[], u32Sub (cap % 4294967296) 16, cap - 16⟩
      (src.length - 0 + (src.length - 0 + 0x3FFFF) / 0x40000 * 5 + 0x1300) := by
    rw [Nat.mod_eq_of_lt hcap', u32Sub_eq (by omega) (by omega)]
    refine ⟨?_, le_rfl, ?_⟩
    · change 0 + _ ≤ cap - 16
      omega
    · change cap - 16 < _
      omega
  obtain ⟨stream, hstream, bytes, rfl, hbytes⟩ :=
    streamLoop_fits keInit_ready (Nat.zero_le _) (Nat.lt_succ_self _) hout
  have henc : kkEncodeStream src alloc ⟨[], u32Sub (cap % 4294967296) 16, cap - 16⟩ = .ok _ :=
    (if_pos hall).trans hstream
  refine ⟨_, bytes, hstream, ?_, by omega⟩
  unfold paiCompressEncode
  dsimp only
  rw [if_neg (by omega), if_neg (by omega), henc]
  rfl

/-- With memory to work in, and a destination that has the room that `pai_compress_bound` asks for, the encoder
gives a stream: it writes nothing out of range, drops no byte, and the stream is within the bound. -/
theorem paiCompressEncode_fits {src : List UInt8} {alloc : ℕ → Bool} {cap : ℕ}
    (hlen : 0 < src.length) (hmax : src.length < 2147483648) (halloc : ∀ n < 7, alloc n = true)
    (hcap : paiCompressBound src.length + 16 ≤ cap) (hcap' : cap < 4294967296) :
    ∃ out, paiCompressEncode src alloc cap = .ok (.ok out) ∧ out.length ≤ paiCompressBound src.length := by
  obtain ⟨_, bytes, -, henc, hbytes⟩ := paiCompressEncode_eq hlen hmax halloc hcap hcap'
  refine ⟨_, henc, ?_⟩
  rw [List.length_append]
  exact hbytes

/-- Sixteen different bytes. -/
theorem paiCompressEncode_fits_sixteen :
    ∃ out, paiCompressEncode ((List.range 16).map UInt8.ofNat) (fun _ => true) 0x20000 = .ok (.ok out) ∧
      out.length ≤ paiCompressBound 16 :=
  paiCompressEncode_fits (by decide) (by decide) (fun _ _ => rfl) (by decide) (by decide)

end Prospero
