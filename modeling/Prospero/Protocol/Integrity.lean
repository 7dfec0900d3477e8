import Prospero.Lib.Crc
import Prospero.Protocol.FrameCodec

/-!
# What the frame CRC detects

`pai_proto_crc32_upd` (`protocol/crc32.c`) takes a message a byte at a time from a table.  Here it is
connected to the bit-serial register of the reflected polynomial `0xEDB88320`, and from there
`pai_proto_frame_validate` is shown to reject every corruption of a valid frame within 32 consecutive
bits of the bytes the CRC covers.  Bits are counted in the order the register takes them: bit `i` of the
covered bytes is bit `i % 8`, from the low end, of byte `i / 8`.

### Outline

* The bit-serial register: `crcSerial` on `dataBits`.
* The table: `paiProtoCrc32Upd_eq_serial`.
* Main result: `crc_integrity`.
-/

namespace Prospero

open ByteString

/-! ## The bit-serial register -/

/-- The reflected polynomial. -/
def crcPoly : BitVec 32 := 0xEDB88320

/-- The bits of a byte, low bit first. -/
def byteBits (b : UInt8) : List Bool := List.ofFn fun i : Fin 8 => b.toBitVec.getLsbD i

/-- The bits of a byte string in the order the register takes them. -/
def dataBits (data : List UInt8) : List Bool := data.flatMap byteBits

/-- The bit-serial CRC register with polynomial `0xEDB88320`. -/
def crcSerial (running : UInt32) (bits : List Bool) : UInt32 :=
  ⟨Crc.feed crcPoly running.toBitVec bits⟩

@[simp] lemma length_byteBits (b : UInt8) : (byteBits b).length = 8 := List.length_ofFn

lemma dataBits_cons (b : UInt8) (data : List UInt8) :
    dataBits (b :: data) = byteBits b ++ dataBits data := List.flatMap_cons

/-- Byte strings of one length have as many bits. -/
lemma length_dataBits (data : List UInt8) : (dataBits data).length = 8 * data.length := by
  induction data with
  | nil => rfl
  | cons b data ih =>
    rw [dataBits_cons, List.length_append, length_byteBits, ih, List.length_cons]
    omega

/-- A byte string is given by its bits. -/
lemma dataBits_injective : Function.Injective dataBits := by
  intro x
  induction x with
  | nil =>
    intro y h
    cases y with
    | nil => rfl
    | cons b y =>
      have hlen := congrArg List.length h
      rw [length_dataBits, length_dataBits] at hlen
      exact absurd hlen (by simp)
  | cons a x ih =>
    intro y h
    cases y with
    | nil =>
      have hlen := congrArg List.length h
      rw [length_dataBits, length_dataBits] at hlen
      exact absurd hlen (by simp)
    | cons b y =>
      rw [dataBits_cons, dataBits_cons] at h
      obtain ⟨hbyte, hrest⟩ := List.append_inj h (by rw [length_byteBits, length_byteBits])
      have hab : a = b := by
        apply UInt8.eq_iff_toBitVec_eq.mpr
        apply BitVec.eq_of_getLsbD_eq
        intro i hi
        exact congrFun (List.ofFn_injective hbyte) ⟨i, hi⟩
      rw [hab, ih hrest]

/-! ## The table -/

/-- The low bit test of the C code. -/
lemma and_one_ne_zero (c : UInt32) : c &&& 1 ≠ 0 ↔ c.toBitVec.getLsbD 0 = true := by
  rw [ne_eq, UInt32.eq_iff_toBitVec_eq, UInt32.toBitVec_and]
  have hone : c.toBitVec &&& (1 : UInt32).toBitVec =
      BitVec.setWidth 32 (BitVec.ofBool (c.toBitVec.getLsbD 0)) :=
    BitVec.and_one_eq_setWidth_ofBool_getLsbD
  rw [hone]
  cases c.toBitVec.getLsbD 0 <;> decide

/-- A step of `crc_table_build` is a step of the register. -/
lemma toBitVec_crcBit (c : UInt32) : (crcBit c).toBitVec = Crc.shift crcPoly c.toBitVec := by
  unfold crcBit Crc.shift
  simp only [and_one_ne_zero]
  split_ifs
  · rfl
  · rfl

/-- A table entry is eight steps of the register. -/
lemma toBitVec_crcTable (c : UInt32) :
    (crcTable c).toBitVec = (Crc.shift crcPoly)^[8] c.toBitVec := by
  have hiter (n : ℕ) : (crcBit^[n] c).toBitVec = (Crc.shift crcPoly)^[n] c.toBitVec := by
    induction n with
    | zero => rfl
    | succ n ih => rw [Function.iterate_succ_apply', Function.iterate_succ_apply', toBitVec_crcBit, ih]
  exact hiter 8

/-- The bits of a byte as the low bits of the register. -/
lemma word_byteBits (b : UInt8) : (Crc.word (byteBits b) : BitVec 32) = b.toUInt32.toBitVec := by
  apply BitVec.eq_of_getLsbD_eq
  intro i hi
  rw [Crc.getLsbD_word, UInt8.toBitVec_toUInt32, BitVec.getLsbD_setWidth, decide_eq_true hi]
  by_cases hin : i < 8
  · rw [List.getD_eq_getElem _ _ (by rwa [length_byteBits])]
    simp only [byteBits, List.getElem_ofFn]
  · rw [List.getD_eq_default _ _ (by rw [length_byteBits]; omega),
      BitVec.getLsbD_of_ge _ _ (by omega)]

/-- The mask `0xFF` keeps the low eight bits. -/
lemma getLsbD_low_mask (i : ℕ) : (0xFF#32).getLsbD i = decide (i < 8) := by
  rw [BitVec.getLsbD_ofNat, show (0xFF : ℕ) = 2 ^ 8 - 1 by rfl, Nat.testBit_two_pow_sub_one]
  by_cases h : i < 8
  · simp [h, show i < 32 by omega]
  · simp [h]

/-- A register is its low eight bits and the rest. -/
lemma split_low_byte (x : BitVec 32) : x = (x &&& 0xFF#32) ^^^ (x >>> 8) <<< 8 := by
  apply BitVec.eq_of_getLsbD_eq
  intro i hi
  rw [BitVec.getLsbD_xor, BitVec.getLsbD_and, getLsbD_low_mask, BitVec.getLsbD_shiftLeft,
    BitVec.getLsbD_ushiftRight]
  by_cases h : i < 8
  · simp [h]
  · simp [h, hi, show 8 + (i - 8) = i by omega]

/-- One round of `pai_proto_crc32_upd` takes in the eight bits of a byte. -/
lemma crc32_round (running : UInt32) (b : UInt8) :
    crcTable ((running ^^^ b.toUInt32) &&& 0xFF) ^^^ (running >>> 8) =
      crcSerial running (byteBits b) := by
  apply UInt32.eq_iff_toBitVec_eq.mpr
  set x := running.toBitVec ^^^ b.toUInt32.toBitVec with hx
  have hclear : ∀ i, i < 8 → ((x >>> 8) <<< 8).getLsbD i = false := by
    intro i hi
    simp [hi]
  have hback : (x >>> 8) <<< 8 >>> 8 = x >>> 8 := by
    apply BitVec.eq_of_getLsbD_eq
    intro i hi
    rw [BitVec.getLsbD_ushiftRight, BitVec.getLsbD_shiftLeft, Nat.add_sub_cancel_left]
    by_cases hin : 8 + i < 32
    · simp [hin]
    · simp [hin, BitVec.getLsbD_of_ge x (8 + i) (by omega)]
  have hhigh : x >>> 8 = running.toBitVec >>> 8 := by
    have hbyte : b.toUInt32.toBitVec >>> 8 = 0#32 := by
      apply BitVec.eq_of_toNat_eq
      have hlt : b.toNat < 256 := b.toNat_lt
      simp [UInt8.toBitVec_toUInt32, Nat.shiftRight_eq_div_pow]
      omega
    rw [hx, BitVec.ushiftRight_xor_distrib, hbyte, BitVec.xor_zero]
  have hserial : (crcSerial running (byteBits b)).toBitVec = (Crc.shift crcPoly)^[8] x := by
    change Crc.feed crcPoly running.toBitVec (byteBits b) = _
    rw [Crc.feed_eq_shift (by rw [length_byteBits]; decide), length_byteBits, word_byteBits]
  rw [hserial, UInt32.toBitVec_xor, toBitVec_crcTable]
  calc (Crc.shift crcPoly)^[8] (x &&& 0xFF#32) ^^^ running.toBitVec >>> 8
      = (Crc.shift crcPoly)^[8] (x &&& 0xFF#32) ^^^ (x >>> 8) <<< 8 >>> 8 := by rw [hback, hhigh]
    _ = (Crc.shift crcPoly)^[8] ((x &&& 0xFF#32) ^^^ (x >>> 8) <<< 8) :=
        (Crc.shift_iterate_split hclear).symm
    _ = (Crc.shift crcPoly)^[8] x := by rw [← split_low_byte x]

/-- The table-driven update is the bit-serial register. -/
lemma paiProtoCrc32Upd_eq_serial (running : UInt32) (data : List UInt8) :
    paiProtoCrc32Upd running data = crcSerial running (dataBits data) := by
  induction data generalizing running with
  | nil => rfl
  | cons b data ih =>
    have hfirst : paiProtoCrc32Upd running (b :: data) =
        paiProtoCrc32Upd (crcSerial running (byteBits b)) data := by
      rw [← crc32_round]
      rfl
    rw [hfirst, ih, dataBits_cons]
    unfold crcSerial
    rw [Crc.feed_append]

/-- The update over a concatenation. -/
lemma paiProtoCrc32Upd_append (running : UInt32) (x y : List UInt8) :
    paiProtoCrc32Upd (paiProtoCrc32Upd running x) y = paiProtoCrc32Upd running (x ++ y) :=
  List.foldl_append.symm

/-! ## Frames -/

/-- A complete header and payload that pass the integrity check. -/
structure ValidFrame (header payload : List UInt8) : Prop where
  /-- The header is complete. -/
  header_length : header.length = paiProtoHeaderSize
  /-- The header decodes, and announces the payload. -/
  decoded : ∃ h, paiProtoFrameDecode header = some h ∧ payload.length = h.payloadLen
  /-- The CRC matches. -/
  valid : paiProtoFrameValidate header payload = paiOk

/-- The bytes the CRC covers: header bytes `[0, 32)`, then the payload. -/
def coveredBytes (header payload : List UInt8) : List UInt8 :=
  header.take (paiProtoHeaderSize - 8) ++ payload

/-- The frame CRC is the register's remainder of the covered bytes, inverted. -/
lemma frameCrc_eq_serial (header payload : List UInt8) :
    frameCrc header payload =
      paiProtoCrc32Fin (crcSerial paiProtoCrc32Init (dataBits (coveredBytes header payload))) := by
  rw [frameCrc, paiProtoCrc32Upd_append, paiProtoCrc32Upd_eq_serial, coveredBytes]

/-- Frames with one CRC leave one remainder. -/
lemma crcSerial_eq_of_frameCrc_eq {header header' payload payload' : List UInt8}
    (h : frameCrc header payload = frameCrc header' payload') :
    Crc.feed crcPoly paiProtoCrc32Init.toBitVec (dataBits (coveredBytes header payload)) =
      Crc.feed crcPoly paiProtoCrc32Init.toBitVec (dataBits (coveredBytes header' payload')) := by
  rw [frameCrc_eq_serial, frameCrc_eq_serial] at h
  exact congrArg UInt32.toBitVec ((UInt32.xor_left_inj _).mp h)

/-- The stored CRC of a frame whose header tail is untouched. -/
lemma getLe32_crc_congr {header header' : List UInt8} (htail : header'.drop 32 = header.drop 32) :
    getLe32 header' 32 = getLe32 header 32 := by
  rw [getLe32, getLe32, htail]

/-- A frame that passes the check announces its payload and stores its CRC. -/
lemma ValidFrame.crc {header payload : List UInt8} (h : ValidFrame header payload) :
    payload.length = (getLe32 header 12).toNat ∧ getLe32 header 32 = frameCrc header payload := by
  obtain ⟨f, hdec, hlen⟩ := h.decoded
  refine ⟨?_, paiProtoFrameValidate_crc hdec hlen h.valid⟩
  obtain ⟨-, -, -, -, hf⟩ := paiProtoFrameDecode_fields hdec
  rw [hlen, hf]

/-- What passes the check with the announced payload is a valid frame. -/
lemma validFrame_of_validate {header payload : List UInt8}
    (hheader : header.length = paiProtoHeaderSize)
    (hlen : payload.length = (getLe32 header 12).toNat)
    (hvalid : paiProtoFrameValidate header payload = paiOk) : ValidFrame header payload := by
  cases hdec : paiProtoFrameDecode header with
  | none =>
    rw [paiProtoFrameValidate, hdec] at hvalid
    exact absurd (show paiErrProtocol = paiOk from hvalid) (by decide)
  | some f =>
    obtain ⟨-, -, -, -, hf⟩ := paiProtoFrameDecode_fields hdec
    exact ⟨hheader, ⟨f, hdec, by rw [hlen, hf]⟩, hvalid⟩

/-- **The frame CRC.**  The update is a homomorphism over concatenation and equals the bit-serial
reflected CRC with polynomial `0xEDB88320`; and when bits of the covered bytes of a valid frame are
changed, at least one and all within 32 consecutive bits, the length field, CRC and reserved field left
alone, the frame is rejected. -/
theorem crc_integrity :
    (∀ (running : UInt32) (x y : List UInt8),
      paiProtoCrc32Upd (paiProtoCrc32Upd running x) y = paiProtoCrc32Upd running (x ++ y)) ∧
    (∀ (running : UInt32) (data : List UInt8),
      paiProtoCrc32Upd running data = crcSerial running (dataBits data)) ∧
    (∀ header payload : List UInt8, ValidFrame header payload →
      ∀ (header' payload' : List UInt8) (start : ℕ),
        header'.length = header.length → payload'.length = payload.length →
        header'.drop 32 = header.drop 32 → (header'.drop 12).take 4 = (header.drop 12).take 4 →
        (∀ i, i < start ∨ start + 32 ≤ i →
          (dataBits (coveredBytes header' payload'))[i]? =
            (dataBits (coveredBytes header payload))[i]?) →
        coveredBytes header' payload' ≠ coveredBytes header payload →
        paiProtoFrameValidate header' payload' ≠ paiOk) := by
  refine ⟨paiProtoCrc32Upd_append, paiProtoCrc32Upd_eq_serial, ?_⟩
  intro header payload hframe header' payload' start hheader hpayload htail hlength hwindow hne hvalid
  obtain ⟨hlen, hcrc⟩ := hframe.crc
  have hfield : getLe32 header' 12 = getLe32 header 12 := by
    rw [getLe32, getLe32, hlength]
  have hframe' : ValidFrame header' payload' :=
    validFrame_of_validate (hheader.trans hframe.header_length) (by rw [hpayload, hlen, hfield]) hvalid
  have hcrc' : frameCrc header' payload' = frameCrc header payload := by
    rw [← hcrc, ← hframe'.crc.2, getLe32_crc_congr htail]
  have hcovered : (coveredBytes header' payload').length = (coveredBytes header payload).length := by
    rw [coveredBytes, coveredBytes, List.length_append, List.length_append, List.length_take,
      List.length_take, hheader, hpayload]
  have hbits : (dataBits (coveredBytes header' payload')).length =
      (dataBits (coveredBytes header payload)).length := by
    rw [length_dataBits, length_dataBits, hcovered]
  have hmsb : crcPoly.msb = true := by decide
  exact Crc.feed_ne_of_burst hmsb hbits hwindow (fun h => hne (dataBits_injective h)) _
    (crcSerial_eq_of_frameCrc_eq hcrc')

/-- A PING whose third content byte arrives changed is rejected. -/
theorem crc_integrity_ping :
    paiProtoFrameValidate (frameHeader ⟨0, paiProtoMsgPing, 0, 7, 0, [1, 2, 3, 4]⟩) [1, 2, 7, 4] ≠
      paiOk := by
  set frame : Frame := ⟨0, paiProtoMsgPing, 0, 7, 0, [1, 2, 3, 4]⟩ with hframe
  have hsend : frame.Sendable := ⟨by decide, by decide, by decide⟩
  have hvalid : ValidFrame (frameHeader frame) [1, 2, 3, 4] :=
    ⟨length_frameHeader frame, ⟨_, paiProtoFrameDecode_frameHeader hsend, rfl⟩,
      paiProtoFrameValidate_frameHeader hsend⟩
  have hwidth : (dataBits ((frameHeader frame).take 32)).length = 256 := by
    rw [length_dataBits, List.length_take, length_frameHeader]
    rfl
  refine crc_integrity.2.2 _ _ hvalid _ _ 256 rfl rfl rfl rfl ?_ ?_
  · intro i hi
    have hcut (p : List UInt8) : dataBits (coveredBytes (frameHeader frame) p) =
        dataBits ((frameHeader frame).take 32) ++ dataBits p := List.flatMap_append
    rw [hcut, hcut]
    rcases hi with hi | hi
    · rw [List.getElem?_append_left (by omega), List.getElem?_append_left (by omega)]
    · rw [List.getElem?_eq_none, List.getElem?_eq_none]
      · rw [List.length_append, hwidth, length_dataBits]
        exact hi
      · rw [List.length_append, hwidth, length_dataBits]
        exact hi
  · intro h
    exact absurd (List.append_cancel_left h) (by decide)

end Prospero
