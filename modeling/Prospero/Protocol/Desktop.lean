import Prospero.Protocol.Message

/-!
# Desktop codec

The TypeScript port of the frame and GENERATE codecs (`desktop/src/main/proto/codec.ts`), kept apart
from the console's C codec it has to agree with.  Where the console and the desktop differ:

* `encodeFrame` refuses flags that do not fit 16 bits, `pai_proto_frame_encode` cuts them;
* `decodeHeader` does not look at the reserved COMPRESSED flag, `pai_proto_frame_decode` refuses it;
* the two sampler magics are different numbers, so no sampler crosses in either direction.

`codecs_agree_iff` shows that this is the whole difference.  JavaScript numbers are natural numbers
here; `jsNumber` is the rounding of a 64-bit integer to a double.
-/

namespace Prospero

open ByteString

/-! ## Buffers and numbers -/

/-- What the codec throws. -/
inductive TsError where
  /-- `ProtocolError`. -/
  | protocol (message : String)
  /-- `RangeError` of a buffer write. -/
  | range

/-- `buf.writeUInt16LE`. -/
def writeUInt16LE (v : ℕ) : Except TsError (List UInt8) :=
  if v < 0x10000 then .ok (leBytes 2 v) else .error .range

/-- `buf.writeUInt32LE`. -/
def writeUInt32LE (v : ℕ) : Except TsError (List UInt8) :=
  if v < 0x100000000 then .ok (leBytes 4 v) else .error .range

/-- `buf.writeBigUInt64LE`. -/
def writeBigUInt64LE (v : ℕ) : Except TsError (List UInt8) :=
  if v < 0x10000000000000000 then .ok (leBytes 8 v) else .error .range

/-- `data.readUIntLE(off, n)`. -/
def readUIntLE (data : List UInt8) (off n : ℕ) : ℕ := leNat ((data.drop off).take n)

/-- `Number(v)`: round to the nearest double, ties to even. -/
def jsNumber (v : ℕ) : ℕ :=
  if v < 0x20000000000000 then v
  else
    let ulp := 2 ^ (Nat.log2 v - 52)
    let q := v / ulp
    let r := v % ulp
    if ulp < 2 * r ∨ (2 * r = ulp ∧ q % 2 = 1) then (q + 1) * ulp else q * ulp

/-! ## CRC-32 -/

/-- One round of the loop that fills `CRC_TABLE`. -/
def crcRound (c : UInt32) : UInt32 :=
  if c &&& 1 ≠ 0 then (0xEDB88320 : UInt32) ^^^ (c >>> 1) else c >>> 1

/-- An entry of `CRC_TABLE`. -/
def crcTableEntry (n : UInt32) : UInt32 := crcRound^[8] n

/-- `crc32Update`. -/
def crc32Update (running : UInt32) (data : List UInt8) : UInt32 :=
  data.foldl (fun c b => crcTableEntry ((c ^^^ b.toUInt32) &&& 0xFF) ^^^ (c >>> 8)) running

/-- `crc32Finish(crc32Update(crc32Update(crc32Init(), header), payload))`. -/
def crc32Frame (header payload : List UInt8) : UInt32 :=
  crc32Update (crc32Update 0xFFFFFFFF header) payload ^^^ 0xFFFFFFFF

/-! ## Frames -/

/-- `MAX_PAYLOAD`. -/
def tsMaxPayload : ℕ := 0x100000

/-- `encodeFrame`. -/
def encodeFrame (msgType flags requestId sessionId : ℕ) (payload : List UInt8) :
    Except TsError (List UInt8) :=
  if tsMaxPayload < payload.length then .error (.protocol "payload too large")
  else if flags % 0x100000000 &&& 8 ≠ 0 then .error (.protocol "compression is reserved in v0")
  else do
    let flagBytes ← writeUInt16LE flags
    let typeBytes ← writeUInt32LE msgType
    let lenBytes ← writeUInt32LE payload.length
    let requestBytes ← writeBigUInt64LE requestId
    let sessionBytes ← writeBigUInt64LE sessionId
    let covered := leBytes 4 0x50494150 ++ [0, 1] ++ flagBytes ++ typeBytes ++ lenBytes ++
      requestBytes ++ sessionBytes
    .ok (covered ++ leBytes 4 (crc32Frame covered payload).toNat ++ [0, 0, 0, 0] ++ payload)

/-- `FrameHeader` without its `crc`, which nothing reads. -/
structure TsHeader where
  /-- Packed version. -/
  version : ℕ
  /-- Message type. -/
  msgType : ℕ
  /-- Flag bits. -/
  flags : ℕ
  /-- Correlation id. -/
  requestId : ℕ
  /-- Session id. -/
  sessionId : ℕ
  /-- Announced payload length. -/
  payloadLen : ℕ
deriving DecidableEq

/-- `decodeHeader`. -/
def decodeHeader (data : List UInt8) : Except TsError TsHeader :=
  if data.length < 40 then .error (.protocol "short header")
  else if readUIntLE data 0 4 ≠ 0x50494150 then .error (.protocol "bad magic")
  else if readUIntLE data 36 4 ≠ 0 then .error (.protocol "nonzero reserved field")
  else if tsMaxPayload < readUIntLE data 12 4 then .error (.protocol "payload too large")
  else .ok
    { version := (data.getD 4 0).toNat * 256 + (data.getD 5 0).toNat
      msgType := readUIntLE data 8 4
      flags := readUIntLE data 6 2
      requestId := jsNumber (readUIntLE data 16 8)
      sessionId := jsNumber (readUIntLE data 24 8)
      payloadLen := readUIntLE data 12 4 }

/-- `validateFrame`. -/
def validateFrame (header payload : List UInt8) : Bool :=
  (crc32Frame (header.take 32) payload).toNat == readUIntLE header 32 4

/-- `decodeHeader` and `validateFrame` as the desktop applies them to received bytes: the fields of an
accepted frame. -/
def desktopReceive (data : List UInt8) : Option TsHeader :=
  match decodeHeader (data.take 40) with
  | .error _ => none
  | .ok h =>
    if data.length < 40 + h.payloadLen then none
    else if validateFrame (data.take 40) ((data.drop 40).take h.payloadLen) then some h
    else none

/-- `pai_proto_frame_decode` and `pai_proto_frame_validate` as the console applies them to received
bytes: the fields of an accepted frame. -/
def consoleReceive (data : List UInt8) : Option TsHeader :=
  if data.length < paiProtoHeaderSize then none
  else
    match paiProtoFrameDecode (data.take paiProtoHeaderSize) with
    | none => none
    | some h =>
      if data.length < paiProtoHeaderSize + h.payloadLen then none
      else if paiProtoFrameValidate (data.take paiProtoHeaderSize)
          ((data.drop paiProtoHeaderSize).take h.payloadLen) = paiOk then
        some
          { version := h.frame.version.toNat
            msgType := h.frame.msgType.toNat
            flags := h.frame.flags.toNat
            requestId := h.frame.requestId.toNat
            sessionId := h.frame.sessionId.toNat
            payloadLen := h.payloadLen }
      else none

/-! ## GENERATE -/

/-- `ProtoSampler`; float fields as bit patterns. -/
structure TsSampler where
  /-- Bit pattern of `temperature`. -/
  temperature : UInt32
  /-- Bit pattern of `topP`. -/
  topP : UInt32
  /-- `topK`. -/
  topK : ℕ
  /-- `maxTokens`. -/
  maxTokens : ℕ
  /-- `seed`. -/
  seed : ℕ
deriving DecidableEq

/-- `SAMPLER_MAGIC`. -/
def tsSamplerMagic : ℕ := 0x50494153

/-- `SAMPLER_SIZE`. -/
def tsSamplerSize : ℕ := 4 + 4 + 4 + 4 + 8

/-- The trailer `encodeGeneratePayload` writes. -/
def tsSamplerTrailer (s : TsSampler) : List UInt8 :=
  leBytes 4 tsSamplerMagic ++ (leBytes 4 s.temperature.toNat ++ (leBytes 4 s.topP.toNat ++
    (leBytes 4 (s.topK % 0x100000000) ++ (leBytes 4 (s.maxTokens % 0x100000000) ++
      leBytes 8 (s.seed % 0x10000000000000000)))))

/-- `encodeGeneratePayload`; the prompt is given by its UTF-8 bytes. -/
def encodeGeneratePayload (prompt : List UInt8) (sampler : Option TsSampler) :
    Except TsError (List UInt8) :=
  if 0xFFFF < prompt.length then .error (.protocol "prompt too long")
  else .ok (leBytes 2 prompt.length ++ (prompt ++ (sampler.map tsSamplerTrailer).getD []))

/-- `decodeGeneratePayload`; the prompt is given by its UTF-8 bytes. -/
def decodeGeneratePayload (payload : List UInt8) :
    Except TsError (List UInt8 × Option TsSampler) :=
  if payload.length < 2 then .error (.protocol "short generate payload")
  else
    let promptLen := readUIntLE payload 0 2
    if payload.length < 2 + promptLen then .error (.protocol "truncated generate prompt")
    else
      let prompt := (payload.drop 2).take promptLen
      let trailer := payload.drop (2 + promptLen)
      if trailer.length = 4 + tsSamplerSize then
        if readUIntLE trailer 0 4 ≠ tsSamplerMagic then .error (.protocol "bad sampler magic")
        else .ok (prompt, some
          { temperature := UInt32.ofNat (readUIntLE trailer 4 4)
            topP := UInt32.ofNat (readUIntLE trailer 8 4)
            topK := readUIntLE trailer 12 4
            maxTokens := readUIntLE trailer 16 4
            seed := jsNumber (readUIntLE trailer 20 8) })
      else if trailer.length ≠ 0 then .error (.protocol "malformed generate trailer")
      else .ok (prompt, none)

/-! ## Both sides compute the same CRC and read the same numbers -/

/-- The two checksum loops are the same function. -/
lemma crc32Frame_eq (header payload : List UInt8) :
    crc32Frame header payload = paiProtoCrc32Fin
      (paiProtoCrc32Upd (paiProtoCrc32Upd paiProtoCrc32Init header) payload) := by
  have hround : crcRound = crcBit := by
    funext c
    unfold crcRound crcBit
    rw [UInt32.xor_comm]
  have hupdate : crc32Update = paiProtoCrc32Upd := by
    funext running data
    unfold crc32Update paiProtoCrc32Upd crcTableEntry crcTable
    rw [hround]
  unfold crc32Frame paiProtoCrc32Fin paiProtoCrc32Init
  rw [hupdate]

/-- At most `n` bytes denote a number below `256 ^ n`. -/
lemma readUIntLE_lt (data : List UInt8) (off n : ℕ) : readUIntLE data off n < 256 ^ n := by
  have hlen : ((data.drop off).take n).length ≤ n := List.length_take_le _ _
  exact (leNat_lt _).trans_le (Nat.pow_le_pow_right (by decide) hlen)

lemma toNat_getLe16 (p : List UInt8) (off : ℕ) : (getLe16 p off).toNat = readUIntLE p off 2 := by
  rw [getLe16, UInt16.toNat_ofNat']
  exact Nat.mod_eq_of_lt (readUIntLE_lt p off 2)

lemma toNat_getLe32 (p : List UInt8) (off : ℕ) : (getLe32 p off).toNat = readUIntLE p off 4 := by
  rw [getLe32, UInt32.toNat_ofNat']
  exact Nat.mod_eq_of_lt (readUIntLE_lt p off 4)

lemma toNat_getLe64 (p : List UInt8) (off : ℕ) : (getLe64 p off).toNat = readUIntLE p off 8 := by
  rw [getLe64, UInt64.toNat_ofNat']
  exact Nat.mod_eq_of_lt (readUIntLE_lt p off 8)

/-- Numbers below `2 ^ 53` survive the conversion to a double. -/
lemma jsNumber_of_lt {v : ℕ} (h : v < 2 ^ 53) : jsNumber v = v := if_pos h

/-! ## Frames -/

/-- Both encoders refuse the frame, or both produce the same bytes. -/
def EncodersAgree (frame : Frame) : Prop :=
  (encodeFrame frame.msgType.toNat frame.flags.toNat frame.requestId.toNat frame.sessionId.toNat
      frame.payload).toOption =
    (paiProtoFrameEncode frame (paiProtoHeaderSize + frame.payload.length)).toOption

/-- The COMPRESSED test of the two encoders is the same. -/
lemma flags_and_eight (flags : UInt32) :
    flags.toNat % 0x100000000 &&& 8 = (flags &&& paiProtoFlagCompressed).toNat := by
  rw [Nat.mod_eq_of_lt flags.toNat_lt, UInt32.toNat_and]
  rfl

/-- The encoders agree unless they come to write flags that do not fit their 16-bit field. -/
lemma encodersAgree_iff (frame : Frame) :
    EncodersAgree frame ↔ paiProtoMaxPayload < frame.payload.length ∨
      frame.flags &&& paiProtoFlagCompressed ≠ 0 ∨ frame.flags.toNat < 0x10000 := by
  unfold EncodersAgree encodeFrame paiProtoFrameEncode
  by_cases hlong : paiProtoMaxPayload < frame.payload.length
  · rw [if_pos hlong, if_pos (show tsMaxPayload < frame.payload.length from hlong)]
    exact ⟨fun _ => Or.inl hlong, fun _ => rfl⟩
  rw [if_neg hlong, if_neg (show ¬ tsMaxPayload < frame.payload.length from hlong)]
  have hcompressed : frame.flags.toNat % 0x100000000 &&& 8 ≠ 0 ↔
      frame.flags &&& paiProtoFlagCompressed ≠ 0 := by
    rw [flags_and_eight, ne_eq, ne_eq, ← UInt32.toNat_inj]
    rfl
  by_cases hflag : frame.flags &&& paiProtoFlagCompressed ≠ 0
  · rw [if_pos hflag, if_pos (hcompressed.mpr hflag)]
    exact ⟨fun _ => Or.inr (Or.inl hflag), fun _ => rfl⟩
  rw [if_neg hflag, if_neg (fun h => hflag (hcompressed.mp h)), if_neg (lt_irrefl _)]
  have hlen : frame.payload.length < 0x100000000 := by
    have hle : frame.payload.length ≤ 0x100000 := not_lt.mp hlong
    omega
  by_cases hfit : frame.flags.toNat < 0x10000
  · have hflags : frame.flags.toUInt16.toNat = frame.flags.toNat := by
      rw [UInt32.toNat_toUInt16]
      exact Nat.mod_eq_of_lt hfit
    have hlenNat : (UInt32.ofNat frame.payload.length).toNat = frame.payload.length := by
      rw [UInt32.toNat_ofNat']
      exact Nat.mod_eq_of_lt hlen
    refine ⟨fun _ => Or.inr (Or.inr hfit), fun _ => ?_⟩
    rw [writeUInt16LE, if_pos hfit, writeUInt32LE, if_pos frame.msgType.toNat_lt, writeUInt32LE,
      if_pos hlen, writeBigUInt64LE, if_pos frame.requestId.toNat_lt, writeBigUInt64LE,
      if_pos frame.sessionId.toNat_lt]
    simp only [putLe16, putLe32, putLe64, hflags, hlenNat, ← crc32Frame_eq]
    rfl
  · constructor
    · intro h
      rw [writeUInt16LE, if_neg hfit] at h
      cases h
    · rintro (h | h | h)
      · exact absurd h hlong
      · exact absurd h hflag
      · exact absurd h hfit

/-! ## Receivers -/

/-- The header bytes of received data. -/
abbrev headerOf (data : List UInt8) : List UInt8 := data.take 40

/-- The payload bytes of received data. -/
abbrev payloadOf (data : List UInt8) : List UInt8 :=
  (data.drop 40).take (getLe32 (headerOf data) 12).toNat

/-- The bytes are a whole frame but for its flags: magic, reserved field, length and CRC are right. -/
structure WholeFrame (data : List UInt8) : Prop where
  /-- The header is there. -/
  header : 40 ≤ data.length
  /-- The magic is right. -/
  magic : getLe32 (headerOf data) 0 = paiProtoMagic
  /-- The reserved field is zero. -/
  reserved : getLe32 (headerOf data) 36 = 0
  /-- The announced length is within the cap. -/
  capped : (getLe32 (headerOf data) 12).toNat ≤ paiProtoMaxPayload
  /-- The payload is there. -/
  complete : 40 + (getLe32 (headerOf data) 12).toNat ≤ data.length
  /-- The CRC matches. -/
  crc : getLe32 (headerOf data) 32 = frameCrc (headerOf data) (payloadOf data)

/-- The fields of received data. -/
def fieldsOf (data : List UInt8) : TsHeader :=
  { version := ((headerOf data).getD 4 0).toNat * 256 + ((headerOf data).getD 5 0).toNat
    msgType := (getLe32 (headerOf data) 8).toNat
    flags := (getLe16 (headerOf data) 6).toNat
    requestId := (getLe64 (headerOf data) 16).toNat
    sessionId := (getLe64 (headerOf data) 24).toNat
    payloadLen := (getLe32 (headerOf data) 12).toNat }

/-- The COMPRESSED flag of received data is clear. -/
def CompressedClear (data : List UInt8) : Prop :=
  (getLe16 (headerOf data) 6).toUInt32 &&& paiProtoFlagCompressed = 0

lemma length_headerOf {data : List UInt8} (h : 40 ≤ data.length) : (headerOf data).length = 40 := by
  rw [headerOf, List.length_take]
  omega

/-- The header checks of the desktop. -/
lemma decodeHeader_ok_iff {data : List UInt8} {h : TsHeader}
    (hrequest : (getLe64 (headerOf data) 16).toNat < 2 ^ 53)
    (hsession : (getLe64 (headerOf data) 24).toNat < 2 ^ 53) :
    decodeHeader (headerOf data) = .ok h ↔
      40 ≤ data.length ∧ getLe32 (headerOf data) 0 = paiProtoMagic ∧
        getLe32 (headerOf data) 36 = 0 ∧
        (getLe32 (headerOf data) 12).toNat ≤ paiProtoMaxPayload ∧ h = fieldsOf data := by
  have hlen : (headerOf data).length < 40 ↔ ¬ 40 ≤ data.length := by
    rw [headerOf, List.length_take]
    omega
  have hmagic : readUIntLE (headerOf data) 0 4 ≠ 0x50494150 ↔
      ¬ getLe32 (headerOf data) 0 = paiProtoMagic := by
    rw [← toNat_getLe32, ← UInt32.toNat_inj]
    rfl
  have hreserved : readUIntLE (headerOf data) 36 4 ≠ 0 ↔ ¬ getLe32 (headerOf data) 36 = 0 := by
    rw [← toNat_getLe32, ← UInt32.toNat_inj]
    rfl
  have hcap : tsMaxPayload < readUIntLE (headerOf data) 12 4 ↔
      ¬ (getLe32 (headerOf data) 12).toNat ≤ paiProtoMaxPayload := by
    rw [← toNat_getLe32, not_le]
    rfl
  unfold decodeHeader
  split_ifs with h1 h2 h3 h4
  · exact ⟨fun heq => (by cases heq), fun hall => absurd hall.1 (hlen.mp h1)⟩
  · exact ⟨fun heq => (by cases heq), fun hall => absurd hall.2.1 (hmagic.mp h2)⟩
  · exact ⟨fun heq => (by cases heq), fun hall => absurd hall.2.2.1 (hreserved.mp h3)⟩
  · exact ⟨fun heq => (by cases heq), fun hall => absurd hall.2.2.2.1 (hcap.mp h4)⟩
  · rw [hlen, not_not] at h1
    rw [hmagic, not_not] at h2
    rw [hreserved, not_not] at h3
    rw [hcap, not_not] at h4
    rw [← toNat_getLe32, ← toNat_getLe16, ← toNat_getLe64, ← toNat_getLe64, ← toNat_getLe32,
      jsNumber_of_lt hrequest, jsNumber_of_lt hsession]
    constructor
    · intro heq
      cases heq
      exact ⟨h1, h2, h3, h4, rfl⟩
    · rintro ⟨-, -, -, -, rfl⟩
      rfl

/-- The desktop accepts exactly the whole frames, whatever their flags. -/
lemma desktopReceive_eq {data : List UInt8} {h : TsHeader}
    (hrequest : (getLe64 (headerOf data) 16).toNat < 2 ^ 53)
    (hsession : (getLe64 (headerOf data) 24).toNat < 2 ^ 53) :
    desktopReceive data = some h ↔ WholeFrame data ∧ h = fieldsOf data := by
  have hcrc : validateFrame (headerOf data) (payloadOf data) = true ↔
      getLe32 (headerOf data) 32 = frameCrc (headerOf data) (payloadOf data) := by
    rw [validateFrame, beq_iff_eq, crc32Frame_eq, ← toNat_getLe32, UInt32.toNat_inj]
    exact eq_comm
  unfold desktopReceive
  constructor
  · intro heq
    cases hdec : decodeHeader (headerOf data) with
    | error e =>
      rw [hdec] at heq
      cases heq
    | ok g =>
      obtain ⟨hlen, hmagic, hreserved, hcap, rfl⟩ := (decodeHeader_ok_iff hrequest hsession).mp hdec
      rw [hdec] at heq
      simp only at heq
      split_ifs at heq with hshort hvalid
      cases heq
      exact ⟨⟨hlen, hmagic, hreserved, hcap, not_lt.mp hshort, hcrc.mp hvalid⟩, rfl⟩
  · rintro ⟨hw, rfl⟩
    have hdec : decodeHeader (headerOf data) = .ok (fieldsOf data) :=
      (decodeHeader_ok_iff hrequest hsession).mpr
        ⟨hw.header, hw.magic, hw.reserved, hw.capped, rfl⟩
    have hlen : (fieldsOf data).payloadLen = (getLe32 (headerOf data) 12).toNat := rfl
    rw [hdec]
    simp only
    rw [hlen, if_neg (not_lt.mpr hw.complete)]
    exact if_pos (hcrc.mpr hw.crc)

/-- The header checks of the console. -/
lemma paiProtoFrameDecode_some_iff {data : List UInt8} {h : FrameHeader} :
    paiProtoFrameDecode (headerOf data) = some h ↔
      getLe32 (headerOf data) 0 = paiProtoMagic ∧ getLe32 (headerOf data) 36 = 0 ∧
        CompressedClear data ∧ (getLe32 (headerOf data) 12).toNat ≤ paiProtoMaxPayload ∧
        h = ⟨⟨UInt16.ofNat (((headerOf data).getD 4 0).toNat * 256 +
          ((headerOf data).getD 5 0).toNat), getLe32 (headerOf data) 8,
          (getLe16 (headerOf data) 6).toUInt32, getLe64 (headerOf data) 16,
          getLe64 (headerOf data) 24, []⟩, (getLe32 (headerOf data) 12).toNat⟩ := by
  unfold paiProtoFrameDecode CompressedClear
  split_ifs with h1 h2 h3 h4
  · exact ⟨fun heq => (by cases heq), fun hall => absurd hall.1 h1⟩
  · exact ⟨fun heq => (by cases heq), fun hall => absurd hall.2.1 h2⟩
  · exact ⟨fun heq => (by cases heq), fun hall => absurd hall.2.2.1 h3⟩
  · exact ⟨fun heq => (by cases heq), fun hall => absurd hall.2.2.2.1 (not_le.mpr h4)⟩
  · rw [not_not] at h1 h2 h3
    constructor
    · intro heq
      cases heq
      exact ⟨h1, h2, h3, not_lt.mp h4, rfl⟩
    · rintro ⟨-, -, -, -, rfl⟩
      rfl

/-- The integrity check of the console on a complete frame. -/
lemma paiProtoFrameValidate_ok_iff {data : List UInt8} {h : FrameHeader}
    (hdec : paiProtoFrameDecode (headerOf data) = some h)
    (hcomplete : 40 + (getLe32 (headerOf data) 12).toNat ≤ data.length) :
    paiProtoFrameValidate (headerOf data) (payloadOf data) = paiOk ↔
      getLe32 (headerOf data) 32 = frameCrc (headerOf data) (payloadOf data) := by
  have hpayload : (payloadOf data).length = (getLe32 (headerOf data) 12).toNat := by
    rw [List.length_take, List.length_drop]
    omega
  have hlen : h.payloadLen = (getLe32 (headerOf data) 12).toNat := by
    obtain ⟨-, -, -, -, rfl⟩ := paiProtoFrameDecode_some_iff.mp hdec
    rfl
  have hthere : ¬ (0 < h.payloadLen ∧ payloadOf data = []) := by
    rintro ⟨hpos, hnil⟩
    rw [hnil, List.length_nil] at hpayload
    omega
  rw [paiProtoFrameValidate, hdec]
  simp only
  rw [if_neg hthere, hlen, ← hpayload, List.take_length]
  split_ifs with hcrc
  · exact ⟨fun heq => absurd heq (by decide), fun heq => absurd heq hcrc⟩
  · exact ⟨fun _ => not_not.mp hcrc, fun _ => rfl⟩

/-- The console accepts exactly the whole frames whose COMPRESSED flag is clear. -/
lemma consoleReceive_eq {data : List UInt8} {h : TsHeader} :
    consoleReceive data = some h ↔
      WholeFrame data ∧ CompressedClear data ∧ h = fieldsOf data := by
  have hversion : (UInt16.ofNat (((headerOf data).getD 4 0).toNat * 256 +
      ((headerOf data).getD 5 0).toNat)).toNat =
      ((headerOf data).getD 4 0).toNat * 256 + ((headerOf data).getD 5 0).toNat := by
    have hmajor := ((headerOf data).getD 4 0).toNat_lt
    have hminor := ((headerOf data).getD 5 0).toNat_lt
    rw [UInt16.toNat_ofNat']
    exact Nat.mod_eq_of_lt (by omega)
  have hflags : ((getLe16 (headerOf data) 6).toUInt32).toNat =
      (getLe16 (headerOf data) 6).toNat := UInt16.toNat_toUInt32 _
  unfold consoleReceive
  constructor
  · intro heq
    split_ifs at heq with hshort
    cases hdec : paiProtoFrameDecode (headerOf data) with
    | none =>
      rw [hdec] at heq
      cases heq
    | some g =>
      rw [hdec] at heq
      obtain ⟨hmagic, hreserved, hclear, hcap, rfl⟩ := paiProtoFrameDecode_some_iff.mp hdec
      simp only at heq
      split_ifs at heq with hincomplete hvalid
      have hcomplete : 40 + (getLe32 (headerOf data) 12).toNat ≤ data.length :=
        not_lt.mp hincomplete
      cases heq
      refine ⟨⟨not_lt.mp hshort, hmagic, hreserved, hcap, hcomplete,
        (paiProtoFrameValidate_ok_iff hdec hcomplete).mp hvalid⟩, hclear, ?_⟩
      rw [fieldsOf, hversion, hflags]
  · rintro ⟨hw, hclear, rfl⟩
    have hdec := paiProtoFrameDecode_some_iff.mpr
      ⟨hw.magic, hw.reserved, hclear, hw.capped, rfl⟩
    have hvalid := (paiProtoFrameValidate_ok_iff hdec hw.complete).mpr hw.crc
    rw [if_neg (not_lt.mpr hw.header), hdec]
    simp only
    rw [if_neg (not_lt.mpr hw.complete), if_pos hvalid, fieldsOf, hversion, hflags]

/-- The receivers agree on every byte string but the whole frames marked compressed. -/
lemma receivers_agree_iff {data : List UInt8}
    (hrequest : (getLe64 (headerOf data) 16).toNat < 2 ^ 53)
    (hsession : (getLe64 (headerOf data) 24).toNat < 2 ^ 53) :
    desktopReceive data = consoleReceive data ↔ CompressedClear data ∨ ¬ WholeFrame data := by
  by_cases hw : WholeFrame data
  · have hdesktop := (desktopReceive_eq hrequest hsession).mpr ⟨hw, rfl⟩
    by_cases hclear : CompressedClear data
    · rw [hdesktop, consoleReceive_eq.mpr ⟨hw, hclear, rfl⟩]
      exact ⟨fun _ => Or.inl hclear, fun _ => rfl⟩
    · constructor
      · intro heq
        rw [hdesktop] at heq
        exact absurd (consoleReceive_eq.mp heq.symm).2.1 hclear
      · rintro (h | h)
        · exact absurd h hclear
        · exact absurd hw h
  · have hdesktop : desktopReceive data = none := by
      rw [Option.eq_none_iff_forall_ne_some]
      intro h heq
      exact hw ((desktopReceive_eq hrequest hsession).mp heq).1
    have hconsole : consoleReceive data = none := by
      rw [Option.eq_none_iff_forall_ne_some]
      intro h heq
      exact hw (consoleReceive_eq.mp heq).1
    rw [hdesktop, hconsole]
    exact ⟨fun _ => Or.inr hw, fun _ => rfl⟩

/-! ## Samplers -/

/-- The console's sampler as the desktop holds it. -/
def TsSampler.ofProto (s : ProtoSampler) : TsSampler :=
  ⟨s.temperature, s.topP, s.topK.toNat, s.maxTokens.toNat, s.seed.toNat⟩

/-- What the desktop sends, the console decodes with the same prompt and sampler. -/
def SamplerToConsole (prompt : List UInt8) (s : ProtoSampler) : Prop :=
  ∃ payload, encodeGeneratePayload prompt (some (TsSampler.ofProto s)) = .ok payload ∧
    paiProtoMsgDecodeGenerate2 payload = some (prompt, some s)

/-- What the console sends, the desktop decodes with the same prompt and sampler. -/
def SamplerToDesktop (prompt : List UInt8) (s : ProtoSampler) : Prop :=
  ∃ payload, paiProtoMsgEncodeGenerate2 prompt (some s) (2 + prompt.length + 4 + samplerSize) =
      .ok payload ∧
    decodeGeneratePayload payload = .ok (prompt, some (TsSampler.ofProto s))

/-- The length field of a GENERATE payload and what stands behind the prompt. -/
lemma generate_parts {prompt : List UInt8} (trailer : List UInt8) (h : prompt.length ≤ 0xFFFF) :
    (getLe16 (leBytes 2 prompt.length ++ (prompt ++ trailer)) 0).toNat = prompt.length ∧
      ((leBytes 2 prompt.length ++ (prompt ++ trailer)).drop 2).take prompt.length = prompt ∧
      (leBytes 2 prompt.length ++ (prompt ++ trailer)).drop (2 + prompt.length) = trailer := by
  have hnat : (UInt16.ofNat prompt.length).toNat = prompt.length := by
    rw [UInt16.toNat_ofNat']
    exact Nat.mod_eq_of_lt (by omega)
  have hput : leBytes 2 prompt.length = putLe16 (UInt16.ofNat prompt.length) := by
    rw [putLe16, hnat]
  have hlen : (leBytes 2 prompt.length).length = 2 := length_leBytes 2 _
  refine ⟨?_, ?_, ?_⟩
  · have hget := getLe16_putLe16 [] List.length_nil (UInt16.ofNat prompt.length) (prompt ++ trailer)
    rw [List.nil_append] at hget
    rw [hput, hget, hnat]
  · rw [List.drop_left' hlen, List.take_left]
  · rw [← List.drop_drop, List.drop_left' hlen, List.drop_left]

/-- The console reads the prompt of a desktop payload and ignores its sampler. -/
lemma console_ignores_sampler {prompt : List UInt8} (s : TsSampler) (h : prompt.length ≤ 0xFFFF) :
    paiProtoMsgDecodeGenerate2 (leBytes 2 prompt.length ++ (prompt ++ tsSamplerTrailer s)) =
      some (prompt, none) := by
  obtain ⟨hlen, hprompt, htrailer⟩ := generate_parts (tsSamplerTrailer s) h
  have htotal : (leBytes 2 prompt.length ++ (prompt ++ tsSamplerTrailer s)).length =
      2 + (prompt.length + 28) := by
    simp only [tsSamplerTrailer, List.length_append, length_leBytes]
  have hblob : decodeU16Blob (leBytes 2 prompt.length ++ (prompt ++ tsSamplerTrailer s)) =
      some prompt := by
    rw [decodeU16Blob, if_neg (by omega)]
    simp only
    rw [hlen, if_neg (by omega), hprompt]
  have hmagic : getLe32 (tsSamplerTrailer s) 0 ≠ paiProtoSamplerMagic := by
    have hget := getLe32_putLe32 [] List.length_nil (UInt32.ofNat tsSamplerMagic)
      ((tsSamplerTrailer s).drop 4)
    have hsplit : tsSamplerTrailer s =
        putLe32 (UInt32.ofNat tsSamplerMagic) ++ (tsSamplerTrailer s).drop 4 := rfl
    rw [List.nil_append, ← hsplit] at hget
    rw [hget]
    decide
  rw [paiProtoMsgDecodeGenerate2, hblob]
  simp only
  rw [if_pos (by omega), htrailer, decodeSamplerTrailer, if_pos (Or.inr hmagic)]

/-- The desktop refuses a console payload that carries a sampler. -/
lemma desktop_refuses_sampler {prompt : List UInt8} (s : ProtoSampler)
    (h : prompt.length ≤ 0xFFFF) :
    decodeGeneratePayload (leBytes 2 prompt.length ++ (prompt ++ encodeSamplerTrailer s)) =
      .error (.protocol "bad sampler magic") := by
  obtain ⟨hlen, hprompt, htrailer⟩ := generate_parts (encodeSamplerTrailer s) h
  have hlong : (encodeSamplerTrailer s).length = 4 + tsSamplerSize := by
    simp only [encodeSamplerTrailer, List.length_append, length_putLe32, length_putLe64]
    rfl
  have htotal : (leBytes 2 prompt.length ++ (prompt ++ encodeSamplerTrailer s)).length =
      2 + (prompt.length + 28) := by
    rw [List.length_append, List.length_append, length_leBytes, hlong]
    rfl
  have hmagic : readUIntLE (encodeSamplerTrailer s) 0 4 ≠ tsSamplerMagic := by
    have hget := getLe32_putLe32 [] List.length_nil paiProtoSamplerMagic
      ((encodeSamplerTrailer s).drop 4)
    have hsplit : encodeSamplerTrailer s =
        putLe32 paiProtoSamplerMagic ++ (encodeSamplerTrailer s).drop 4 := rfl
    rw [List.nil_append, ← hsplit] at hget
    rw [← toNat_getLe32, hget]
    decide
  rw [toNat_getLe16] at hlen
  rw [decodeGeneratePayload, if_neg (by omega)]
  simp only
  rw [hlen, if_neg (by omega), htrailer, if_pos hlong, if_pos hmagic]

/-- No sampler reaches the console. -/
lemma not_samplerToConsole (prompt : List UInt8) (s : ProtoSampler) :
    ¬ SamplerToConsole prompt s := by
  rintro ⟨payload, hencode, hdecode⟩
  unfold encodeGeneratePayload at hencode
  split_ifs at hencode with hlong
  cases hencode
  rw [Option.map_some, Option.getD_some,
    console_ignores_sampler _ (not_lt.mp hlong)] at hdecode
  cases hdecode

/-- No sampler reaches the desktop. -/
lemma not_samplerToDesktop (prompt : List UInt8) (s : ProtoSampler) :
    ¬ SamplerToDesktop prompt s := by
  rintro ⟨payload, hencode, hdecode⟩
  unfold paiProtoMsgEncodeGenerate2 at hencode
  set sent := prompt.take (prompt.length % 0x100000000) with hsent
  simp only at hencode
  split_ifs at hencode with hlong hcap
  have hle : sent.length ≤ 0xFFFF := not_lt.mp hlong
  have hput : putLe16 (UInt16.ofNat sent.length) = leBytes 2 sent.length := by
    rw [putLe16, UInt16.toNat_ofNat']
    rw [Nat.mod_eq_of_lt (show sent.length < 2 ^ 16 by omega)]
  cases hencode
  rw [hput, desktop_refuses_sampler s hle] at hdecode
  cases hdecode

/-! ## Agreement -/

/-- Where the two codecs agree: the encoders on every frame unless they come to write flags beyond 16
bits; the receivers on every byte string but a whole frame marked compressed; on samplers never. -/
theorem codecs_agree_iff (frame : Frame) (data prompt : List UInt8) (s : ProtoSampler)
    (_hframe : frame.requestId.toNat < 2 ^ 53 ∧ frame.sessionId.toNat < 2 ^ 53)
    (hdata : (getLe64 (headerOf data) 16).toNat < 2 ^ 53 ∧
      (getLe64 (headerOf data) 24).toNat < 2 ^ 53)
    (_hprompt : prompt.length ≤ 65535) (_hseed : s.seed.toNat < 2 ^ 53) :
    (EncodersAgree frame ↔ paiProtoMaxPayload < frame.payload.length ∨
        frame.flags &&& paiProtoFlagCompressed ≠ 0 ∨ frame.flags.toNat < 0x10000) ∧
      (desktopReceive data = consoleReceive data ↔ CompressedClear data ∨ ¬ WholeFrame data) ∧
      ¬ SamplerToConsole prompt s ∧ ¬ SamplerToDesktop prompt s := by
  refine ⟨?_, ?_, ?_, ?_⟩
  · exact encodersAgree_iff frame
  · exact receivers_agree_iff hdata.1 hdata.2
  · exact not_samplerToConsole prompt s
  · exact not_samplerToDesktop prompt s

/-- On a PING the encoders agree. -/
theorem codecs_agree_iff_ping : EncodersAgree ⟨1, paiProtoMsgPing, 0, 7, 9, []⟩ := by
  have h := codecs_agree_iff ⟨1, paiProtoMsgPing, 0, 7, 9, []⟩ [] [] ⟨0, 0, 0, 0, 0⟩ (by decide)
    (by decide) (by decide) (by decide)
  exact h.1.mpr (Or.inr (Or.inr (by decide)))

/-- The sampler of a desktop request is lost: temperature 1.0, top-p 1.0, 40 candidates, 64 tokens and
seed 7 arrive as no sampler at all. -/
theorem generate_sampler_ignored :
    ¬ SamplerToConsole [104, 105] ⟨0x3F800000, 0x3F800000, 40, 64, 7⟩ := by
  rintro ⟨payload, hencode, hdecode⟩
  cases hencode
  exact absurd hdecode (by decide)

end Prospero
