import Prospero.Protocol.Message
import Prospero.Protocol.Negotiation

/-!
# One frame format

The frame header is written twice, by `pai_proto_frame_encode` (`protocol/frame.c`) and by
`conn_send_unchecked` (`protocol/connection.c`), and read once, by `pai_proto_frame_decode` and
`pai_proto_frame_validate`.  The two writers produce the same bytes, the reader gives the fields back,
and the format has one encoding only: an accepted header with its payload is what the writer makes of
the decoded frame.

### Outline

* Fields: a field that was read is written back as the bytes it was read from.
* Headers: an accepted header is cut into its fields.
* Main result: `frameCodec_canonical`.
-/

namespace Prospero

open ByteString

variable {U : Type}

/-- `PAI_PROTO_VERSION`: the version this side puts into every header. -/
def paiProtoVersion : UInt16 :=
  (paiProtoVersionMajor.toUInt16 <<< (8 : UInt16)) ||| paiProtoVersionMinor.toUInt16

/-! ## Fields -/

/-- The `n` bytes at `off` are there. -/
lemma length_field {p : List UInt8} {off n : ℕ} (h : off + n ≤ p.length) :
    ((p.drop off).take n).length = n := by
  rw [List.length_take, List.length_drop]
  omega

/-- Writing back a field of `n` bytes. -/
lemma leBytes_field {p : List UInt8} {off n : ℕ} (h : off + n ≤ p.length) :
    leBytes n (leNat ((p.drop off).take n)) = (p.drop off).take n := by
  have hback := leBytes_leNat ((p.drop off).take n)
  rwa [length_field h] at hback

/-- A field of `n` bytes denotes a number below `256 ^ n`. -/
lemma leNat_field_lt (p : List UInt8) (off n : ℕ) :
    leNat ((p.drop off).take n) < 256 ^ n := by
  have hlen : ((p.drop off).take n).length ≤ n := List.length_take_le _ _
  exact (leNat_lt _).trans_le (Nat.pow_le_pow_right (by decide) hlen)

/-- A 16-bit field is written back as it was read. -/
lemma putLe16_getLe16 {p : List UInt8} {off : ℕ} (h : off + 2 ≤ p.length) :
    putLe16 (getLe16 p off) = (p.drop off).take 2 := by
  have hlt : leNat ((p.drop off).take 2) < 2 ^ 16 := leNat_field_lt p off 2
  rw [putLe16, getLe16, UInt16.toNat_ofNat', Nat.mod_eq_of_lt hlt, leBytes_field h]

/-- A 32-bit field is written back as it was read. -/
lemma putLe32_getLe32 {p : List UInt8} {off : ℕ} (h : off + 4 ≤ p.length) :
    putLe32 (getLe32 p off) = (p.drop off).take 4 := by
  have hlt : leNat ((p.drop off).take 4) < 2 ^ 32 := leNat_field_lt p off 4
  rw [putLe32, getLe32, UInt32.toNat_ofNat', Nat.mod_eq_of_lt hlt, leBytes_field h]

/-- A 64-bit field is written back as it was read. -/
lemma putLe64_getLe64 {p : List UInt8} {off : ℕ} (h : off + 8 ≤ p.length) :
    putLe64 (getLe64 p off) = (p.drop off).take 8 := by
  have hlt : leNat ((p.drop off).take 8) < 2 ^ 64 := leNat_field_lt p off 8
  rw [putLe64, getLe64, UInt64.toNat_ofNat', Nat.mod_eq_of_lt hlt, leBytes_field h]

/-- Joining a field to what follows it. -/
lemma field_append (p : List UInt8) (off n : ℕ) :
    (p.drop off).take n ++ p.drop (off + n) = p.drop off := by
  rw [← List.drop_drop, List.take_append_drop]

/-- The version bytes of this side are `0` and `1`. -/
lemma version_bytes {major minor : UInt8}
    (h : UInt16.ofNat (major.toNat * 256 + minor.toNat) = paiProtoVersion) :
    major = paiProtoVersionMajor ∧ minor = paiProtoVersionMinor := by
  have hmajor : major.toNat < 256 := major.toNat_lt
  have hminor : minor.toNat < 256 := minor.toNat_lt
  have hnat : major.toNat * 256 + minor.toNat = 1 := by
    have hval := congrArg UInt16.toNat h
    rw [UInt16.toNat_ofNat', Nat.mod_eq_of_lt (by omega)] at hval
    exact hval
  constructor
  · exact UInt8.toNat_inj.mp (show major.toNat = 0 by omega)
  · exact UInt8.toNat_inj.mp (show minor.toNat = 1 by omega)

/-! ## Headers -/

/-- What `pai_proto_frame_decode` checked and read. -/
lemma paiProtoFrameDecode_fields {header : List UInt8} {h : FrameHeader}
    (hdec : paiProtoFrameDecode header = some h) :
    getLe32 header 0 = paiProtoMagic ∧ getLe32 header 36 = 0 ∧
      (getLe16 header 6).toUInt32 &&& paiProtoFlagCompressed = 0 ∧
      (getLe32 header 12).toNat ≤ paiProtoMaxPayload ∧
      h = ⟨⟨UInt16.ofNat ((header.getD 4 0).toNat * 256 + (header.getD 5 0).toNat),
        getLe32 header 8, (getLe16 header 6).toUInt32, getLe64 header 16, getLe64 header 24, []⟩,
        (getLe32 header 12).toNat⟩ := by
  unfold paiProtoFrameDecode at hdec
  split_ifs at hdec with hmagic hreserved hcompressed hlong
  cases hdec
  exact ⟨not_not.mp hmagic, not_not.mp hreserved, not_not.mp hcompressed, not_lt.mp hlong, rfl⟩

/-- What `pai_proto_frame_validate` compared. -/
lemma paiProtoFrameValidate_crc {header payload : List UInt8} {h : FrameHeader}
    (hdec : paiProtoFrameDecode header = some h) (hlen : payload.length = h.payloadLen)
    (hvalid : paiProtoFrameValidate header payload = paiOk) :
    getLe32 header 32 = frameCrc header payload := by
  unfold paiProtoFrameValidate at hvalid
  rw [hdec] at hvalid
  simp only at hvalid
  split_ifs at hvalid with hnull hcrc
  · exact absurd hvalid (by decide)
  · exact absurd hvalid (by decide)
  · rw [← hlen, List.take_length] at hcrc
    exact not_not.mp hcrc

/-- The two version bytes of a header. -/
lemma version_append {header : List UInt8} (hlen : header.length = 40) :
    [header.getD 4 0, header.getD 5 0] ++ header.drop 6 = header.drop 4 := by
  have hmajor : 4 < header.length := by omega
  have hminor : 4 + 1 < header.length := by omega
  rw [List.drop_eq_getElem_cons hmajor, List.drop_eq_getElem_cons hminor,
    List.getD_eq_getElem header 0 hmajor, List.getD_eq_getElem header 0 hminor]
  rfl

/-- The covered bytes of a header are its fields, one after the other. -/
lemma covered_eq_fields {header : List UInt8} (hlen : header.length = 40) :
    header.take 32 = (header.drop 0).take 4 ++
      [header.getD 4 0, header.getD 5 0] ++ (header.drop 6).take 2 ++ (header.drop 8).take 4 ++
      (header.drop 12).take 4 ++ (header.drop 16).take 8 ++ (header.drop 24).take 8 := by
  set fields := (header.drop 0).take 4 ++
    [header.getD 4 0, header.getD 5 0] ++ (header.drop 6).take 2 ++ (header.drop 8).take 4 ++
    (header.drop 12).take 4 ++ (header.drop 16).take 8 ++ (header.drop 24).take 8 with hfields
  have hall : fields ++ header.drop 32 = header := by
    rw [hfields]
    simp only [List.append_assoc]
    rw [field_append header 24 8, field_append header 16 8, field_append header 12 4,
      field_append header 8 4, field_append header 6 2, version_append hlen,
      field_append header 0 4, List.drop_zero]
  have hwidth : fields.length = 32 := by
    have hsum := congrArg List.length hall
    rw [List.length_append, List.length_drop, hlen] at hsum
    omega
  have htake : (fields ++ header.drop 32).take 32 = fields := List.take_left' hwidth
  rwa [hall] at htake

/-- A header is its covered bytes, the CRC and the reserved field. -/
lemma header_eq_covered {header : List UInt8} (hlen : header.length = 40) :
    header = header.take 32 ++ (header.drop 32).take 4 ++
      (header.drop 36).take 4 := by
  have hlast : (header.drop 36).take 4 = header.drop 36 := by
    apply List.take_of_length_le
    rw [List.length_drop, hlen]
  rw [hlast, List.append_assoc, field_append header 32 4, List.take_append_drop]

/-- An accepted covered part is what the writer makes of the decoded frame. -/
lemma frameHeaderCovered_decoded {header payload : List UInt8} {h : FrameHeader}
    (hlen : header.length = 40) (hdec : paiProtoFrameDecode header = some h)
    (hversion : h.frame.version = paiProtoVersion) (hpayload : payload.length = h.payloadLen) :
    frameHeaderCovered { h.frame with payload := payload } =
      header.take 32 := by
  obtain ⟨hmagic, -, -, -, rfl⟩ := paiProtoFrameDecode_fields hdec
  obtain ⟨hmajor, hminor⟩ := version_bytes hversion
  have hlength : UInt32.ofNat payload.length = getLe32 header 12 := by
    rw [hpayload, UInt32.ofNat_toNat]
  rw [covered_eq_fields hlen, hmajor, hminor]
  unfold frameHeaderCovered
  simp only [hlength, UInt16.toUInt16_toUInt32]
  rw [← hmagic, putLe32_getLe32 (by omega), putLe16_getLe16 (by omega), putLe32_getLe32 (by omega),
    putLe32_getLe32 (by omega), putLe64_getLe64 (by omega), putLe64_getLe64 (by omega)]

/-- An accepted header is what the writer makes of the decoded frame. -/
lemma frameHeader_decoded {header payload : List UInt8} {h : FrameHeader}
    (hlen : header.length = 40) (hdec : paiProtoFrameDecode header = some h)
    (hversion : h.frame.version = paiProtoVersion) (hpayload : payload.length = h.payloadLen)
    (hvalid : paiProtoFrameValidate header payload = paiOk) :
    frameHeader { h.frame with payload := payload } = header := by
  have hcovered := frameHeaderCovered_decoded hlen hdec hversion hpayload
  have hcrc := paiProtoFrameValidate_crc hdec hpayload hvalid
  have hreserved : (header.drop 36).take 4 = [0, 0, 0, 0] := by
    rw [← putLe32_getLe32 (by omega), (paiProtoFrameDecode_fields hdec).2.1]
    rfl
  have hstored : (header.drop 32).take 4 = putLe32 (frameCrc header payload) := by
    rw [← hcrc, putLe32_getLe32 (by omega)]
  rw [frameHeader, hcovered]
  change header.take 32 ++ putLe32 (frameCrc header payload) ++ [0, 0, 0, 0] = header
  calc header.take 32 ++ putLe32 (frameCrc header payload) ++ [0, 0, 0, 0]
      = header.take 32 ++ (header.drop 32).take 4 ++
          (header.drop 36).take 4 := by rw [hstored, hreserved]
    _ = header := (header_eq_covered hlen).symm

/-! ## The two writers -/

/-- A frame within the claims of the format, in the terms of the C code. -/
lemma sendable_of_flags {frame : Frame} (hlen : frame.payload.length ≤ paiProtoMaxPayload)
    (hflags : frame.flags.toNat < 0x10000)
    (hplain : frame.flags &&& paiProtoFlagCompressed = 0) : frame.Sendable := by
  refine ⟨hlen, ?_, hplain⟩
  apply UInt32.toNat_inj.mp
  rw [UInt16.toNat_toUInt32, UInt32.toNat_toUInt16]
  exact Nat.mod_eq_of_lt hflags

/-- The stand-alone encoder writes the header of the send path. -/
lemma paiProtoFrameEncode_eq {frame : Frame} {cap : ℕ}
    (hlen : frame.payload.length ≤ paiProtoMaxPayload)
    (hplain : frame.flags &&& paiProtoFlagCompressed = 0)
    (hcap : paiProtoHeaderSize + frame.payload.length ≤ cap) :
    paiProtoFrameEncode frame cap = .ok (frameBytes frame) := by
  rw [paiProtoFrameEncode, if_neg (not_lt.mpr hlen), if_neg (not_not.mpr hplain),
    if_neg (not_lt.mpr hcap), frameBytes]
  rfl

/-- The send path hands the same bytes to the transport, in one or two pieces. -/
lemma connSendUnchecked_eq (e : Endpoint U) {frame : Frame}
    (hlen : frame.payload.length ≤ paiProtoMaxPayload)
    (hplain : frame.flags &&& paiProtoFlagCompressed = 0) :
    connSendUnchecked e frame = transportSend e (frameBytes frame) := by
  rw [connSendUnchecked, if_neg (not_lt.mpr hlen), if_neg (not_not.mpr hplain)]
  cases hclosed : e.txClosed with
  | true => simp [transportSend, hclosed, paiErrIo, paiOk]
  | false =>
    by_cases hpos : 0 < frame.payload.length
    · simp [transportSend, hclosed, hpos, frameBytes]
    · have hnil : frame.payload = [] := by
        rw [← List.length_eq_zero_iff]
        omega
      simp [transportSend, hclosed, hnil, frameBytes]

/-! ## Main result -/

/-- **The two writers and the reader describe one format.**  For every frame within
`PAI_PROTO_MAX_PAYLOAD` whose flags fit 16 bits and lack COMPRESSED, the send path hands the transport
the bytes of the stand-alone encoder, and these bytes decode to the frame's fields and pass the
integrity check.  Conversely a header and payload that decode with the version of this side and pass
the check are the encoding of the decoded frame. -/
theorem frameCodec_canonical :
    (∀ (frame : Frame) (cap : ℕ), frame.payload.length ≤ paiProtoMaxPayload →
      frame.flags.toNat < 0x10000 → frame.flags &&& paiProtoFlagCompressed = 0 →
      paiProtoHeaderSize + frame.payload.length ≤ cap →
      ∃ bytes, paiProtoFrameEncode frame cap = .ok bytes ∧
        (∀ {U : Type} (e : Endpoint U), connSendUnchecked e frame = transportSend e bytes) ∧
        paiProtoFrameDecode (bytes.take paiProtoHeaderSize) =
          some ⟨{ frame with version := paiProtoVersion, payload := [] }, frame.payload.length⟩ ∧
        bytes.drop paiProtoHeaderSize = frame.payload ∧
        paiProtoFrameValidate (bytes.take paiProtoHeaderSize) (bytes.drop paiProtoHeaderSize) =
          paiOk) ∧
    (∀ (header payload : List UInt8) (h : FrameHeader), header.length = paiProtoHeaderSize →
      paiProtoFrameDecode header = some h → h.frame.version = paiProtoVersion →
      payload.length = h.payloadLen → paiProtoFrameValidate header payload = paiOk →
      paiProtoFrameEncode { h.frame with payload := payload } (paiProtoHeaderSize + payload.length) =
        .ok (header ++ payload)) := by
  constructor
  · intro frame cap hlen hflags hplain hcap
    have hsend := sendable_of_flags hlen hflags hplain
    have htake : (frameBytes frame).take paiProtoHeaderSize = frameHeader frame := by
      rw [frameBytes]
      exact List.take_left' (length_frameHeader frame)
    have hdrop : (frameBytes frame).drop paiProtoHeaderSize = frame.payload := by
      rw [frameBytes]
      exact List.drop_left' (length_frameHeader frame)
    refine ⟨frameBytes frame, paiProtoFrameEncode_eq hlen hplain hcap,
      fun e => connSendUnchecked_eq e hlen hplain, ?_, hdrop, ?_⟩
    · rw [htake, paiProtoFrameDecode_frameHeader hsend]
      rfl
    · rw [htake, hdrop, paiProtoFrameValidate_frameHeader hsend]
  · intro header payload h hlen hdec hversion hpayload hvalid
    obtain ⟨-, -, hplain, hcap, hh⟩ := paiProtoFrameDecode_fields hdec
    have hflags : h.frame.flags &&& paiProtoFlagCompressed = 0 := by
      rw [hh]
      exact hplain
    have hlength : payload.length ≤ paiProtoMaxPayload := by
      rw [hpayload, hh]
      exact hcap
    have hencode : paiProtoFrameEncode { h.frame with payload := payload }
        (paiProtoHeaderSize + payload.length) =
        .ok (frameBytes { h.frame with payload := payload }) :=
      paiProtoFrameEncode_eq hlength hflags le_rfl
    rw [hencode, frameBytes, frameHeader_decoded hlen hdec hversion hpayload hvalid]

/-- A PING with two content bytes, sent over any transport. -/
theorem frameCodec_canonical_ping :
    ∃ bytes, paiProtoFrameEncode ⟨0, paiProtoMsgPing, 0, 7, 0, [1, 2]⟩ 42 = .ok bytes ∧
      (∀ {U : Type} (e : Endpoint U),
        connSendUnchecked e ⟨0, paiProtoMsgPing, 0, 7, 0, [1, 2]⟩ = transportSend e bytes) := by
  obtain ⟨bytes, hencode, hsend, -⟩ :=
    frameCodec_canonical.1 ⟨0, paiProtoMsgPing, 0, 7, 0, [1, 2]⟩ 42 (by decide) (by decide)
      (by decide) (by decide)
  exact ⟨bytes, hencode, hsend⟩

end Prospero
