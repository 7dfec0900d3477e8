import Mathlib
import Prospero.Lib.Bytes
import Prospero.Status

/-!
# Wire format of the Prospero Protocol

The 40-byte frame header with its CRC-32 (`protocol/frame.c`, `protocol/crc32.c`) and the payload
codecs the connection core uses (`protocol/message.c`).

A frame is its header fields and its payload; `payload_len` is the length of the payload.
`paiProtoFrameDecode` reads a header, `paiProtoFrameValidate` checks a complete frame, and
`frameHeader` is the header the send path builds.  The last section shows that what is sent is
what is read back.
-/

namespace Prospero

open ByteString

/-! ## Constants -/

/-- `PAI_PROTO_VERSION_MAJOR`. -/
def paiProtoVersionMajor : UInt8 := 0
/-- `PAI_PROTO_VERSION_MINOR`. -/
def paiProtoVersionMinor : UInt8 := 1
/-- `PAI_PROTO_MAGIC`: the bytes `50 41 49 50`. -/
def paiProtoMagic : UInt32 := 0x50494150
/-- `PAI_PROTO_HEADER_SIZE`. -/
abbrev paiProtoHeaderSize : ℕ := 40
/-- `PAI_PROTO_MAX_PAYLOAD`. -/
abbrev paiProtoMaxPayload : ℕ := 0x100000

/-- `PAI_PROTO_FLAG_REPLY`. -/
def paiProtoFlagReply : UInt32 := 1
/-- `PAI_PROTO_FLAG_STREAM_START`. -/
def paiProtoFlagStreamStart : UInt32 := 2
/-- `PAI_PROTO_FLAG_STREAM_END`. -/
def paiProtoFlagStreamEnd : UInt32 := 4
/-- `PAI_PROTO_FLAG_COMPRESSED`. -/
def paiProtoFlagCompressed : UInt32 := 8

/-- `PAI_PROTO_MSG_HELLO`. -/
def paiProtoMsgHello : UInt32 := 0x0001
/-- `PAI_PROTO_MSG_HELLO_ACK`. -/
def paiProtoMsgHelloAck : UInt32 := 0x0002
/-- `PAI_PROTO_MSG_HELLO_NACK`. -/
def paiProtoMsgHelloNack : UInt32 := 0x0003
/-- `PAI_PROTO_MSG_PING`. -/
def paiProtoMsgPing : UInt32 := 0x0004
/-- `PAI_PROTO_MSG_PONG`. -/
def paiProtoMsgPong : UInt32 := 0x0005
/-- `PAI_PROTO_MSG_ERROR`. -/
def paiProtoMsgError : UInt32 := 0x0006
/-- `PAI_PROTO_MSG_CLOSE`. -/
def paiProtoMsgClose : UInt32 := 0x0007
/-- `PAI_PROTO_MSG_TOKEN`. -/
def paiProtoMsgToken : UInt32 := 0x0203
/-- `PAI_PROTO_MSG_COMPLETE`. -/
def paiProtoMsgComplete : UInt32 := 0x0204
/-- `PAI_PROTO_MSG_STREAM_DATA`. -/
def paiProtoMsgStreamData : UInt32 := 0x0301
/-- `PAI_PROTO_MSG_STREAM_CLOSE`. -/
def paiProtoMsgStreamClose : UInt32 := 0x0302

/-- `PAI_PROTO_STREAM_GENERATE`: the stream kind reported for TOKEN frames. -/
def paiProtoStreamGenerate : UInt8 := 5

/-- `PAI_PROTO_NACK_VERSION`. -/
def paiProtoNackVersion : UInt32 := 1
/-- `PAI_PROTO_NACK_CAPS`. -/
def paiProtoNackCaps : UInt32 := 2

/-- `PAI_PROTO_CLOSE_NORMAL`. -/
def paiProtoCloseNormal : UInt32 := 0
/-- `PAI_PROTO_CLOSE_PROTOCOL`. -/
def paiProtoCloseProtocol : UInt32 := 1
/-- `PAI_PROTO_CLOSE_PEER_GONE`. -/
def paiProtoClosePeerGone : UInt32 := 3

/-- `PAI_PROTO_CAP_KNOWN`: the seven capability bits of v0. -/
def paiProtoCapKnown : UInt32 := 0x7F

/-! ## Little-endian fields -/

/-- `put_le16`. -/
def putLe16 (v : UInt16) : List UInt8 := leBytes 2 v.toNat
/-- `put_le32`. -/
def putLe32 (v : UInt32) : List UInt8 := leBytes 4 v.toNat
/-- `put_le64`. -/
def putLe64 (v : UInt64) : List UInt8 := leBytes 8 v.toNat

/-- `get_le16(p + off)`. -/
def getLe16 (p : List UInt8) (off : ℕ) : UInt16 := UInt16.ofNat (leNat ((p.drop off).take 2))
/-- `get_le32(p + off)`. -/
def getLe32 (p : List UInt8) (off : ℕ) : UInt32 := UInt32.ofNat (leNat ((p.drop off).take 4))
/-- `get_le64(p + off)`. -/
def getLe64 (p : List UInt8) (off : ℕ) : UInt64 := UInt64.ofNat (leNat ((p.drop off).take 8))

/-! ## CRC-32 -/

/-- One bit of the reflected polynomial division in `crc_table_build`. -/
def crcBit (crc : UInt32) : UInt32 :=
  if crc &&& 1 ≠ 0 then (crc >>> 1) ^^^ 0xEDB88320 else crc >>> 1

/-- The entry `crc_table[i]` built by `crc_table_build`. -/
def crcTable (i : UInt32) : UInt32 := crcBit^[8] i

/-- `pai_proto_crc32_init`. -/
def paiProtoCrc32Init : UInt32 := 0xFFFFFFFF

/-- `pai_proto_crc32_upd`. -/
def paiProtoCrc32Upd (running : UInt32) (data : List UInt8) : UInt32 :=
  data.foldl (fun r b => crcTable ((r ^^^ b.toUInt32) &&& 0xFF) ^^^ (r >>> 8)) running

/-- `pai_proto_crc32_fin`. -/
def paiProtoCrc32Fin (running : UInt32) : UInt32 := running ^^^ 0xFFFFFFFF

/-! ## Frames -/

/-- `pai_proto_frame_t`.  `payload_len` is the length of `payload`. -/
structure Frame where
  /-- Sender protocol version, major in the high byte. -/
  version : UInt16
  /-- Message type. -/
  msgType : UInt32
  /-- Flag bits. -/
  flags : UInt32
  /-- Correlation id, `0` for connection-level frames. -/
  requestId : UInt64
  /-- Session id, `0` for connection-level frames. -/
  sessionId : UInt64
  /-- Content bytes. -/
  payload : List UInt8
deriving DecidableEq

/-- A decoded header awaiting its payload: the frame with the announced payload length. -/
structure FrameHeader where
  /-- The header fields; the payload is still empty. -/
  frame : Frame
  /-- `payload_len`. -/
  payloadLen : ℕ
deriving DecidableEq

/-- `pai_proto_frame_decode`: parse a header, `none` standing for `PAI_ERR_PROTOCOL`. -/
def paiProtoFrameDecode (data : List UInt8) : Option FrameHeader :=
  if getLe32 data 0 ≠ paiProtoMagic then none
  else if getLe32 data 36 ≠ 0 then none
  else if (getLe16 data 6).toUInt32 &&& paiProtoFlagCompressed ≠ 0 then none
  else if paiProtoMaxPayload < (getLe32 data 12).toNat then none
  else some
    { frame :=
        { version := UInt16.ofNat ((data.getD 4 0).toNat * 256 + (data.getD 5 0).toNat)
          flags := (getLe16 data 6).toUInt32
          msgType := getLe32 data 8
          requestId := getLe64 data 16
          sessionId := getLe64 data 24
          payload := [] }
      payloadLen := (getLe32 data 12).toNat }

/-- The CRC-32 of a frame: header bytes `[0, 32)` and the payload. -/
def frameCrc (header payload : List UInt8) : UInt32 :=
  paiProtoCrc32Fin
    (paiProtoCrc32Upd (paiProtoCrc32Upd paiProtoCrc32Init (header.take (paiProtoHeaderSize - 8)))
      payload)

/-- `pai_proto_frame_validate`: recompute and compare the CRC of a complete frame.  A missing
payload buffer is the empty payload. -/
def paiProtoFrameValidate (header payload : List UInt8) : PaiStatus :=
  match paiProtoFrameDecode header with
  | none => paiErrProtocol
  | some f =>
    if 0 < f.payloadLen ∧ payload = [] then paiErrInvalidArg
    else if getLe32 header 32 ≠ frameCrc header (payload.take f.payloadLen) then paiErrProtocol
    else paiOk

/-- The header bytes `[0, 32)` built by `conn_send_unchecked`. -/
def frameHeaderCovered (frame : Frame) : List UInt8 :=
  putLe32 paiProtoMagic ++ [paiProtoVersionMajor, paiProtoVersionMinor] ++
    putLe16 frame.flags.toUInt16 ++ putLe32 frame.msgType ++
    putLe32 (UInt32.ofNat frame.payload.length) ++ putLe64 frame.requestId ++
    putLe64 frame.sessionId

/-- The complete 40-byte header built by `conn_send_unchecked`: covered bytes, CRC, reserved. -/
def frameHeader (frame : Frame) : List UInt8 :=
  frameHeaderCovered frame ++
    putLe32 (paiProtoCrc32Fin (paiProtoCrc32Upd (paiProtoCrc32Upd paiProtoCrc32Init
      (frameHeaderCovered frame)) frame.payload)) ++ [0, 0, 0, 0]

/-! ## Payload codecs -/

/-- `PAI_PROTO_U32_PAIR_SIZE`. -/
abbrev paiProtoU32PairSize : ℕ := 8

/-- `pai_proto_msg_encode_u32` into a buffer of `PAI_PROTO_U32_PAIR_SIZE` bytes. -/
def paiProtoMsgEncodeU32 (value : UInt32) : List UInt8 := putLe32 value ++ putLe32 0

/-- `pai_proto_msg_decode_u32`. -/
def paiProtoMsgDecodeU32 (payload : List UInt8) : Option UInt32 :=
  if payload.length < paiProtoU32PairSize then none else some (getLe32 payload 0)

/-- `pai_proto_msg_encode_caps`. -/
def paiProtoMsgEncodeCaps (caps : UInt32) : List UInt8 := paiProtoMsgEncodeU32 caps

/-- `pai_proto_msg_decode_caps`. -/
def paiProtoMsgDecodeCaps (payload : List UInt8) : Option UInt32 := paiProtoMsgDecodeU32 payload

/-- `pai_proto_msg_encode_error` with a message of at most 255 bytes. -/
def paiProtoMsgEncodeError (status : PaiStatus) (msg : String) : List UInt8 :=
  let text := msg.toUTF8.toList.take 255
  putLe32 status.toUInt32 ++ putLe32 (UInt32.ofNat text.length) ++ text

/-- `decode_u16_blob`: a `u16` length followed by that many bytes. -/
def decodeU16Blob (payload : List UInt8) : Option (List UInt8) :=
  if payload.length < 2 then none
  else
    let blobLen := (getLe16 payload 0).toNat
    if payload.length - 2 < blobLen then none
    else some ((payload.drop 2).take blobLen)

/-- `pai_proto_msg_decode_token`. -/
def paiProtoMsgDecodeToken (payload : List UInt8) : Option (List UInt8) := decodeU16Blob payload

/-- The fields of a STREAM_DATA payload. -/
structure StreamChunk where
  /-- Stream kind. -/
  kind : UInt8
  /-- Sender's ordinal. -/
  seq : UInt32
  /-- Content bytes. -/
  data : List UInt8
deriving DecidableEq

/-- `pai_proto_msg_decode_stream_data`. -/
def paiProtoMsgDecodeStreamData (payload : List UInt8) : Option StreamChunk :=
  if payload.length < 12 then none
  else
    let dataLen := (getLe32 payload 8).toNat
    if payload.length - 12 < dataLen then none
    else some
      { kind := payload.getD 0 0
        seq := getLe32 payload 4
        data := (payload.drop 12).take dataLen }

/-! ## What is sent is what is read back -/

@[simp] theorem length_putLe16 (v : UInt16) : (putLe16 v).length = 2 := length_leBytes 2 _

@[simp] theorem length_putLe32 (v : UInt32) : (putLe32 v).length = 4 := length_leBytes 4 _

@[simp] theorem length_putLe64 (v : UInt64) : (putLe64 v).length = 8 := length_leBytes 8 _

/-- A 16-bit field is read back from where it was put. -/
theorem getLe16_putLe16 (pre : List UInt8) {off : ℕ} (hoff : pre.length = off) (v : UInt16)
    (post : List UInt8) : getLe16 (pre ++ (putLe16 v ++ post)) off = v := by
  have hlen : (putLe16 v).length = 2 := length_putLe16 v
  rw [getLe16, List.drop_left' hoff, List.take_left' hlen, putLe16,
    leNat_leBytes_of_lt v.toNat_lt, UInt16.ofNat_toNat]

/-- A 32-bit field is read back from where it was put. -/
theorem getLe32_putLe32 (pre : List UInt8) {off : ℕ} (hoff : pre.length = off) (v : UInt32)
    (post : List UInt8) : getLe32 (pre ++ (putLe32 v ++ post)) off = v := by
  have hlen : (putLe32 v).length = 4 := length_putLe32 v
  rw [getLe32, List.drop_left' hoff, List.take_left' hlen, putLe32,
    leNat_leBytes_of_lt v.toNat_lt, UInt32.ofNat_toNat]

/-- A 64-bit field is read back from where it was put. -/
theorem getLe64_putLe64 (pre : List UInt8) {off : ℕ} (hoff : pre.length = off) (v : UInt64)
    (post : List UInt8) : getLe64 (pre ++ (putLe64 v ++ post)) off = v := by
  have hlen : (putLe64 v).length = 8 := length_putLe64 v
  rw [getLe64, List.drop_left' hoff, List.take_left' hlen, putLe64,
    leNat_leBytes_of_lt v.toNat_lt, UInt64.ofNat_toNat]

/-- A `u32` payload decodes to what was encoded. -/
@[simp] theorem paiProtoMsgDecodeU32_encode (value : UInt32) :
    paiProtoMsgDecodeU32 (paiProtoMsgEncodeU32 value) = some value := by
  have hget : getLe32 (paiProtoMsgEncodeU32 value) 0 = value :=
    getLe32_putLe32 [] rfl value (putLe32 0)
  rw [paiProtoMsgDecodeU32, if_neg (by simp [paiProtoMsgEncodeU32]), hget]

/-- The frames `conn_send_unchecked` accepts, with flags that fit their 16-bit field. -/
structure Frame.Sendable (frame : Frame) : Prop where
  /-- The payload is within `PAI_PROTO_MAX_PAYLOAD`. -/
  payload_le : frame.payload.length ≤ paiProtoMaxPayload
  /-- The flags fit the header field. -/
  flags_fit : frame.flags.toUInt16.toUInt32 = frame.flags
  /-- The payload is not marked compressed. -/
  not_compressed : frame.flags &&& paiProtoFlagCompressed = 0

/-- The frame the peer decodes: the sender's version is stamped into the header. -/
def Frame.received (frame : Frame) : Frame := { frame with version := 1 }

/-- The covered header bytes. -/
@[simp] theorem length_frameHeaderCovered (frame : Frame) :
    (frameHeaderCovered frame).length = 32 := by
  simp [frameHeaderCovered]

/-- The header is 40 bytes long. -/
@[simp] theorem length_frameHeader (frame : Frame) :
    (frameHeader frame).length = paiProtoHeaderSize := by
  simp [frameHeader]

/-- The header of a sendable frame decodes to the frame's fields and its payload length. -/
theorem paiProtoFrameDecode_frameHeader {frame : Frame} (h : frame.Sendable) :
    paiProtoFrameDecode (frameHeader frame) =
      some ⟨{ frame.received with payload := [] }, frame.payload.length⟩ := by
  set crc := paiProtoCrc32Fin (paiProtoCrc32Upd (paiProtoCrc32Upd paiProtoCrc32Init
    (frameHeaderCovered frame)) frame.payload) with hcrc
  have hlen : (UInt32.ofNat frame.payload.length).toNat = frame.payload.length := by
    have hle : frame.payload.length ≤ 0x100000 := h.payload_le
    rw [UInt32.toNat_ofNat', Nat.mod_eq_of_lt (by omega)]
  have hbytes : frameHeader frame = putLe32 paiProtoMagic ++ ([0, 1] ++
      (putLe16 frame.flags.toUInt16 ++ (putLe32 frame.msgType ++
      (putLe32 (UInt32.ofNat frame.payload.length) ++ (putLe64 frame.requestId ++
      (putLe64 frame.sessionId ++ (putLe32 crc ++ (putLe32 0 ++ [])))))))) := by
    rw [frameHeader, ← hcrc, frameHeaderCovered]
    simp only [List.append_assoc, List.append_nil]
    rfl
  have hmagic : getLe32 (frameHeader frame) 0 = paiProtoMagic := by
    rw [hbytes]
    exact getLe32_putLe32 [] rfl _ _
  have hversion : UInt16.ofNat (((frameHeader frame).getD 4 0).toNat * 256 +
      ((frameHeader frame).getD 5 0).toNat) = 1 := by
    have hmajor (rest : List UInt8) :
        (putLe32 paiProtoMagic ++ ([0, 1] ++ rest)).getD 4 0 = 0 := rfl
    have hminor (rest : List UInt8) :
        (putLe32 paiProtoMagic ++ ([0, 1] ++ rest)).getD 5 0 = 1 := rfl
    rw [hbytes, hmajor, hminor]
    rfl
  have hflags : getLe16 (frameHeader frame) 6 = frame.flags.toUInt16 := by
    rw [hbytes, ← List.append_assoc]
    exact getLe16_putLe16 _ (by simp) _ _
  have htype : getLe32 (frameHeader frame) 8 = frame.msgType := by
    rw [hbytes, ← List.append_assoc, ← List.append_assoc]
    exact getLe32_putLe32 _ (by simp) _ _
  have hpay : getLe32 (frameHeader frame) 12 = UInt32.ofNat frame.payload.length := by
    rw [hbytes, ← List.append_assoc, ← List.append_assoc, ← List.append_assoc]
    exact getLe32_putLe32 _ (by simp) _ _
  have hrequest : getLe64 (frameHeader frame) 16 = frame.requestId := by
    rw [hbytes, ← List.append_assoc, ← List.append_assoc, ← List.append_assoc, ← List.append_assoc]
    exact getLe64_putLe64 _ (by simp) _ _
  have hsession : getLe64 (frameHeader frame) 24 = frame.sessionId := by
    rw [hbytes, ← List.append_assoc, ← List.append_assoc, ← List.append_assoc, ← List.append_assoc,
      ← List.append_assoc]
    exact getLe64_putLe64 _ (by simp) _ _
  have hreserved : getLe32 (frameHeader frame) 36 = 0 := by
    rw [hbytes, ← List.append_assoc, ← List.append_assoc, ← List.append_assoc, ← List.append_assoc,
      ← List.append_assoc, ← List.append_assoc, ← List.append_assoc]
    exact getLe32_putLe32 _ (by simp) _ _
  rw [paiProtoFrameDecode, hmagic, hreserved, hflags, hpay, hlen, htype, hrequest, hsession,
    hversion, h.flags_fit, if_neg (not_not.mpr rfl), if_neg (not_not.mpr rfl),
    if_neg (not_not.mpr h.not_compressed), if_neg (not_lt.mpr h.payload_le)]
  rfl

/-- The CRC stored in a sent header. -/
theorem getLe32_frameHeader_crc (frame : Frame) :
    getLe32 (frameHeader frame) 32 = frameCrc (frameHeader frame) frame.payload := by
  have htake : (frameHeader frame).take (paiProtoHeaderSize - 8) = frameHeaderCovered frame := by
    rw [frameHeader, List.append_assoc]
    exact List.take_left' (length_frameHeaderCovered frame)
  rw [frameCrc, htake, frameHeader, List.append_assoc]
  exact getLe32_putLe32 _ (by simp) _ _

/-- A frame as sent passes the integrity check. -/
theorem paiProtoFrameValidate_frameHeader {frame : Frame} (h : frame.Sendable) :
    paiProtoFrameValidate (frameHeader frame) frame.payload = paiOk := by
  rw [paiProtoFrameValidate, paiProtoFrameDecode_frameHeader h]
  simp only
  rw [if_neg (by
      rintro ⟨hpos, hnil⟩
      rw [hnil] at hpos
      exact absurd hpos (by simp)),
    List.take_length, if_neg (not_not.mpr (getLe32_frameHeader_crc frame))]

end Prospero
