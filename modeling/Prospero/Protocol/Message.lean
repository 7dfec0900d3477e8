import Prospero.Protocol.Wire

/-!
# Frame and message encoders

The stand-alone frame encoder (`protocol/frame.c`) and the GENERATE payload codecs with their optional
sampler trailer (`protocol/message.c`).  Float fields travel as bit patterns.
-/

namespace Prospero

open ByteString

/-! ## Frames -/

/-- `pai_proto_frame_encode` into a buffer of `cap` bytes. -/
def paiProtoFrameEncode (frame : Frame) (cap : ℕ) : Except PaiStatus (List UInt8) :=
  if paiProtoMaxPayload < frame.payload.length then .error paiErrInvalidArg
  else if frame.flags &&& paiProtoFlagCompressed ≠ 0 then .error paiErrInvalidArg
  else if cap < paiProtoHeaderSize + frame.payload.length then .error paiErrInvalidArg
  else
    let covered := putLe32 paiProtoMagic ++ [paiProtoVersionMajor, paiProtoVersionMinor] ++
      putLe16 frame.flags.toUInt16 ++ putLe32 frame.msgType ++
      putLe32 (UInt32.ofNat frame.payload.length) ++ putLe64 frame.requestId ++
      putLe64 frame.sessionId
    let crc := paiProtoCrc32Fin
      (paiProtoCrc32Upd (paiProtoCrc32Upd paiProtoCrc32Init covered) frame.payload)
    .ok (covered ++ putLe32 crc ++ putLe32 0 ++ frame.payload)

/-! ## GENERATE -/

/-- `PAI_PROTO_SAMPLER_MAGIC`. -/
def paiProtoSamplerMagic : UInt32 := 0x50414953

/-- `sizeof(pai_proto_sampler_t)`. -/
abbrev samplerSize : ℕ := 24

/-- `pai_proto_sampler_t`; the float fields as bit patterns. -/
structure ProtoSampler where
  /-- Bit pattern of `temperature`. -/
  temperature : UInt32
  /-- Bit pattern of `top_p`. -/
  topP : UInt32
  /-- `top_k`. -/
  topK : UInt32
  /-- `max_tokens`. -/
  maxTokens : UInt32
  /-- `seed`. -/
  seed : UInt64
deriving DecidableEq

/-- `encode_sampler_trailer`. -/
def encodeSamplerTrailer (s : ProtoSampler) : List UInt8 :=
  putLe32 paiProtoSamplerMagic ++ (putLe32 s.temperature ++ (putLe32 s.topP ++
    (putLe32 s.topK ++ (putLe32 s.maxTokens ++ putLe64 s.seed))))

/-- `decode_sampler_trailer`. -/
def decodeSamplerTrailer (trailer : List UInt8) : Option ProtoSampler :=
  if trailer.length ≠ 4 + samplerSize ∨ getLe32 trailer 0 ≠ paiProtoSamplerMagic then none
  else some
    { temperature := getLe32 trailer 4
      topP := getLe32 trailer 8
      topK := getLe32 trailer 12
      maxTokens := getLe32 trailer 16
      seed := getLe64 trailer 20 }

/-- `encode_u16_blob`. -/
def encodeU16Blob (blob : List UInt8) (cap : ℕ) : Except PaiStatus (List UInt8) :=
  if 0xFFFF < blob.length then .error paiErrInvalidArg
  else if cap < 2 + blob.length then .error paiErrInvalidArg
  else .ok (putLe16 (UInt16.ofNat blob.length) ++ blob)

/-- `pai_proto_msg_encode_generate2`; the prompt is a C string, given by its bytes. -/
def paiProtoMsgEncodeGenerate2 (prompt : List UInt8) (sampler : Option ProtoSampler) (cap : ℕ) :
    Except PaiStatus (List UInt8) :=
  -- `(uint32_t)strlen(prompt)`
  let prompt := prompt.take (prompt.length % 0x100000000)
  if 0xFFFF < prompt.length then .error paiErrInvalidArg
  else
    match sampler with
    | none => encodeU16Blob prompt cap
    | some s =>
      if cap < 2 + prompt.length + 4 + samplerSize then .error paiErrInvalidArg
      else .ok (putLe16 (UInt16.ofNat prompt.length) ++ (prompt ++ encodeSamplerTrailer s))

/-- `pai_proto_msg_decode_generate2`: the prompt and the sampler of a trailer that is well formed;
anything else after the prompt is ignored. -/
def paiProtoMsgDecodeGenerate2 (payload : List UInt8) : Option (List UInt8 × Option ProtoSampler) :=
  match decodeU16Blob payload with
  | none => none
  | some prompt =>
    if 2 + prompt.length < payload.length then
      some (prompt, decodeSamplerTrailer (payload.drop (2 + prompt.length)))
    else some (prompt, none)

end Prospero
