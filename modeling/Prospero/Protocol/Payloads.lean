import Prospero.Lib.Reader
import Prospero.Lib.Stores
import Prospero.Protocol.Message

/-!
# Message payloads, byte by byte

The payload codecs of `protocol/message.c` with their buffers: an encoder is the sequence of its stores
into the caller's buffer together with the length it reports, a decoder reads the payload at checked
indices and returns the slices it hands out.  Lengths are 32-bit and wrap.

`messageCodec_iff` says when an encoder keeps its word.  It does not in three places, all at lengths that
a `uint32_t` cannot hold: `pai_proto_msg_encode_stream_data` adds 12 to the data length before it compares
with the capacity, and the error text and the prompt are measured by `(uint32_t)strlen`.

### Outline

* Caller's buffers and what an encoder does.
* Encoders, decoders: one definition per function of the source.
* Messages: the nine kinds with their fields, and what a round trip is.
* Decoders stay inside the payload.
* Encoders, kind by kind.
* Main result.
-/

namespace Prospero.Payload

open ByteString Reader Stores Buffer

/-! ## Buffers -/

/-- A caller's byte buffer: a pointer, `none` when it is NULL, and the length passed with it. -/
structure CBuf where
  /-- The bytes at the pointer. -/
  bytes : Option (List UInt8)
  /-- The length passed. -/
  len : UInt32
  /-- The bytes are there. -/
  length_eq : ∀ b, bytes = some b → b.length = len.toNat

/-- The bytes of a buffer. -/
def CBuf.content (b : CBuf) : List UInt8 := b.bytes.getD []

/-- A C string, given by its bytes. -/
structure CString where
  /-- The bytes before the terminator. -/
  bytes : List UInt8
  /-- None of them is a terminator. -/
  no_nul : 0 ∉ bytes

/-- `(uint32_t)strlen(s)`. -/
def CString.strlen32 (s : CString) : UInt32 := UInt32.ofNat s.bytes.length

/-- A caller's vector of floats, given by their bit patterns. -/
structure CFloats where
  /-- The values at the pointer. -/
  values : Option (List UInt32)
  /-- The dimension passed. -/
  dim : UInt32
  /-- The values are there. -/
  length_eq : ∀ v, values = some v → v.length = dim.toNat

/-- What an encoder does: the status it returns, the length it stores in `*out_len`, and its stores
into `out`. -/
structure Encoded where
  /-- The status returned. -/
  status : PaiStatus
  /-- The length reported. -/
  outLen : Option UInt32
  /-- The stores into the buffer, first to last. -/
  stores : List (Store UInt8)

/-- `return PAI_ERR_INVALID_ARG` before anything is written. -/
def refused : Encoded := ⟨paiErrInvalidArg, none, []⟩

/-- The stores, then `*out_len = total` and `return PAI_OK`. -/
def written (total : UInt32) (stores : List (Store UInt8)) : Encoded := ⟨paiOk, some total, stores⟩

/-- `if (n > 0) memcpy(out + off, bytes, n)`. -/
def copyStores (off : ℕ) (bytes : List UInt8) (n : UInt32) : List (Store UInt8) :=
  if 0 < n then [(off, bytes.take n.toNat)] else []

/-! ## Encoders -/

/-- `pai_proto_msg_encode_u32`. -/
def paiProtoMsgEncodeU32 (cap value : UInt32) : Encoded :=
  if cap < 8 then refused else written 8 [(0, u32le value), (4, u32le 0)]

/-- `pai_proto_msg_encode_caps`. -/
def paiProtoMsgEncodeCaps (cap caps : UInt32) : Encoded :=
  if cap < 8 then refused else written 8 [(0, u32le caps), (4, u32le 0)]

/-- The length `pai_proto_msg_encode_error` gives the text. -/
def errorLen (msg : Option CString) : UInt32 :=
  match msg with
  | none => 0
  | some s => if 255 < s.strlen32 then 255 else s.strlen32

/-- `pai_proto_msg_encode_error`. -/
def paiProtoMsgEncodeError (cap : UInt32) (status : PaiStatus) (msg : Option CString) : Encoded :=
  let msgLen := errorLen msg
  let text := (msg.map CString.bytes).getD []
  if cap < 8 + msgLen then refused
  else written (8 + msgLen)
    ([(0, u32le status.toUInt32), (4, u32le msgLen)] ++ copyStores 8 text msgLen)

/-- `encode_u16_blob`. -/
def encodeU16Blob (cap : UInt32) (blob : Option (List UInt8)) (blobLen : UInt32) : Encoded :=
  if 0xFFFF < blobLen then refused
  else if 0 < blobLen ∧ blob = none then refused
  else if cap < 2 + blobLen then refused
  else written (2 + blobLen)
    ([(0, u16le blobLen.toUInt16)] ++ copyStores 2 (blob.getD []) blobLen)

/-- `encode_sampler_trailer` at `out + base`. -/
def encodeSamplerTrailer (base : ℕ) (s : ProtoSampler) : List (Store UInt8) :=
  [(base, u32le paiProtoSamplerMagic), (base + 4, u32le s.temperature), (base + 8, u32le s.topP),
    (base + 12, u32le s.topK), (base + 16, u32le s.maxTokens), (base + 20, u64le s.seed)]

/-- `pai_proto_msg_encode_generate2`. -/
def paiProtoMsgEncodeGenerate2 (cap : UInt32) (prompt : Option CString)
    (sampler : Option ProtoSampler) : Encoded :=
  match prompt with
  | none => refused
  | some p =>
    let plen := p.strlen32
    if 0xFFFF < plen then refused
    else
      match sampler with
      | none => encodeU16Blob cap (some p.bytes) plen
      | some s =>
        if cap < 2 + plen + 4 + 24 then refused
        else written (2 + plen + 4 + 24)
          ([(0, u16le plen.toUInt16)] ++ copyStores 2 p.bytes plen ++
            encodeSamplerTrailer (2 + plen.toNat) s)

/-- `pai_proto_msg_encode_generate`. -/
def paiProtoMsgEncodeGenerate (cap : UInt32) (prompt : Option CString) : Encoded :=
  paiProtoMsgEncodeGenerate2 cap prompt none

/-- `pai_proto_msg_encode_token`. -/
def paiProtoMsgEncodeToken (cap : UInt32) (token : CBuf) : Encoded :=
  encodeU16Blob cap token.bytes token.len

/-- `pai_proto_msg_encode_embed`. -/
def paiProtoMsgEncodeEmbed (cap : UInt32) (text : CBuf) : Encoded :=
  encodeU16Blob cap text.bytes text.len

/-- `PAI_PROTO_MAX_EMBED_DIM`. -/
def paiProtoMaxEmbedDim : UInt32 := 0x10000

/-- `pai_proto_msg_encode_embedding`. -/
def paiProtoMsgEncodeEmbedding (cap : UInt32) (v : CFloats) : Encoded :=
  if v.dim = 0 ∨ paiProtoMaxEmbedDim < v.dim ∨ v.values = none then refused
  else if cap < 4 + v.dim * 4 then refused
  else written (4 + v.dim * 4) [(0, u32le v.dim), (4, (v.values.getD []).flatMap u32le)]

/-- `pai_proto_msg_encode_stream_data`. -/
def paiProtoMsgEncodeStreamData (cap : UInt32) (kind : UInt8) (seq : UInt32) (data : CBuf) :
    Encoded :=
  if 0 < data.len ∧ data.bytes = none then refused
  else if cap < 12 + data.len then refused
  else written (12 + data.len)
    ([(0, [kind]), (1, [0]), (2, [0]), (3, [0]), (4, u32le seq), (8, u32le data.len)] ++
      copyStores 12 data.content data.len)

/-! ## Decoders -/

/-- A slice of the payload, as a decoder returns it. -/
structure Slice where
  /-- First byte. -/
  off : ℕ
  /-- Number of bytes. -/
  len : ℕ

/-- The slice lies inside the payload. -/
def Slice.Inside (s : Slice) (len : UInt32) : Prop := s.off + s.len ≤ len.toNat

/-- The bytes of the slice. -/
def Slice.of (s : Slice) (payload : List UInt8) : List UInt8 := slice payload s.off s.len

/-- `pai_proto_msg_decode_u32`. -/
def paiProtoMsgDecodeU32 (payload : List UInt8) (len : UInt32) : Read PaiStatus UInt32 := do
  refuse (len < 8) paiErrProtocol
  u32At payload 0

/-- `pai_proto_msg_decode_caps`. -/
def paiProtoMsgDecodeCaps (payload : List UInt8) (len : UInt32) : Read PaiStatus UInt32 := do
  refuse (len < 8) paiErrProtocol
  u32At payload 0

/-- The number of text bytes `pai_proto_msg_decode_error` copies into `msgCap` bytes. -/
def copiedLen (msgLen msgCap : UInt32) : UInt32 :=
  if msgLen < msgCap - 1 then msgLen else msgCap - 1

/-- `pai_proto_msg_decode_error` with an `out_msg` of `msgCap` bytes: the status and the text copied
before the terminator. -/
def paiProtoMsgDecodeError (payload : List UInt8) (len msgCap : UInt32) :
    Read PaiStatus (PaiStatus × List UInt8) := do
  refuse (len < 8) paiErrProtocol
  let status ← u32At payload 0
  let msgLen ← u32At payload 4
  refuse (len - 8 < msgLen) paiErrProtocol
  if 0 < msgCap then
    let text ← bytesAt payload 8 (copiedLen msgLen msgCap).toNat
    .ok (status.toInt32, text)
  else .ok (status.toInt32, [])

/-- `decode_u16_blob`. -/
def decodeU16Blob (payload : List UInt8) (len : UInt32) : Read PaiStatus Slice := do
  refuse (len < 2) paiErrProtocol
  let blobLen ← u16At payload 0
  refuse (len - 2 < blobLen.toUInt32) paiErrProtocol
  .ok ⟨2, blobLen.toNat⟩

/-- `decode_sampler_trailer` of `len` bytes at `payload + base`; the magic is read only when the length
is right. -/
def decodeSamplerTrailer (payload : List UInt8) (base : ℕ) (len : UInt32) :
    Read PaiStatus (Option ProtoSampler) := do
  if len ≠ 28 then .ok none
  else
    let magic ← u32At payload base
    if magic ≠ paiProtoSamplerMagic then .ok none
    else
      let temperature ← u32At payload (base + 4)
      let topP ← u32At payload (base + 8)
      let topK ← u32At payload (base + 12)
      let maxTokens ← u32At payload (base + 16)
      let seed ← u64At payload (base + 20)
      .ok (some ⟨temperature, topP, topK, maxTokens, seed⟩)

/-- `pai_proto_msg_decode_generate2` with room for a sampler. -/
def paiProtoMsgDecodeGenerate2 (payload : List UInt8) (len : UInt32) :
    Read PaiStatus (Slice × Option ProtoSampler) := do
  let prompt ← decodeU16Blob payload len
  let plen := UInt32.ofNat prompt.len
  if 2 + plen < len then
    let sampler ← decodeSamplerTrailer payload (2 + plen).toNat (len - (2 + plen))
    .ok (prompt, sampler)
  else .ok (prompt, none)

/-- `pai_proto_msg_decode_generate`: `pai_proto_msg_decode_generate2` without room for a sampler. -/
def paiProtoMsgDecodeGenerate (payload : List UInt8) (len : UInt32) : Read PaiStatus Slice :=
  decodeU16Blob payload len

/-- `pai_proto_msg_decode_token`. -/
def paiProtoMsgDecodeToken (payload : List UInt8) (len : UInt32) : Read PaiStatus Slice :=
  decodeU16Blob payload len

/-- `pai_proto_msg_decode_embed`: no bytes may follow the text. -/
def paiProtoMsgDecodeEmbed (payload : List UInt8) (len : UInt32) : Read PaiStatus Slice := do
  let blob ← decodeU16Blob payload len
  refuse (len ≠ 2 + UInt32.ofNat blob.len) paiErrProtocol
  .ok blob

/-- `pai_proto_msg_decode_embedding`: the bytes of the values and the dimension. -/
def paiProtoMsgDecodeEmbedding (payload : List UInt8) (len : UInt32) :
    Read PaiStatus (Slice × UInt32) := do
  refuse (len < 4) paiErrProtocol
  let dim ← u32At payload 0
  refuse (dim = 0 ∨ paiProtoMaxEmbedDim < dim ∨ len ≠ 4 + dim * 4) paiErrProtocol
  .ok (⟨4, 4 * dim.toNat⟩, dim)

/-- `pai_proto_msg_decode_stream_data`: kind, ordinal and data. -/
def paiProtoMsgDecodeStreamData (payload : List UInt8) (len : UInt32) :
    Read PaiStatus (UInt8 × UInt32 × Slice) := do
  refuse (len < 12) paiErrProtocol
  let kind ← u8At payload 0
  let seq ← u32At payload 4
  let dataLen ← u32At payload 8
  refuse (len - 12 < dataLen) paiErrProtocol
  .ok (kind, seq, ⟨12, dataLen.toNat⟩)

/-! ## Messages -/

/-- The fields of a message. -/
inductive Message
  /-- Capabilities. -/
  | caps (mask : UInt32)
  /-- A number. -/
  | u32 (value : UInt32)
  /-- A status and its text. -/
  | error (status : PaiStatus) (msg : Option CString)
  /-- A prompt (v1). -/
  | generate (prompt : Option CString)
  /-- A prompt with an optional sampler (v2). -/
  | generate2 (prompt : Option CString) (sampler : Option ProtoSampler)
  /-- A token. -/
  | token (tok : CBuf)
  /-- A text to embed. -/
  | embed (text : CBuf)
  /-- A vector. -/
  | embedding (values : CFloats)
  /-- A piece of a stream. -/
  | streamData (kind : UInt8) (seq : UInt32) (data : CBuf)

/-- The encoder of a message. -/
def Message.encode (cap : UInt32) : Message → Encoded
  | .caps mask => paiProtoMsgEncodeCaps cap mask
  | .u32 value => paiProtoMsgEncodeU32 cap value
  | .error status msg => paiProtoMsgEncodeError cap status msg
  | .generate prompt => paiProtoMsgEncodeGenerate cap prompt
  | .generate2 prompt sampler => paiProtoMsgEncodeGenerate2 cap prompt sampler
  | .token tok => paiProtoMsgEncodeToken cap tok
  | .embed text => paiProtoMsgEncodeEmbed cap text
  | .embedding values => paiProtoMsgEncodeEmbedding cap values
  | .streamData kind seq data => paiProtoMsgEncodeStreamData cap kind seq data

/-- The bytes of an optional C string. -/
def textOf (s : Option CString) : List UInt8 := (s.map CString.bytes).getD []

/-- Decoding a payload returns the fields of the message, an error text cut to 255 bytes and to the
caller's room for it. -/
def Message.Decodes (payload : List UInt8) : Message → Prop
  | .caps mask => paiProtoMsgDecodeCaps payload (UInt32.ofNat payload.length) = .ok mask
  | .u32 value => paiProtoMsgDecodeU32 payload (UInt32.ofNat payload.length) = .ok value
  | .error status msg => ∀ msgCap : UInt32, 0 < msgCap →
      paiProtoMsgDecodeError payload (UInt32.ofNat payload.length) msgCap =
        .ok (status, ((textOf msg).take 255).take (msgCap - 1).toNat)
  | .generate prompt => ∃ s, s.of payload = textOf prompt ∧
      paiProtoMsgDecodeGenerate payload (UInt32.ofNat payload.length) = .ok s
  | .generate2 prompt sampler => ∃ s, s.of payload = textOf prompt ∧
      paiProtoMsgDecodeGenerate2 payload (UInt32.ofNat payload.length) = .ok (s, sampler)
  | .token tok => ∃ s, s.of payload = tok.content ∧
      paiProtoMsgDecodeToken payload (UInt32.ofNat payload.length) = .ok s
  | .embed text => ∃ s, s.of payload = text.content ∧
      paiProtoMsgDecodeEmbed payload (UInt32.ofNat payload.length) = .ok s
  | .embedding v => ∃ s, s.of payload = (v.values.getD []).flatMap u32le ∧
      paiProtoMsgDecodeEmbedding payload (UInt32.ofNat payload.length) = .ok (s, v.dim)
  | .streamData kind seq data => ∃ s, s.of payload = data.content ∧
      paiProtoMsgDecodeStreamData payload (UInt32.ofNat payload.length) = .ok (kind, seq, s)

/-- The encoder keeps its word: it fails without reporting a length, or it writes exactly the bytes below
the length it reports, which is within the capacity, and they decode to the fields of the message. -/
def Message.RoundTrips (m : Message) (cap : UInt32) : Prop :=
  ((m.encode cap).status ≠ paiOk ∧ (m.encode cap).outLen = none) ∨
    ((m.encode cap).status = paiOk ∧ ∃ n : UInt32, (m.encode cap).outLen = some n ∧ n ≤ cap ∧
      (∀ i, Touched (m.encode cap).stores i ↔ i < n.toNat) ∧
      ∀ out : ℕ → UInt8, m.Decodes (content out (m.encode cap).stores n.toNat))

/-- No decoder reads outside a payload or returns a slice that is not inside it. -/
structure DecodersInside (payload : List UInt8) (len : UInt32) : Prop where
  /-- `pai_proto_msg_decode_caps`. -/
  caps : Post (paiProtoMsgDecodeCaps payload len) fun _ => True
  /-- `pai_proto_msg_decode_u32`. -/
  u32 : Post (paiProtoMsgDecodeU32 payload len) fun _ => True
  /-- `pai_proto_msg_decode_error`. -/
  error : ∀ msgCap, Post (paiProtoMsgDecodeError payload len msgCap) fun _ => True
  /-- `pai_proto_msg_decode_generate`. -/
  generate : Post (paiProtoMsgDecodeGenerate payload len) fun s => s.Inside len
  /-- `pai_proto_msg_decode_generate2`. -/
  generate2 : Post (paiProtoMsgDecodeGenerate2 payload len) fun r => r.1.Inside len
  /-- `pai_proto_msg_decode_token`. -/
  token : Post (paiProtoMsgDecodeToken payload len) fun s => s.Inside len
  /-- `pai_proto_msg_decode_embed`. -/
  embed : Post (paiProtoMsgDecodeEmbed payload len) fun s => s.Inside len
  /-- `pai_proto_msg_decode_embedding`. -/
  embedding : Post (paiProtoMsgDecodeEmbedding payload len) fun r => r.1.Inside len
  /-- `pai_proto_msg_decode_stream_data`. -/
  streamData : Post (paiProtoMsgDecodeStreamData payload len) fun r => r.2.2.Inside len

/-- The lengths the encoders get right: no length they measure or add up leaves 32 bits, unless the
encoder then refuses the message all the same. -/
def Message.InRange (m : Message) (cap : UInt32) : Prop :=
  match m with
  | .error _ msg => (textOf msg).length < 0x100000000 ∨
      255 ≤ (textOf msg).length % 0x100000000 ∨ cap.toNat < 8 + (textOf msg).length % 0x100000000
  | .generate prompt => (textOf prompt).length < 0x100000000 ∨
      0xFFFF < (textOf prompt).length % 0x100000000 ∨
      cap.toNat < 2 + (textOf prompt).length % 0x100000000
  | .generate2 prompt sampler => (textOf prompt).length < 0x100000000 ∨
      0xFFFF < (textOf prompt).length % 0x100000000 ∨
      cap.toNat < 2 + (textOf prompt).length % 0x100000000 + if sampler.isSome then 28 else 0
  | .streamData _ _ data => data.len.toNat + 12 < 0x100000000 ∨
      cap.toNat + 0x100000000 < data.len.toNat + 12 ∨ data.bytes = none
  | _ => True

/-! ## Decoders stay inside the payload -/

section Inside

variable {payload : List UInt8} {len : UInt32}

lemma post_decodeU16Blob (h : payload.length = len.toNat) :
    Post (decodeU16Blob payload len) fun s => s.Inside len ∧ s.off = 2 ∧ s.len < 0x10000 := by
  refine post_refuse_bind fun hshort => ?_
  rw [UInt32.lt_iff_toNat_lt, not_lt] at hshort
  have htwo : 2 ≤ len.toNat := hshort
  refine Post.bind (post_u16At (by omega)) fun blobLen _ _ => ?_
  refine post_refuse_bind fun hlong => ?_
  have hsub : (len - 2).toNat = len.toNat - 2 := UInt32.toNat_sub_of_le _ _ hshort
  rw [UInt32.lt_iff_toNat_lt, not_lt, hsub, UInt16.toNat_toUInt32] at hlong
  refine post_ok ⟨?_, rfl, blobLen.toNat_lt⟩
  change 2 + blobLen.toNat ≤ len.toNat
  omega

lemma post_decodeSamplerTrailer {base : ℕ} {rest : UInt32}
    (h : base + rest.toNat ≤ payload.length) :
    Post (decodeSamplerTrailer payload base rest) fun _ => True := by
  unfold decodeSamplerTrailer
  split_ifs with hlen
  · trivial
  · rw [not_not] at hlen
    subst hlen
    have hroom : base + 28 ≤ payload.length := h
    refine Post.bind (post_u32At (by omega)) fun magic _ _ => ?_
    split_ifs
    · trivial
    · refine Post.bind (post_u32At (by omega)) fun _ _ _ => ?_
      refine Post.bind (post_u32At (by omega)) fun _ _ _ => ?_
      refine Post.bind (post_u32At (by omega)) fun _ _ _ => ?_
      refine Post.bind (post_u32At (by omega)) fun _ _ _ => ?_
      exact Post.bind (post_u64At (by omega)) fun _ _ _ => trivial

/-- The blob ends within 32 bits. -/
lemma toNat_blob_end {n : ℕ} (h : n < 0x10000) : (2 + UInt32.ofNat n).toNat = 2 + n := by
  rw [UInt32.toNat_add, UInt32.toNat_ofNat']
  change (2 + n % 2 ^ 32) % 2 ^ 32 = 2 + n
  omega

lemma post_decodeGenerate2 (h : payload.length = len.toNat) :
    Post (paiProtoMsgDecodeGenerate2 payload len) fun r => r.1.Inside len := by
  refine Post.bind (post_decodeU16Blob h) fun prompt _ hprompt => ?_
  obtain ⟨hinside, -, hlen⟩ := hprompt
  have hend := toNat_blob_end hlen
  simp only
  split_ifs with hmore
  · rw [UInt32.lt_iff_toNat_lt, hend] at hmore
    have hsub : (len - (2 + UInt32.ofNat prompt.len)).toNat = len.toNat - (2 + prompt.len) := by
      rw [UInt32.toNat_sub_of_le _ _ (by rw [UInt32.le_iff_toNat_le, hend]; omega), hend]
    refine Post.bind (post_decodeSamplerTrailer ?_) fun _ _ _ => post_ok hinside
    rw [hend, hsub]
    omega
  · exact post_ok hinside

lemma post_decodeEmbed (h : payload.length = len.toNat) :
    Post (paiProtoMsgDecodeEmbed payload len) fun s => s.Inside len :=
  Post.bind (post_decodeU16Blob h) fun _ _ hblob => post_refuse_bind fun _ => post_ok hblob.1

/-- A payload of the two-word formats. -/
lemma post_decodePair (h : payload.length = len.toNat) :
    Post (refuse (len < 8) paiErrProtocol >>= fun _ => u32At payload 0) fun _ => True := by
  refine post_refuse_bind fun hshort => ?_
  rw [UInt32.lt_iff_toNat_lt, not_lt] at hshort
  have height : 8 ≤ len.toNat := hshort
  exact post_u32At (by omega)

lemma post_decodeError (h : payload.length = len.toNat) (msgCap : UInt32) :
    Post (paiProtoMsgDecodeError payload len msgCap) fun _ => True := by
  refine post_refuse_bind fun hshort => ?_
  rw [UInt32.lt_iff_toNat_lt, not_lt] at hshort
  have height : 8 ≤ len.toNat := hshort
  refine Post.bind (post_u32At (by omega)) fun _ _ _ => ?_
  refine Post.bind (post_u32At (by omega)) fun msgLen _ _ => ?_
  refine post_refuse_bind fun hlong => ?_
  have hsub : (len - 8).toNat = len.toNat - 8 := UInt32.toNat_sub_of_le _ _ hshort
  rw [UInt32.lt_iff_toNat_lt, not_lt, hsub] at hlong
  split_ifs with hcap
  · refine Post.bind (post_bytesAt ?_) fun _ _ _ => trivial
    have hn : (copiedLen msgLen msgCap).toNat ≤ msgLen.toNat := by
      unfold copiedLen
      split_ifs with hlt
      · exact le_rfl
      · exact UInt32.le_iff_toNat_le.mp (UInt32.not_lt.mp hlt)
    omega
  · trivial

lemma post_decodeEmbedding (h : payload.length = len.toNat) :
    Post (paiProtoMsgDecodeEmbedding payload len) fun r => r.1.Inside len := by
  refine post_refuse_bind fun hshort => ?_
  rw [UInt32.lt_iff_toNat_lt, not_lt] at hshort
  have hfour : 4 ≤ len.toNat := hshort
  refine Post.bind (post_u32At (by omega)) fun dim _ _ => ?_
  refine post_refuse_bind fun hbad => ?_
  push Not at hbad
  obtain ⟨-, hmax, hlen⟩ := hbad
  have hdim : dim.toNat ≤ paiProtoMaxEmbedDim.toNat := UInt32.le_iff_toNat_le.mp (UInt32.not_lt.mp hmax)
  change dim.toNat ≤ 0x10000 at hdim
  refine post_ok ?_
  change 4 + 4 * dim.toNat ≤ len.toNat
  rw [hlen, UInt32.toNat_add, UInt32.toNat_mul]
  change 4 + 4 * dim.toNat ≤ (4 + dim.toNat * 4 % 2 ^ 32) % 2 ^ 32
  omega

lemma post_decodeStreamData (h : payload.length = len.toNat) :
    Post (paiProtoMsgDecodeStreamData payload len) fun r => r.2.2.Inside len := by
  refine post_refuse_bind fun hshort => ?_
  rw [UInt32.lt_iff_toNat_lt, not_lt] at hshort
  have htwelve : 12 ≤ len.toNat := hshort
  refine Post.bind (post_u8At (by omega)) fun _ _ _ => ?_
  refine Post.bind (post_u32At (by omega)) fun _ _ _ => ?_
  refine Post.bind (post_u32At (by omega)) fun dataLen _ _ => ?_
  refine post_refuse_bind fun hlong => ?_
  have hsub : (len - 12).toNat = len.toNat - 12 := UInt32.toNat_sub_of_le _ _ hshort
  rw [UInt32.lt_iff_toNat_lt, not_lt, hsub] at hlong
  refine post_ok ?_
  change 12 + dataLen.toNat ≤ len.toNat
  omega

/-- **The decoders are safe.** -/
lemma decodersInside (h : payload.length = len.toNat) : DecodersInside payload len where
  caps := post_decodePair h
  u32 := post_decodePair h
  error := post_decodeError h
  generate := (post_decodeU16Blob h).mono fun _ hs => hs.1
  generate2 := post_decodeGenerate2 h
  token := (post_decodeU16Blob h).mono fun _ hs => hs.1
  embed := post_decodeEmbed h
  embedding := post_decodeEmbedding h
  streamData := post_decodeStreamData h

end Inside

/-! ## Encoders -/

/-- The bytes an optional copy leaves. -/
@[simp] lemma flatMap_copyStores (off : ℕ) (bytes : List UInt8) (n : UInt32) :
    (copyStores off bytes n).flatMap (fun s => s.2) = bytes.take n.toNat := by
  unfold copyStores
  split_ifs with hpos
  · simp
  · have hzero : n.toNat = 0 := by
      rw [UInt32.lt_iff_toNat_lt, not_lt] at hpos
      exact Nat.le_zero.mp hpos
    simp [hzero]

/-- The number of bytes an optional copy stores. -/
lemma total_copyStores (off : ℕ) (bytes : List UInt8) (n : UInt32) :
    total (copyStores off bytes n) = min n.toNat bytes.length := by
  have hlen : ((copyStores off bytes n).flatMap fun s => s.2).length = total (copyStores off bytes n) :=
    List.length_flatMap
  rw [← hlen, flatMap_copyStores, List.length_take]

lemma contiguous_copyStores (off : ℕ) (bytes : List UInt8) (n : UInt32) :
    Contiguous off (copyStores off bytes n) := by
  unfold copyStores
  split_ifs
  · exact ⟨rfl, trivial⟩
  · trivial

/-- A refused message has no length. -/
lemma roundTrips_of_refused {m : Message} {cap : UInt32} (h : m.encode cap = refused) :
    m.RoundTrips cap := by
  refine Or.inl ?_
  rw [h]
  exact ⟨(by decide : paiErrInvalidArg ≠ paiOk), rfl⟩

/-- An encoder that stores one run after the other keeps its word when it stores as many bytes as it
reports and these decode. -/
lemma roundTrips_written_iff {m : Message} {cap reported : UInt32} {stores : List (Store UInt8)}
    (h : m.encode cap = written reported stores) (hcap : ¬ cap < reported)
    (hcont : Contiguous 0 stores) :
    m.RoundTrips cap ↔
      total stores = reported.toNat ∧ m.Decodes (stores.flatMap fun s => s.2) := by
  have htouched (i : ℕ) : Touched stores i ↔ i < total stores := by
    rw [touched_iff hcont]
    omega
  constructor
  · rintro (⟨hfail, -⟩ | ⟨-, n, hn, -, hall, hdec⟩)
    · rw [h] at hfail
      exact absurd rfl hfail
    · rw [h] at hn hall hdec
      cases hn
      have htotal : total stores = reported.toNat := by
        apply le_antisymm
        · by_contra hlt
          exact lt_irrefl _ ((hall reported.toNat).mp ((htouched _).mpr (not_le.mp hlt)))
        · by_contra hlt
          exact lt_irrefl _ ((htouched (total stores)).mp ((hall _).mpr (not_le.mp hlt)))
      refine ⟨htotal, ?_⟩
      rw [← content_of_contiguous hcont fun _ => 0, htotal]
      exact hdec fun _ => 0
  · rintro ⟨htotal, hdec⟩
    refine Or.inr ?_
    rw [h]
    refine ⟨rfl, reported, rfl, UInt32.not_lt.mp hcap, fun i => ?_, fun out => ?_⟩
    · rw [← htotal]
      exact htouched i
    · change m.Decodes (content out stores reported.toNat)
      rw [← htotal, content_of_contiguous hcont out]
      exact hdec

/-! ### Two words -/

/-- The two-word formats are read back. -/
lemma decodePair_eq (value : UInt32) :
    (refuse (UInt32.ofNat (u32le value ++ u32le 0).length < 8) paiErrProtocol >>= fun _ =>
      u32At (u32le value ++ u32le 0) 0) = .ok value := by
  have hlen : ¬ UInt32.ofNat (u32le value ++ u32le 0).length < 8 := by
    rw [List.length_append, length_leBytes, length_leBytes]
    decide
  rw [refuse_bind _ hlen]
  exact (holds_self (u32le value ++ u32le 0)).u32.1

/-- The stores of the two-word formats. -/
lemma contiguous_pair (value : UInt32) :
    Contiguous 0 [((0 : ℕ), u32le value), (4, u32le 0)] :=
  ⟨rfl, by rw [length_leBytes], trivial⟩

/-- A message in a two-word format round-trips when its field is the first word. -/
lemma roundTrips_pair {m : Message} {cap value : UInt32} (hcap : ¬ cap < 8)
    (h : m.encode cap = written 8 [(0, u32le value), (4, u32le 0)])
    (hdec : m.Decodes (u32le value ++ u32le 0)) : m.RoundTrips cap := by
  refine (roundTrips_written_iff h hcap (contiguous_pair value)).mpr ⟨?_, ?_⟩
  · rw [total_cons, total_cons, total_nil, length_leBytes, length_leBytes]
    rfl
  · simp only [List.flatMap_cons, List.flatMap_nil, List.append_nil]
    exact hdec

lemma roundTrips_caps (mask cap : UInt32) : (Message.caps mask).RoundTrips cap := by
  by_cases hcap : cap < 8
  · exact roundTrips_of_refused (if_pos hcap)
  · exact roundTrips_pair hcap (if_neg hcap) (decodePair_eq mask)

lemma roundTrips_u32 (value cap : UInt32) : (Message.u32 value).RoundTrips cap := by
  by_cases hcap : cap < 8
  · exact roundTrips_of_refused (if_pos hcap)
  · exact roundTrips_pair hcap (if_neg hcap) (decodePair_eq value)

/-! ### Length-prefixed bytes -/

/-- A length-prefixed run of bytes is read back, whatever follows it. -/
lemma decodeU16Blob_eq {blob rest : List UInt8} (hblob : blob.length < 0x10000) {len : UInt32}
    (hlen : len.toNat = 2 + blob.length + rest.length) :
    decodeU16Blob (u16le (UInt16.ofNat blob.length) ++ (blob ++ rest)) len =
      .ok ⟨2, blob.length⟩ := by
  have hnat : (UInt16.ofNat blob.length).toNat = blob.length := by
    rw [UInt16.toNat_ofNat']
    exact Nat.mod_eq_of_lt hblob
  have htwo : ¬ len < 2 := by
    rw [UInt32.lt_iff_toNat_lt, hlen]
    change ¬ 2 + blob.length + rest.length < 2
    omega
  have hsub : (len - 2).toNat = len.toNat - 2 :=
    UInt32.toNat_sub_of_le _ _ (UInt32.not_lt.mp htwo)
  have hfit : ¬ len - 2 < (UInt16.ofNat blob.length).toUInt32 := by
    rw [UInt32.lt_iff_toNat_lt, hsub, hlen, UInt16.toNat_toUInt32, hnat]
    omega
  rw [decodeU16Blob, refuse_bind _ htwo, (holds_self _).u16.1, ok_bind, refuse_bind _ hfit, hnat]

/-- The bytes of a length-prefixed run. -/
lemma slice_blob (blob rest : List UInt8) (v : UInt16) :
    slice (u16le v ++ (blob ++ rest)) 2 blob.length = blob := by
  rw [slice, List.drop_left' (length_leBytes 2 _), List.take_left' rfl]

/-- A buffer whose pointer is there when it has to be holds as many bytes as it says. -/
lemma CBuf.content_eq {b : CBuf} (h : ¬ (0 < b.len ∧ b.bytes = none)) :
    b.content.length = b.len.toNat := by
  unfold CBuf.content
  cases hbytes : b.bytes with
  | some bytes => exact b.length_eq bytes hbytes
  | none =>
    have hzero : ¬ 0 < b.len := fun hpos => h ⟨hpos, hbytes⟩
    rw [UInt32.lt_iff_toNat_lt, not_lt] at hzero
    exact (Nat.le_zero.mp hzero).symm

/-- The stores of a length-prefixed run. -/
lemma blob_stores (blob : List UInt8) (n : UInt32) :
    Contiguous 0 ([((0 : ℕ), u16le n.toUInt16)] ++ copyStores 2 blob n) ∧
      total ([((0 : ℕ), u16le n.toUInt16)] ++ copyStores 2 blob n) = 2 + min n.toNat blob.length ∧
      ([((0 : ℕ), u16le n.toUInt16)] ++ copyStores 2 blob n).flatMap (fun s => s.2) =
        u16le n.toUInt16 ++ blob.take n.toNat := by
  refine ⟨?_, ?_, ?_⟩
  · refine contiguous_append.mpr ⟨⟨rfl, trivial⟩, ?_⟩
    rw [total_cons, total_nil, length_leBytes]
    exact contiguous_copyStores 2 blob n
  · rw [total_append, total_cons, total_nil, length_leBytes, total_copyStores]
  · simp

/-- The 16-bit length of a run that fits it. -/
lemma toUInt16_of_le {n : UInt32} (h : ¬ 0xFFFF < n) : n.toUInt16 = UInt16.ofNat n.toNat ∧
    n.toNat < 0x10000 := by
  rw [UInt32.lt_iff_toNat_lt, not_lt] at h
  have hle : n.toNat ≤ 0xFFFF := h
  exact ⟨rfl, by omega⟩

/-- The reported length of a run. -/
lemma toNat_two_add {n : UInt32} (h : ¬ 0xFFFF < n) : (2 + n).toNat = 2 + n.toNat := by
  have hlt := (toUInt16_of_le h).2
  rw [UInt32.toNat_add]
  change (2 + n.toNat) % 2 ^ 32 = 2 + n.toNat
  omega

/-- A message whose encoder is `encode_u16_blob` round-trips when its fields are what the run decodes
to. -/
lemma roundTrips_blob_iff {m : Message} {cap n : UInt32} {blob : Option (List UInt8)}
    (h : m.encode cap = encodeU16Blob cap blob n) (hlong : ¬ 0xFFFF < n)
    (hnull : ¬ (0 < n ∧ blob = none)) (hcap : ¬ cap < 2 + n)
    (hlen : n.toNat ≤ (blob.getD []).length) :
    m.RoundTrips cap ↔
      m.Decodes (u16le (UInt16.ofNat n.toNat) ++ ((blob.getD []).take n.toNat ++ [])) := by
  obtain ⟨hcont, htotal, hbytes⟩ := blob_stores (blob.getD []) n
  have henc : m.encode cap = written (2 + n)
      ([(0, u16le n.toUInt16)] ++ copyStores 2 (blob.getD []) n) := by
    rw [h, encodeU16Blob, if_neg hlong, if_neg hnull, if_neg hcap]
  rw [roundTrips_written_iff henc hcap hcont, htotal, hbytes, toNat_two_add hlong,
    min_eq_left hlen, (toUInt16_of_le hlong).1, List.append_nil]
  exact and_iff_right rfl

/-- A refused run. -/
lemma roundTrips_blob_refused {m : Message} {cap n : UInt32} {blob : Option (List UInt8)}
    (h : m.encode cap = encodeU16Blob cap blob n)
    (hbad : 0xFFFF < n ∨ (0 < n ∧ blob = none) ∨ cap < 2 + n) : m.RoundTrips cap := by
  refine roundTrips_of_refused ?_
  rw [h, encodeU16Blob]
  split_ifs with hlong hnull hcap
  · rfl
  · rfl
  · rfl
  · exact absurd hbad (by simp [hlong, hnull, hcap])

/-- TOKEN and EMBED: the fields are a buffer, and the decoder returns the run. -/
lemma roundTrips_buffer {m : Message} {cap : UInt32} {b : CBuf}
    (h : m.encode cap = encodeU16Blob cap b.bytes b.len)
    (hdec : ∀ blob : List UInt8, blob = b.content → blob.length < 0x10000 →
      m.Decodes (u16le (UInt16.ofNat blob.length) ++ (blob ++ []))) : m.RoundTrips cap := by
  by_cases hbad : 0xFFFF < b.len ∨ (0 < b.len ∧ b.bytes = none) ∨ cap < 2 + b.len
  · exact roundTrips_blob_refused h hbad
  · push Not at hbad
    obtain ⟨hlong, hnull, hcap⟩ := hbad
    have hthere : ¬ (0 < b.len ∧ b.bytes = none) := fun hc => hnull hc.1 hc.2
    have hlen := CBuf.content_eq hthere
    refine (roundTrips_blob_iff h hlong hthere hcap
      hlen.ge).mpr ?_
    have htake : (b.bytes.getD []).take b.len.toNat = b.content :=
      List.take_of_length_le hlen.le
    rw [htake, ← hlen]
    exact hdec b.content rfl (by
      rw [hlen]
      exact (toUInt16_of_le hlong).2)

/-- The 32-bit length of a payload that is a length-prefixed run. -/
lemma length_blob {blob rest : List UInt8} (h : 2 + blob.length + rest.length < 0x100000000) :
    (UInt32.ofNat (u16le (UInt16.ofNat blob.length) ++ (blob ++ rest)).length).toNat =
      2 + blob.length + rest.length := by
  rw [List.length_append, List.length_append, length_leBytes, UInt32.toNat_ofNat',
    ← Nat.add_assoc]
  exact Nat.mod_eq_of_lt h

lemma roundTrips_token (tok : CBuf) (cap : UInt32) : (Message.token tok).RoundTrips cap := by
  refine roundTrips_buffer rfl fun blob hblob hlt => ⟨⟨2, blob.length⟩, ?_, ?_⟩
  · rw [← hblob]
    exact slice_blob blob [] _
  · have hlen : 2 + blob.length + ([] : List UInt8).length < 0x100000000 := by
      rw [List.length_nil]
      omega
    exact decodeU16Blob_eq hlt (length_blob hlen)

lemma roundTrips_embed (text : CBuf) (cap : UInt32) : (Message.embed text).RoundTrips cap := by
  refine roundTrips_buffer rfl fun blob hblob hlt => ⟨⟨2, blob.length⟩, ?_, ?_⟩
  · rw [← hblob]
    exact slice_blob blob [] _
  · have hlen : 2 + blob.length + ([] : List UInt8).length < 0x100000000 := by
      rw [List.length_nil]
      omega
    have hread := decodeU16Blob_eq hlt (length_blob hlen)
    have hexact : ¬ UInt32.ofNat (u16le (UInt16.ofNat blob.length) ++ (blob ++ [])).length ≠
        2 + UInt32.ofNat blob.length := by
      rw [not_not]
      apply UInt32.toNat_inj.mp
      rw [length_blob hlen, toNat_blob_end hlt]
      rfl
    rw [paiProtoMsgDecodeEmbed, hread, ok_bind, refuse_bind _ hexact]

/-! ### Prompts -/

/-- `(uint32_t)strlen`. -/
lemma CString.toNat_strlen32 (s : CString) : s.strlen32.toNat = s.bytes.length % 0x100000000 :=
  UInt32.toNat_ofNat'

/-- A prefix of a text is the text when nothing is cut off. -/
lemma take_eq_self_iff {text : List UInt8} {n : ℕ} : text.take n = text ↔ text.length ≤ n :=
  List.take_eq_self_iff text

/-- The trailer stores follow one another. -/
lemma sampler_stores (base : ℕ) (s : ProtoSampler) :
    Contiguous base (encodeSamplerTrailer base s) ∧ total (encodeSamplerTrailer base s) = 28 ∧
      (encodeSamplerTrailer base s).flatMap (fun x => x.2) =
        u32le paiProtoSamplerMagic ++ (u32le s.temperature ++ (u32le s.topP ++ (u32le s.topK ++
          (u32le s.maxTokens ++ (u64le s.seed ++ []))))) := by
  refine ⟨?_, ?_, ?_⟩
  · refine ⟨rfl, ?_, ?_, ?_, ?_, ?_, trivial⟩
    · rw [length_leBytes]
    · rw [length_leBytes, length_leBytes]
    · rw [length_leBytes, length_leBytes, length_leBytes]
    · rw [length_leBytes, length_leBytes, length_leBytes, length_leBytes]
    · rw [length_leBytes, length_leBytes, length_leBytes, length_leBytes, length_leBytes]
  · simp [encodeSamplerTrailer]
  · simp [encodeSamplerTrailer]

/-- A trailer of the right length is read back. -/
lemma decodeSamplerTrailer_eq {payload : List UInt8} {base : ℕ} {s : ProtoSampler}
    (h : Holds payload base (u32le paiProtoSamplerMagic ++ (u32le s.temperature ++ (u32le s.topP ++
      (u32le s.topK ++ (u32le s.maxTokens ++ (u64le s.seed ++ []))))))) :
    decodeSamplerTrailer payload base 28 = .ok (some s) := by
  obtain ⟨hmagic, h1⟩ := h.u32
  obtain ⟨htemp, h2⟩ := h1.u32
  obtain ⟨htopP, h3⟩ := h2.u32
  obtain ⟨htopK, h4⟩ := h3.u32
  obtain ⟨hmax, h5⟩ := h4.u32
  obtain ⟨hseed, -⟩ := h5.u64
  rw [decodeSamplerTrailer, if_neg (by decide), hmagic, ok_bind, if_neg (by decide), htemp, ok_bind,
    htopP, ok_bind, htopK, ok_bind, hmax, ok_bind, hseed, ok_bind]

/-- A prompt is measured right when its length fits 32 bits. -/
lemma take_strlen32_eq_iff (p : CString) :
    p.bytes.take p.strlen32.toNat = p.bytes ↔ p.bytes.length < 0x100000000 := by
  rw [take_eq_self_iff, p.toNat_strlen32]
  omega

/-- The measured part of a prompt has the measured length. -/
lemma length_take_strlen32 (p : CString) :
    (p.bytes.take p.strlen32.toNat).length = p.strlen32.toNat := by
  have hle := Nat.mod_le p.bytes.length 0x100000000
  rw [List.length_take, p.toNat_strlen32]
  omega

/-- The conditions of a prompt, in the terms of the C code. -/
lemma prompt_conditions (p : CString) (cap : UInt32) {extra : ℕ} (hextra : extra < 0x10000)
    (hlong : ¬ 0xFFFF < p.strlen32) :
    (¬ cap < 2 + p.strlen32 + UInt32.ofNat extra →
      ((p.bytes.length < 0x100000000 ∨ 0xFFFF < p.bytes.length % 0x100000000 ∨
          cap.toNat < 2 + p.bytes.length % 0x100000000 + extra) ↔
        p.bytes.length < 0x100000000)) ∧
    (cap < 2 + p.strlen32 + UInt32.ofNat extra →
      cap.toNat < 2 + p.bytes.length % 0x100000000 + extra) := by
  have hlt := (toUInt16_of_le hlong).2
  rw [p.toNat_strlen32] at hlt
  have hsum : (2 + p.strlen32 + UInt32.ofNat extra).toNat =
      2 + p.bytes.length % 0x100000000 + extra := by
    rw [UInt32.toNat_add, toNat_two_add hlong, p.toNat_strlen32, UInt32.toNat_ofNat']
    omega
  constructor
  · intro hcap
    rw [UInt32.lt_iff_toNat_lt, hsum] at hcap
    omega
  · intro hcap
    rw [UInt32.lt_iff_toNat_lt, hsum] at hcap
    exact hcap

/-- The payload of a prompt without a trailer. -/
lemma decode_prompt {p : CString} (hlong : ¬ 0xFFFF < p.strlen32) :
    let payload := u16le (UInt16.ofNat p.strlen32.toNat) ++ (p.bytes.take p.strlen32.toNat ++ [])
    decodeU16Blob payload (UInt32.ofNat payload.length) = .ok ⟨2, p.strlen32.toNat⟩ ∧
      slice payload 2 p.strlen32.toNat = p.bytes.take p.strlen32.toNat ∧
      (UInt32.ofNat payload.length).toNat = 2 + p.strlen32.toNat := by
  set blob := p.bytes.take p.strlen32.toNat with hblob
  have hlen : blob.length = p.strlen32.toNat := length_take_strlen32 p
  have hlt : blob.length < 0x10000 := by
    rw [hlen]
    exact (toUInt16_of_le hlong).2
  have hfit : 2 + blob.length + ([] : List UInt8).length < 0x100000000 := by
    rw [List.length_nil]
    omega
  rw [← hlen]
  exact ⟨decodeU16Blob_eq hlt (length_blob hfit), slice_blob blob [] _, length_blob hfit⟩

lemma roundTrips_generate_iff (prompt : Option CString) (cap : UInt32) :
    (Message.generate prompt).RoundTrips cap ↔ (Message.generate prompt).InRange cap := by
  cases prompt with
  | none => exact iff_of_true (roundTrips_of_refused rfl) (Or.inl (by decide))
  | some p =>
    change _ ↔ p.bytes.length < 0x100000000 ∨ 0xFFFF < p.bytes.length % 0x100000000 ∨
      cap.toNat < 2 + p.bytes.length % 0x100000000
    by_cases hlong : 0xFFFF < p.strlen32
    · refine iff_of_true (roundTrips_of_refused (if_pos hlong)) (Or.inr (Or.inl ?_))
      rw [UInt32.lt_iff_toNat_lt, p.toNat_strlen32] at hlong
      exact hlong
    have henc : (Message.generate (some p)).encode cap =
        encodeU16Blob cap (some p.bytes) p.strlen32 := if_neg hlong
    obtain ⟨hopen, hclosed⟩ := prompt_conditions p cap (by decide : 0 < 0x10000) hlong
    have hzero : 2 + p.strlen32 + UInt32.ofNat 0 = 2 + p.strlen32 := UInt32.add_zero _
    rw [hzero] at hopen hclosed
    by_cases hcap : cap < 2 + p.strlen32
    · exact iff_of_true (roundTrips_blob_refused henc (Or.inr (Or.inr hcap)))
        (Or.inr (Or.inr (hclosed hcap)))
    · have hle : p.strlen32.toNat ≤ ((some p.bytes).getD []).length := by
        rw [p.toNat_strlen32]
        exact Nat.mod_le _ _
      obtain ⟨hread, hslice, -⟩ := decode_prompt hlong
      rw [roundTrips_blob_iff henc hlong (fun h => nomatch h.2) hcap hle]
      refine Iff.trans ?_ (hopen hcap).symm
      rw [← take_strlen32_eq_iff p, ← hslice]
      constructor
      · rintro ⟨s, htext, hs⟩
        have heq : s = ⟨2, p.strlen32.toNat⟩ := Except.ok.inj (hs.symm.trans hread)
        subst heq
        exact htext
      · exact fun htext => ⟨⟨2, p.strlen32.toNat⟩, htext, hread⟩

/-- A prompt with a trailer: the stores of the encoder. -/
lemma sampler_payload (p : CString) (hlong : ¬ 0xFFFF < p.strlen32) (s : ProtoSampler) :
    let stores := [((0 : ℕ), u16le p.strlen32.toUInt16)] ++ copyStores 2 p.bytes p.strlen32 ++
      encodeSamplerTrailer (2 + p.strlen32.toNat) s
    Contiguous 0 stores ∧ total stores = 2 + p.strlen32.toNat + 28 ∧
      stores.flatMap (fun x => x.2) =
        u16le (UInt16.ofNat p.strlen32.toNat) ++ (p.bytes.take p.strlen32.toNat ++
          (u32le paiProtoSamplerMagic ++ (u32le s.temperature ++ (u32le s.topP ++ (u32le s.topK ++
            (u32le s.maxTokens ++ (u64le s.seed ++ []))))))) := by
  obtain ⟨hcont, htotal, hbytes⟩ := blob_stores p.bytes p.strlen32
  obtain ⟨hcont', htotal', hbytes'⟩ := sampler_stores (2 + p.strlen32.toNat) s
  have hmin : min p.strlen32.toNat p.bytes.length = p.strlen32.toNat := by
    rw [p.toNat_strlen32]
    exact min_eq_left (Nat.mod_le _ _)
  rw [hmin] at htotal
  refine ⟨?_, ?_, ?_⟩
  · refine contiguous_append.mpr ⟨hcont, ?_⟩
    rw [htotal, Nat.zero_add]
    exact hcont'
  · rw [total_append, htotal, htotal']
  · rw [List.flatMap_append, hbytes, hbytes', (toUInt16_of_le hlong).1, List.append_assoc]

/-- A prompt with a trailer is read back with its sampler. -/
lemma decodeGenerate2_sampler {blob trailer : List UInt8} {s : ProtoSampler}
    (hblob : blob.length < 0x10000)
    (htrailer : trailer = u32le paiProtoSamplerMagic ++ (u32le s.temperature ++ (u32le s.topP ++
      (u32le s.topK ++ (u32le s.maxTokens ++ (u64le s.seed ++ [])))))) :
    let payload := u16le (UInt16.ofNat blob.length) ++ (blob ++ trailer)
    paiProtoMsgDecodeGenerate2 payload (UInt32.ofNat payload.length) =
      .ok (⟨2, blob.length⟩, some s) := by
  intro payload
  have hwidth : trailer.length = 28 := by
    rw [htrailer]
    simp
  have hfit : 2 + blob.length + trailer.length < 0x100000000 := by omega
  have hlen := length_blob hfit
  have hend := toNat_blob_end hblob
  have hmore : 2 + UInt32.ofNat blob.length < UInt32.ofNat payload.length := by
    rw [UInt32.lt_iff_toNat_lt, hend, hlen]
    omega
  have hrest : UInt32.ofNat payload.length - (2 + UInt32.ofNat blob.length) = 28 := by
    apply UInt32.toNat_inj.mp
    rw [UInt32.toNat_sub_of_le _ _ (UInt32.le_of_lt hmore), hend, hlen, hwidth]
    change 2 + blob.length + 28 - (2 + blob.length) = 28
    omega
  have hholds : Holds payload (2 + blob.length) trailer := by
    have hall := (holds_self payload).split.2
    rw [length_leBytes] at hall
    have hsplit := hall.split.2
    rwa [Nat.zero_add] at hsplit
  rw [htrailer] at hholds
  rw [paiProtoMsgDecodeGenerate2, decodeU16Blob_eq hblob hlen, ok_bind]
  simp only
  rw [if_pos hmore, hrest, hend, decodeSamplerTrailer_eq hholds, ok_bind]

/-- A prompt without a trailer is read back without a sampler. -/
lemma decodeGenerate2_plain {p : CString} (hlong : ¬ 0xFFFF < p.strlen32) :
    let payload := u16le (UInt16.ofNat p.strlen32.toNat) ++ (p.bytes.take p.strlen32.toNat ++ [])
    paiProtoMsgDecodeGenerate2 payload (UInt32.ofNat payload.length) =
      .ok (⟨2, p.strlen32.toNat⟩, none) := by
  intro payload
  obtain ⟨hread, -, hlen⟩ := decode_prompt hlong
  have hend := toNat_blob_end (toUInt16_of_le hlong).2
  have hdone : ¬ 2 + UInt32.ofNat p.strlen32.toNat < UInt32.ofNat payload.length := by
    rw [UInt32.lt_iff_toNat_lt, hend, hlen]
    exact lt_irrefl _
  rw [paiProtoMsgDecodeGenerate2, hread, ok_bind]
  simp only
  rw [if_neg hdone]

lemma roundTrips_generate2_iff (prompt : Option CString) (sampler : Option ProtoSampler)
    (cap : UInt32) :
    (Message.generate2 prompt sampler).RoundTrips cap ↔
      (Message.generate2 prompt sampler).InRange cap := by
  cases prompt with
  | none => exact iff_of_true (roundTrips_of_refused rfl) (Or.inl (by decide))
  | some p =>
    by_cases hlong : 0xFFFF < p.strlen32
    · refine iff_of_true (roundTrips_of_refused (if_pos hlong)) (Or.inr (Or.inl ?_))
      rw [UInt32.lt_iff_toNat_lt, p.toNat_strlen32] at hlong
      exact hlong
    cases sampler with
    | none =>
      change _ ↔ p.bytes.length < 0x100000000 ∨ 0xFFFF < p.bytes.length % 0x100000000 ∨
        cap.toNat < 2 + p.bytes.length % 0x100000000 + 0
      have henc : (Message.generate2 (some p) none).encode cap =
          encodeU16Blob cap (some p.bytes) p.strlen32 := if_neg hlong
      obtain ⟨hopen, hclosed⟩ := prompt_conditions p cap (by decide : 0 < 0x10000) hlong
      have hzero : 2 + p.strlen32 + UInt32.ofNat 0 = 2 + p.strlen32 := UInt32.add_zero _
      rw [hzero] at hopen hclosed
      by_cases hcap : cap < 2 + p.strlen32
      · exact iff_of_true (roundTrips_blob_refused henc (Or.inr (Or.inr hcap)))
          (Or.inr (Or.inr (hclosed hcap)))
      · have hle : p.strlen32.toNat ≤ ((some p.bytes).getD []).length := by
          rw [p.toNat_strlen32]
          exact Nat.mod_le _ _
        have hread := decodeGenerate2_plain hlong
        rw [roundTrips_blob_iff henc hlong (fun h => nomatch h.2) hcap hle]
        refine Iff.trans ?_ (hopen hcap).symm
        rw [← take_strlen32_eq_iff p, ← (decode_prompt hlong).2.1]
        constructor
        · rintro ⟨r, htext, hr⟩
          have heq := Except.ok.inj (hr.symm.trans hread)
          have hslice : r = ⟨2, p.strlen32.toNat⟩ := congrArg Prod.fst heq
          subst hslice
          exact htext
        · exact fun htext => ⟨⟨2, p.strlen32.toNat⟩, htext, hread⟩
    | some s =>
      change _ ↔ p.bytes.length < 0x100000000 ∨ 0xFFFF < p.bytes.length % 0x100000000 ∨
        cap.toNat < 2 + p.bytes.length % 0x100000000 + 28
      obtain ⟨hopen, hclosed⟩ := prompt_conditions p cap (by decide : 28 < 0x10000) hlong
      have hsum : 2 + p.strlen32 + 4 + 24 = 2 + p.strlen32 + UInt32.ofNat 28 :=
        UInt32.add_assoc _ _ _
      by_cases hcap : cap < 2 + p.strlen32 + 4 + 24
      · have henc : (Message.generate2 (some p) (some s)).encode cap = refused :=
          (if_neg hlong).trans (if_pos hcap)
        rw [hsum] at hcap
        exact iff_of_true (roundTrips_of_refused henc) (Or.inr (Or.inr (hclosed hcap)))
      · have henc : (Message.generate2 (some p) (some s)).encode cap = written
            (2 + p.strlen32 + 4 + 24) ([(0, u16le p.strlen32.toUInt16)] ++
              copyStores 2 p.bytes p.strlen32 ++
              encodeSamplerTrailer (2 + p.strlen32.toNat) s) :=
          (if_neg hlong).trans (if_neg hcap)
        obtain ⟨hcont, htotal, hbytes⟩ := sampler_payload p hlong s
        have hblob : (p.bytes.take p.strlen32.toNat).length = p.strlen32.toNat :=
          length_take_strlen32 p
        have hlt := (toUInt16_of_le hlong).2
        have hread := decodeGenerate2_sampler (s := s) (by rwa [hblob]) rfl
        rw [hblob] at hread
        have hreport : (2 + p.strlen32 + 4 + 24).toNat = 2 + p.strlen32.toNat + 28 := by
          rw [hsum, UInt32.toNat_add, toNat_two_add hlong]
          change (2 + p.strlen32.toNat + 28) % 2 ^ 32 = _
          omega
        rw [roundTrips_written_iff henc hcap hcont, hbytes, htotal, hreport]
        rw [hsum] at hcap
        refine Iff.trans ?_ (hopen hcap).symm
        have hslice := slice_blob (p.bytes.take p.strlen32.toNat)
          (u32le paiProtoSamplerMagic ++ (u32le s.temperature ++ (u32le s.topP ++ (u32le s.topK ++
            (u32le s.maxTokens ++ (u64le s.seed ++ [])))))) (UInt16.ofNat p.strlen32.toNat)
        rw [hblob] at hslice
        rw [← take_strlen32_eq_iff p]
        constructor
        · rintro ⟨-, r, htext, hr⟩
          have heq := Except.ok.inj (hr.symm.trans hread)
          have hprompt : r = ⟨2, p.strlen32.toNat⟩ := congrArg Prod.fst heq
          subst hprompt
          exact hslice.symm.trans htext
        · exact fun htext => ⟨rfl, ⟨2, p.strlen32.toNat⟩, hslice.trans htext, hread⟩

/-! ### Error texts -/

/-- The length given to an error text. -/
lemma toNat_errorLen (msg : Option CString) :
    (errorLen msg).toNat = min ((textOf msg).length % 0x100000000) 255 := by
  cases msg with
  | none => rfl
  | some p =>
    change (if 255 < p.strlen32 then (255 : UInt32) else p.strlen32).toNat =
      min (p.bytes.length % 0x100000000) 255
    rw [← p.toNat_strlen32]
    split_ifs with hlong
    · rw [UInt32.lt_iff_toNat_lt] at hlong
      change 255 < p.strlen32.toNat at hlong
      change 255 = min p.strlen32.toNat 255
      omega
    · rw [UInt32.lt_iff_toNat_lt] at hlong
      change ¬ 255 < p.strlen32.toNat at hlong
      omega

/-- The number of bytes the decoder copies. -/
lemma toNat_copiedLen (msgLen msgCap : UInt32) :
    (copiedLen msgLen msgCap).toNat = min msgLen.toNat (msgCap - 1).toNat := by
  unfold copiedLen
  split_ifs with hlt
  · rw [UInt32.lt_iff_toNat_lt] at hlt
    omega
  · rw [UInt32.lt_iff_toNat_lt] at hlt
    omega

/-- An error payload is read back, its text cut to the caller's room. -/
lemma decodeError_eq (status : PaiStatus) {text : List UInt8} {msgLen : UInt32}
    (hlen : text.length = msgLen.toNat) (hshort : msgLen.toNat ≤ 255) {msgCap : UInt32}
    (hcap : 0 < msgCap) :
    let payload := u32le status.toUInt32 ++ (u32le msgLen ++ text)
    paiProtoMsgDecodeError payload (UInt32.ofNat payload.length) msgCap =
      .ok (status, text.take (msgCap - 1).toNat) := by
  intro payload
  have hwidth : (UInt32.ofNat payload.length).toNat = 8 + msgLen.toNat := by
    rw [UInt32.toNat_ofNat', List.length_append, List.length_append, length_leBytes,
      length_leBytes, hlen]
    omega
  have height : ¬ UInt32.ofNat payload.length < 8 := by
    rw [UInt32.lt_iff_toNat_lt, hwidth]
    change ¬ 8 + msgLen.toNat < 8
    omega
  have hfit : ¬ UInt32.ofNat payload.length - 8 < msgLen := by
    rw [UInt32.lt_iff_toNat_lt, UInt32.toNat_sub_of_le _ _ (UInt32.not_lt.mp height), hwidth]
    change ¬ 8 + msgLen.toNat - 8 < msgLen.toNat
    omega
  obtain ⟨hstatus, hrest⟩ := (holds_self payload).u32
  obtain ⟨hmsg, htext⟩ := hrest.u32
  have hdrop : payload.drop 8 = text := by
    have hall : payload = (u32le status.toUInt32 ++ u32le msgLen) ++ text :=
      (List.append_assoc _ _ _).symm
    rw [hall]
    exact List.drop_left' (by rw [List.length_append, length_leBytes, length_leBytes])
  have hcopied := toNat_copiedLen msgLen msgCap
  have hread : (bytesAt payload 8 (copiedLen msgLen msgCap).toNat : Read PaiStatus (List UInt8)) =
      .ok (text.take (msgCap - 1).toNat) := by
    have hinside : 8 + (copiedLen msgLen msgCap).toNat ≤ payload.length := by
      have hfull : payload.length = 8 + text.length := by
        rw [List.length_append, List.length_append, length_leBytes, length_leBytes]
        omega
      omega
    have hcut : text.take (copiedLen msgLen msgCap).toNat = text.take (msgCap - 1).toNat := by
      rw [List.take_eq_take_iff]
      omega
    rw [bytesAt, if_pos hinside, slice, hdrop, hcut]
  rw [paiProtoMsgDecodeError, refuse_bind _ height, hstatus, ok_bind, hmsg, ok_bind,
    refuse_bind _ hfit, if_pos hcap, hread, ok_bind, Int32.toInt32_toUInt32]

lemma roundTrips_error_iff (status : PaiStatus) (msg : Option CString) (cap : UInt32) :
    (Message.error status msg).RoundTrips cap ↔ (Message.error status msg).InRange cap := by
  set text := textOf msg with htext
  set msgLen := errorLen msg with hmsgLen
  have hlen : msgLen.toNat = min (text.length % 0x100000000) 255 := toNat_errorLen msg
  have hle := Nat.mod_le text.length 0x100000000
  have hsum : (8 + msgLen).toNat = 8 + msgLen.toNat := by
    rw [UInt32.toNat_add]
    change (8 + msgLen.toNat) % 2 ^ 32 = _
    omega
  change _ ↔ text.length < 0x100000000 ∨ 255 ≤ text.length % 0x100000000 ∨
    cap.toNat < 8 + text.length % 0x100000000
  by_cases hcap : cap < 8 + msgLen
  · refine iff_of_true (roundTrips_of_refused (if_pos hcap)) ?_
    rw [UInt32.lt_iff_toNat_lt, hsum, hlen] at hcap
    omega
  have henc : (Message.error status msg).encode cap = written (8 + msgLen)
      ([(0, u32le status.toUInt32), (4, u32le msgLen)] ++ copyStores 8 text msgLen) := if_neg hcap
  have hcont : Contiguous 0
      ([((0 : ℕ), u32le status.toUInt32), (4, u32le msgLen)] ++ copyStores 8 text msgLen) := by
    refine contiguous_append.mpr ⟨⟨rfl, by rw [length_leBytes], trivial⟩, ?_⟩
    rw [total_cons, total_cons, total_nil, length_leBytes, length_leBytes]
    exact contiguous_copyStores 8 text msgLen
  have htotal : total
      ([((0 : ℕ), u32le status.toUInt32), (4, u32le msgLen)] ++ copyStores 8 text msgLen) =
      8 + msgLen.toNat := by
    rw [total_append, total_cons, total_cons, total_nil, length_leBytes, length_leBytes,
      total_copyStores, min_eq_left (by omega)]
  have hbytes : ([((0 : ℕ), u32le status.toUInt32), (4, u32le msgLen)] ++
      copyStores 8 text msgLen).flatMap (fun s => s.2) =
      u32le status.toUInt32 ++ (u32le msgLen ++ text.take msgLen.toNat) := by
    rw [List.flatMap_append, flatMap_copyStores]
    simp
  have hcut : (text.take msgLen.toNat).length = msgLen.toNat := by
    rw [List.length_take]
    omega
  have hread (msgCap : UInt32) (hpos : 0 < msgCap) :=
    decodeError_eq status hcut (by omega) hpos
  have hsame : text.take msgLen.toNat = text.take 255 ↔
      text.length < 0x100000000 ∨ 255 ≤ text.length % 0x100000000 ∨
        cap.toNat < 8 + text.length % 0x100000000 := by
    rw [UInt32.lt_iff_toNat_lt, hsum, hlen] at hcap
    constructor
    · intro heq
      have hcount := congrArg List.length heq
      rw [hcut, List.length_take] at hcount
      omega
    · intro hrange
      rw [List.take_eq_take_iff]
      omega
  rw [roundTrips_written_iff henc hcap hcont, htotal, hsum, hbytes, ← hsame]
  constructor
  · rintro ⟨-, hdec⟩
    have hmax := hdec 0xFFFFFFFF (by decide)
    rw [hread 0xFFFFFFFF (by decide)] at hmax
    have htake : (text.take msgLen.toNat).take 0xFFFFFFFE = (text.take 255).take 0xFFFFFFFE :=
      congrArg Prod.snd (Except.ok.inj hmax)
    have hleft : (text.take msgLen.toNat).take 0xFFFFFFFE = text.take msgLen.toNat :=
      List.take_of_length_le (by omega)
    have hright : (text.take 255).take 0xFFFFFFFE = text.take 255 :=
      List.take_of_length_le ((List.length_take_le _ _).trans (by decide))
    rwa [hleft, hright] at htake
  · intro heq
    refine ⟨rfl, fun msgCap hpos => ?_⟩
    rw [hread msgCap hpos, heq]

/-! ### Vectors and stream data -/

/-- The bytes of a vector. -/
lemma length_flatMap_u32le (values : List UInt32) :
    (values.flatMap u32le).length = 4 * values.length := by
  induction values with
  | nil => rfl
  | cons v values ih =>
    rw [List.flatMap_cons, List.length_append, length_leBytes, ih, List.length_cons]
    omega

lemma roundTrips_embedding (v : CFloats) (cap : UInt32) :
    (Message.embedding v).RoundTrips cap := by
  by_cases hbad : v.dim = 0 ∨ paiProtoMaxEmbedDim < v.dim ∨ v.values = none
  · exact roundTrips_of_refused (if_pos hbad)
  by_cases hcap : cap < 4 + v.dim * 4
  · exact roundTrips_of_refused ((if_neg hbad).trans (if_pos hcap))
  have hbad' := hbad
  push Not at hbad'
  obtain ⟨hpos, hmax, hthere⟩ := hbad'
  obtain ⟨values, hvalues⟩ := Option.ne_none_iff_exists'.mp hthere
  have hdim : v.dim.toNat ≤ paiProtoMaxEmbedDim.toNat :=
    UInt32.le_iff_toNat_le.mp (UInt32.not_lt.mp hmax)
  change v.dim.toNat ≤ 0x10000 at hdim
  have hlen : ((v.values.getD []).flatMap u32le).length = 4 * v.dim.toNat := by
    rw [length_flatMap_u32le, hvalues]
    exact congrArg (4 * ·) (v.length_eq values hvalues)
  set bytes := (v.values.getD []).flatMap u32le with hbytes
  have hsum : (4 + v.dim * 4).toNat = 4 + 4 * v.dim.toNat := by
    rw [UInt32.toNat_add, UInt32.toNat_mul]
    change (4 + v.dim.toNat * 4 % 2 ^ 32) % 2 ^ 32 = _
    omega
  have henc : (Message.embedding v).encode cap =
      written (4 + v.dim * 4) [(0, u32le v.dim), (4, bytes)] := (if_neg hbad).trans (if_neg hcap)
  have hcont : Contiguous 0 [((0 : ℕ), u32le v.dim), (4, bytes)] :=
    ⟨rfl, by rw [length_leBytes], trivial⟩
  refine (roundTrips_written_iff henc hcap hcont).mpr ⟨?_, ⟨4, 4 * v.dim.toNat⟩, ?_, ?_⟩
  · rw [total_cons, total_cons, total_nil, length_leBytes, hlen, hsum, Nat.add_zero]
  · simp only [List.flatMap_cons, List.flatMap_nil, List.append_nil]
    rw [Slice.of, slice, List.drop_left' (length_leBytes 4 _), ← hlen, List.take_length]
  · simp only [List.flatMap_cons, List.flatMap_nil, List.append_nil]
    have hwidth : (UInt32.ofNat (u32le v.dim ++ bytes).length).toNat = 4 + 4 * v.dim.toNat := by
      rw [UInt32.toNat_ofNat', List.length_append, length_leBytes, hlen]
      omega
    have hshort : ¬ UInt32.ofNat (u32le v.dim ++ bytes).length < 4 := by
      rw [UInt32.lt_iff_toNat_lt, hwidth]
      change ¬ 4 + 4 * v.dim.toNat < 4
      omega
    have hexact : ¬ (v.dim = 0 ∨ paiProtoMaxEmbedDim < v.dim ∨
        UInt32.ofNat (u32le v.dim ++ bytes).length ≠ 4 + v.dim * 4) := by
      push Not
      exact ⟨hpos, hmax, UInt32.toNat_inj.mp (hwidth.trans hsum.symm)⟩
    rw [paiProtoMsgDecodeEmbedding, refuse_bind _ hshort, (holds_self _).u32.1, ok_bind,
      refuse_bind _ hexact]

/-- The stores of a stream message. -/
lemma stream_stores (kind : UInt8) (seq : UInt32) (data : List UInt8) (n : UInt32) :
    let stores := [((0 : ℕ), [kind]), (1, [0]), (2, [0]), (3, [0]), (4, u32le seq), (8, u32le n)] ++
      copyStores 12 data n
    Contiguous 0 stores ∧ total stores = 12 + min n.toNat data.length ∧
      stores.flatMap (fun s => s.2) =
        kind :: 0 :: 0 :: 0 :: (u32le seq ++ (u32le n ++ data.take n.toNat)) := by
  refine ⟨?_, ?_, ?_⟩
  · refine contiguous_append.mpr ⟨⟨rfl, rfl, rfl, rfl, rfl, by rw [length_leBytes]; rfl, trivial⟩, ?_⟩
    have hhead : total [((0 : ℕ), [kind]), (1, [0]), (2, [0]), (3, [0]), (4, u32le seq),
        (8, u32le n)] = 12 := by simp
    rw [hhead]
    exact contiguous_copyStores 12 data n
  · rw [total_append, total_copyStores]
    simp
  · rw [List.flatMap_append, flatMap_copyStores]
    simp

/-- A stream message is read back. -/
lemma decodeStreamData_eq (kind : UInt8) (seq : UInt32) {n : UInt32} {data : List UInt8}
    (hdata : data.length = n.toNat) (hfit : n.toNat + 12 < 0x100000000) :
    let payload := kind :: 0 :: 0 :: 0 :: (u32le seq ++ (u32le n ++ data))
    paiProtoMsgDecodeStreamData payload (UInt32.ofNat payload.length) =
      .ok (kind, seq, ⟨12, n.toNat⟩) ∧ slice payload 12 n.toNat = data := by
  intro payload
  have hsplit : payload = ([kind, 0, 0, 0] ++ (u32le seq ++ u32le n)) ++ data := by
    simp [payload]
  have hhead : ([kind, 0, 0, 0] ++ (u32le seq ++ u32le n)).length = 12 := by simp
  have hwidth : (UInt32.ofNat payload.length).toNat = 12 + n.toNat := by
    rw [UInt32.toNat_ofNat', hsplit, List.length_append, hhead, hdata]
    omega
  have htwelve : ¬ UInt32.ofNat payload.length < 12 := by
    rw [UInt32.lt_iff_toNat_lt, hwidth]
    change ¬ 12 + n.toNat < 12
    omega
  have hroom : ¬ UInt32.ofNat payload.length - 12 < n := by
    rw [UInt32.lt_iff_toNat_lt, UInt32.toNat_sub_of_le _ _ (UInt32.not_lt.mp htwelve), hwidth]
    change ¬ 12 + n.toNat - 12 < n.toNat
    omega
  have hkind : (u8At payload 0 : Read PaiStatus UInt8) = .ok kind := (holds_self payload).u8.1
  have hfour : Holds payload 4 (u32le seq ++ (u32le n ++ data)) :=
    (Holds.split (a := [kind, 0, 0, 0]) (holds_self payload)).2
  obtain ⟨hseq, hrest⟩ := hfour.u32
  constructor
  · rw [paiProtoMsgDecodeStreamData, refuse_bind _ htwelve, hkind, ok_bind, hseq, ok_bind,
      hrest.u32.1, ok_bind, refuse_bind _ hroom]
  · rw [slice, hsplit, List.drop_left' hhead, ← hdata, List.take_length]

lemma roundTrips_streamData_iff (kind : UInt8) (seq : UInt32) (data : CBuf) (cap : UInt32) :
    (Message.streamData kind seq data).RoundTrips cap ↔
      (Message.streamData kind seq data).InRange cap := by
  have hlt := data.len.toNat_lt
  change _ ↔ data.len.toNat + 12 < 0x100000000 ∨
    cap.toNat + 0x100000000 < data.len.toNat + 12 ∨ data.bytes = none
  by_cases hnull : 0 < data.len ∧ data.bytes = none
  · exact iff_of_true (roundTrips_of_refused (if_pos hnull)) (Or.inr (Or.inr hnull.2))
  have hlen := CBuf.content_eq hnull
  have hsum : (12 + data.len).toNat = (12 + data.len.toNat) % 0x100000000 := UInt32.toNat_add _ _
  by_cases hcap : cap < 12 + data.len
  · refine iff_of_true (roundTrips_of_refused ((if_neg hnull).trans (if_pos hcap))) ?_
    rw [UInt32.lt_iff_toNat_lt, hsum] at hcap
    omega
  have henc : (Message.streamData kind seq data).encode cap = written (12 + data.len)
      ([(0, [kind]), (1, [0]), (2, [0]), (3, [0]), (4, u32le seq), (8, u32le data.len)] ++
        copyStores 12 data.content data.len) := (if_neg hnull).trans (if_neg hcap)
  obtain ⟨hcont, htotal, hbytes⟩ := stream_stores kind seq data.content data.len
  rw [roundTrips_written_iff henc hcap hcont, htotal, hbytes, hsum, hlen, min_self]
  rw [UInt32.lt_iff_toNat_lt, hsum] at hcap
  constructor
  · rintro ⟨hcount, -⟩
    omega
  · intro hrange
    have hfit : data.len.toNat + 12 < 0x100000000 := by
      rcases hrange with h | h | h
      · exact h
      · omega
      · have hzero : ¬ 0 < data.len := fun hpos => hnull ⟨hpos, h⟩
        rw [UInt32.lt_iff_toNat_lt, not_lt] at hzero
        have hnone : data.len.toNat ≤ 0 := hzero
        omega
    have htake : data.content.take data.len.toNat = data.content :=
      List.take_of_length_le hlen.le
    rw [htake]
    obtain ⟨hread, hslice⟩ := decodeStreamData_eq kind seq hlen hfit
    refine ⟨by omega, ⟨12, data.len.toNat⟩, hslice, hread⟩

/-! ## Main result -/

/-- **Payload codecs.**  For every message and capacity, the encoder fails without reporting a length or
writes exactly the bytes below the length it reports, within the capacity, and they decode to the fields,
if and only if no length it measures or adds up leaves 32 bits (unless it refuses the message anyway);
and no decoder reads outside a payload or returns a slice that is not inside it. -/
theorem messageCodec_iff (m : Message) (cap : UInt32) (payload : List UInt8) (len : UInt32)
    (hlen : payload.length = len.toNat) :
    (m.RoundTrips cap ∧ DecodersInside payload len) ↔ m.InRange cap := by
  rw [and_iff_left (decodersInside hlen)]
  cases m with
  | caps mask => exact iff_of_true (roundTrips_caps mask cap) trivial
  | u32 value => exact iff_of_true (roundTrips_u32 value cap) trivial
  | error status msg => exact roundTrips_error_iff status msg cap
  | generate prompt => exact roundTrips_generate_iff prompt cap
  | generate2 prompt sampler => exact roundTrips_generate2_iff prompt sampler cap
  | token tok => exact iff_of_true (roundTrips_token tok cap) trivial
  | embed text => exact iff_of_true (roundTrips_embed text cap) trivial
  | embedding values => exact iff_of_true (roundTrips_embedding values cap) trivial
  | streamData kind seq data => exact roundTrips_streamData_iff kind seq data cap

/-- A piece of log of three bytes, and a payload of twelve. -/
theorem messageCodec_iff_log :
    (Message.streamData 3 1 ⟨some [7, 8, 9], 3, by simp⟩).RoundTrips 64 ∧
      DecodersInside (List.replicate 12 0) 12 :=
  (messageCodec_iff (.streamData 3 1 ⟨some [7, 8, 9], 3, by simp⟩) 64 (List.replicate 12 0) 12
    (by decide)).mpr (Or.inl (by decide))

/-- `2 ^ 32 - 12` bytes of data and a buffer of no bytes at all. -/
lemma not_roundTrips_huge {data : CBuf} (hlen : data.len = 0xFFFFFFF4) (hthere : data.bytes ≠ none) :
    ¬ (Message.streamData 3 1 data).RoundTrips 0 := by
  rw [roundTrips_streamData_iff]
  change ¬ (data.len.toNat + 12 < 0x100000000 ∨
    (0 : UInt32).toNat + 0x100000000 < data.len.toNat + 12 ∨ data.bytes = none)
  have hnat : data.len.toNat = 0xFFFFFFF4 := by
    rw [hlen]
    rfl
  have hzero : (0 : UInt32).toNat = 0 := rfl
  rintro (h | h | h)
  · omega
  · omega
  · exact hthere h

/-- A buffer of `2 ^ 32 - 12` zero bytes. -/
def hugeData : CBuf where
  bytes := some (List.replicate 0xFFFFFFF4 0)
  len := 0xFFFFFFF4
  length_eq := fun b hb => by
    have hcount : (0xFFFFFFF4 : UInt32).toNat = 0xFFFFFFF4 := rfl
    rw [← Option.some.inj hb, List.length_replicate, hcount]

/-- `2 ^ 32 - 12` bytes of data make `pai_proto_msg_encode_stream_data` write past a buffer of no bytes
at all: the length it compares with the capacity is 0. -/
theorem messageCodec_fails : ¬ (Message.streamData 3 1 hugeData).RoundTrips 0 :=
  not_roundTrips_huge rfl (Option.some_ne_none _)

end Prospero.Payload
