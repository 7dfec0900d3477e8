import Prospero.Ir.Codec

/-!
# Model container

The `.pai` container (`pai/pai.c`): a header, a table of sections, the section payloads and a CRC-32
over all of it, and the codecs of the metadata and of the tensor manifest.

The readers are in `Read`: a read outside the input would be an outcome of its own.
-/

namespace Prospero

open Buffer ByteString Reader

/-- `PAI_PAI_MAGIC`. -/
def paiPaiMagic : UInt32 := 0x43494150
/-- `PAI_PAI_VERSION`. -/
def paiPaiVersion : UInt16 := 1
/-- `PAI_PAI_HEADER_SIZE`. -/
abbrev paiPaiHeaderSize : ℕ := 16
/-- `PAI_PAI_MAX_SECTIONS`. -/
abbrev paiPaiMaxSections : ℕ := 8
/-- `PAI_PAI_META_SIZE`. -/
abbrev paiPaiMetaSize : ℕ := 64
/-- `PAI_PAI_NAME_MAX`. -/
abbrev paiPaiNameMax : ℕ := 31
/-- `PAI_PAI_MAX_TENSORS`. -/
abbrev paiPaiMaxTensors : ℕ := 512
/-- `PAI_PAI_SEC_FLAG_COMPRESSED`. -/
def paiPaiSecFlagCompressed : UInt32 := 1

/-- `PAI_PAI_SEC_META`. -/
def paiPaiSecMeta : UInt32 := 1
/-- `PAI_PAI_SEC_MANIFEST`. -/
def paiPaiSecManifest : UInt32 := 2
/-- `PAI_PAI_SEC_WEIGHTS`. -/
def paiPaiSecWeights : UInt32 := 3
/-- `PAI_PAI_SEC_IR`. -/
def paiPaiSecIr : UInt32 := 4
/-- `PAI_PAI_SEC_TOKENIZER`. -/
def paiPaiSecTokenizer : UInt32 := 5
/-- `PAI_PAI_SEC_PROFILE`, the last section type. -/
def paiPaiSecProfile : UInt32 := 7

/-- The CRC-32 of the covered header bytes and of everything behind the header. -/
@[irreducible] def containerCrc (header rest : List UInt8) : UInt32 :=
  paiProtoCrc32Fin (paiProtoCrc32Upd (paiProtoCrc32Upd paiProtoCrc32Init header) rest)

/-! ## Writer -/

/-- A section of `pai_pai_builder_t`: `size` bytes of `data` are written. -/
structure BuilderSection where
  /-- `pai_pai_section_type_t`. -/
  type : UInt32
  /-- Section flags. -/
  flags : UInt32
  /-- The payload. -/
  data : List UInt8
  /-- The number of bytes to write, at most the length of the payload. -/
  size : UInt32

/-- `pai_pai_builder_add_flags`. -/
def paiPaiBuilderAddFlags (builder : List BuilderSection) (type flags : UInt32) (data : List UInt8)
    (size : UInt32) : List BuilderSection × PaiStatus :=
  if type = 0 ∨ paiPaiSecProfile < type ∨ paiPaiMaxSections ≤ builder.length then
    (builder, paiErrInvalidArg)
  else (builder ++ [⟨type, flags, data, size⟩], paiOk)

/-- `pai_pai_builder_add`. -/
def paiPaiBuilderAdd (builder : List BuilderSection) (type : UInt32) (data : List UInt8)
    (size : UInt32) : List BuilderSection × PaiStatus :=
  paiPaiBuilderAddFlags builder type 0 data size

/-- `pai_pai_encoded_size`; `0` when the container cannot be encoded. -/
def paiPaiEncodedSize (builder : List BuilderSection) : ℕ :=
  let total := paiPaiHeaderSize + builder.length * 16 + (builder.map fun s => s.size.toNat).sum
  if 0xFFFFFFFF < total then 0 else total

/-- The section table of sections whose payloads start at `cursor`. -/
def sectionTable : ℕ → List BuilderSection → List UInt8
  | _, [] => []
  | cursor, s :: ss =>
    u32le s.type ++ (u32le s.flags ++ (u32le (UInt32.ofNat cursor) ++ (u32le s.size ++
      sectionTable (cursor + s.size.toNat) ss)))

/-- The header bytes the CRC covers. -/
def containerHeader (numSections : ℕ) : List UInt8 :=
  u32le paiPaiMagic ++ (u16le paiPaiVersion ++ (u16le 0 ++ u32le (UInt32.ofNat numSections)))

/-- Section table and payloads. -/
def containerRest (builder : List BuilderSection) : List UInt8 :=
  sectionTable (paiPaiHeaderSize + builder.length * 16) builder ++
    builder.flatMap fun s => s.data.take s.size.toNat

/-- `pai_pai_build`: the bytes written. -/
def paiPaiBuild (builder : List BuilderSection) (cap : ℕ) : Except PaiStatus (List UInt8) :=
  if builder.length = 0 then .error paiErrInvalidArg
  else
    let total := paiPaiEncodedSize builder
    if total = 0 ∨ cap < total then .error paiErrInvalidArg
    else
      let header := containerHeader builder.length
      let rest := containerRest builder
      .ok (header ++ (u32le (containerCrc header rest) ++ rest))

/-! ## Reader -/

/-- An entry of the section table. -/
structure PaiSection where
  /-- `pai_pai_section_type_t`. -/
  type : UInt32
  /-- Section flags. -/
  flags : UInt32
  /-- Offset of the payload from the start of the file. -/
  offset : UInt32
  /-- Payload bytes. -/
  size : UInt32
deriving DecidableEq

/-- `pai_pai_container_t`. -/
structure PaiContainer where
  /-- The section table. -/
  sections : List PaiSection
  /-- The whole file. -/
  data : List UInt8

/-- Entry `i` of the section table. -/
def sectionAt (data : List UInt8) (i : ℕ) : Read PaiStatus PaiSection := do
  let type ← u32At data (paiPaiHeaderSize + i * 16)
  let flags ← u32At data (paiPaiHeaderSize + i * 16 + 4)
  let offset ← u32At data (paiPaiHeaderSize + i * 16 + 8)
  let size ← u32At data (paiPaiHeaderSize + i * 16 + 12)
  .ok ⟨type, flags, offset, size⟩

/-- Two sections of one type, or with overlapping payloads. -/
def PaiSection.conflicts (s prev : PaiSection) : Bool :=
  prev.type == s.type || (s.offset < prev.offset + prev.size && prev.offset < s.offset + s.size)

/-- The table loop: read and check `n` more entries behind `prev`. -/
def openSections (data : List UInt8) (tableBytes : ℕ) :
    ℕ → List PaiSection → Read PaiStatus (List PaiSection)
  | 0, prev => .ok prev
  | n + 1, prev => do
    let s ← sectionAt data prev.length
    refuse (s.type = 0 ∨ paiPaiSecProfile < s.type) paiErrProtocol
    refuse (s.flags ≠ 0 ∧ (s.type ≠ paiPaiSecWeights ∨
      s.flags &&& ~~~paiPaiSecFlagCompressed ≠ 0)) paiErrProtocol
    refuse (s.offset.toNat < paiPaiHeaderSize + tableBytes) paiErrProtocol
    refuse (data.length < s.offset.toNat + s.size.toNat) paiErrProtocol
    refuse (prev.any s.conflicts = true) paiErrProtocol
    openSections data tableBytes n (prev ++ [s])

/-- `pai_pai_open`. -/
def paiPaiOpen (data : List UInt8) : Read PaiStatus PaiContainer := do
  refuse (data.length < paiPaiHeaderSize) paiErrInvalidArg
  let magic ← u32At data 0
  let version ← u16At data 4
  refuse (magic ≠ paiPaiMagic) paiErrProtocol
  let flags ← u16At data 6
  refuse (version ≠ paiPaiVersion ∨ flags ≠ 0) paiErrProtocol
  let numSections ← u32At data 8
  refuse (numSections = 0 ∨ paiPaiMaxSections < numSections.toNat) paiErrProtocol
  let expectedCrc ← u32At data 12
  let tableBytes := numSections.toNat * 16
  refuse (data.length < paiPaiHeaderSize + tableBytes) paiErrProtocol
  let sections ← openSections data tableBytes numSections.toNat []
  let header ← bytesAt data 0 12
  let rest ← bytesAt data paiPaiHeaderSize (data.length - paiPaiHeaderSize)
  refuse (containerCrc header rest ≠ expectedCrc) paiErrProtocol
  .ok ⟨sections, data⟩

/-- The table entry of a section type. -/
def PaiContainer.find (container : PaiContainer) (type : UInt32) : Option PaiSection :=
  container.sections.find? fun s => s.type == type

/-- `pai_pai_section`: the payload of the first section of the type. -/
def paiPaiSection (container : PaiContainer) (type : UInt32) : Option (List UInt8) :=
  (container.find type).map fun s => slice container.data s.offset.toNat s.size.toNat

/-- `pai_pai_section_flags`. -/
def paiPaiSectionFlags (container : PaiContainer) (type : UInt32) : UInt32 :=
  match container.find type with
  | some s => s.flags
  | none => 0

/-! ## Metadata -/

/-- `pai_pai_meta_t`; the name without the zeros behind it. -/
structure PaiMeta where
  /-- Model name. -/
  name : List UInt8
  /-- `PAI_PAI_FAMILY_*`. -/
  family : UInt32
  /-- Tokens in one sequence. -/
  contextLen : UInt32
  /-- Transformer layers. -/
  numLayers : UInt32
  /-- Bytes per layer and token position. -/
  kvBytesPerToken : UInt32
  /-- Vocabulary size. -/
  vocabSize : UInt32
  /-- Reserved. -/
  reserved : UInt32
deriving DecidableEq

/-- `pai_pai_meta_encode` into a buffer of `PAI_PAI_META_SIZE` bytes. -/
def paiPaiMetaEncode (info : PaiMeta) : Except PaiStatus (List UInt8) :=
  if paiPaiNameMax < info.name.length then .error paiErrInvalidArg
  else
    .ok (u16le (UInt16.ofNat info.name.length) ++
      (info.name ++ (List.replicate (paiPaiNameMax + 1 - info.name.length) 0 ++
        (u32le info.family ++ (u32le info.contextLen ++ (u32le info.numLayers ++
          (u32le info.kvBytesPerToken ++ (u32le info.vocabSize ++ (u32le info.reserved ++
            List.replicate 6 0)))))))))

/-- `pai_pai_meta_decode`. -/
def paiPaiMetaDecode (data : List UInt8) : Read PaiStatus PaiMeta := do
  refuse (data.length < paiPaiMetaSize) paiErrInvalidArg
  let nameLen ← u16At data 0
  refuse (paiPaiNameMax < nameLen.toNat) paiErrProtocol
  let name ← bytesAt data 2 nameLen.toNat
  let family ← u32At data 34
  let contextLen ← u32At data 38
  let numLayers ← u32At data 42
  let kvBytesPerToken ← u32At data 46
  let vocabSize ← u32At data 50
  let reserved ← u32At data 54
  .ok ⟨name, family, contextLen, numLayers, kvBytesPerToken, vocabSize, reserved⟩

/-! ## Manifest -/

/-- `pai_pai_tensor_t`; the name without the zeros behind it. -/
structure PaiTensor where
  /-- Tensor name. -/
  name : List UInt8
  /-- Value of the program the tensor belongs to. -/
  valueId : UInt32
  /-- Element type. -/
  dtype : PaiDtype
  /-- Number of extents in use. -/
  rank : UInt8
  /-- Extents. -/
  shape : Dims
  /-- Offset into the weights. -/
  offset : UInt64
  /-- Stored bytes. -/
  sizeBytes : UInt64
deriving DecidableEq

/-- `sizeof(t->name)`. -/
abbrev paiTensorNameSize : ℕ := 64

/-- The record of a tensor. -/
def encodeTensor (t : PaiTensor) : List UInt8 :=
  u16le (UInt16.ofNat t.name.length) ++ (t.name ++ (u32le t.valueId ++
    (t.dtype.code :: t.rank :: 0 :: 0 :: (t.shape.val.flatMap u64le ++
      (u64le t.offset ++ u64le t.sizeBytes)))))

/-- `pai_pai_manifest_encode` into a buffer of `cap` bytes. -/
def paiPaiManifestEncode (tensors : List PaiTensor) (cap : ℕ) : Except PaiStatus (List UInt8) :=
  if tensors.length = 0 ∨ paiPaiMaxTensors < tensors.length then .error paiErrInvalidArg
  else if cap < 4 + (tensors.map fun t => 74 + t.name.length).sum then .error paiErrInvalidArg
  else .ok (u32le (UInt32.ofNat tensors.length) ++ tensors.flatMap encodeTensor)

/-- One round of the manifest loop: the entry at `p`, with the offset behind it. -/
def decodeTensor (data : List UInt8) (p : ℕ) : Read PaiStatus (PaiTensor × ℕ) := do
  refuse (data.length < p + 2) paiErrProtocol
  let nameLen ← u16At data p
  -- the source makes this check twice
  refuse (nameLen = 0 ∨ paiTensorNameSize ≤ nameLen.toNat ∨
    data.length < p + 2 + nameLen.toNat + 72) paiErrProtocol
  let name ← bytesAt data (p + 2) nameLen.toNat
  let q := p + 2 + nameLen.toNat
  let valueId ← u32At data q
  let code ← u8At data (q + 4)
  let rank ← u8At data (q + 5)
  refuse (rank = 0 ∨ paiTensorMaxRank < rank.toNat) paiErrProtocol
  let dtype ← dtypeOf code
  let shape ← decodeDims data (q + 8)
  let offset ← u64At data (q + 56)
  let sizeBytes ← u64At data (q + 64)
  refuse (sizeBytes = 0) paiErrProtocol
  .ok (⟨name, valueId, dtype, rank, shape, offset, sizeBytes⟩, q + 72)

/-- The manifest loop. -/
def decodeTensors (data : List UInt8) : ℕ → ℕ → Read PaiStatus (List PaiTensor)
  | 0, _ => .ok []
  | n + 1, p => do
    let (t, p) ← decodeTensor data p
    let ts ← decodeTensors data n p
    .ok (t :: ts)

/-- `pai_pai_manifest_decode`. -/
def paiPaiManifestDecode (data : List UInt8) (maxTensors : ℕ) : Read PaiStatus (List PaiTensor) := do
  refuse (data.length < 4 ∨ maxTensors = 0) paiErrInvalidArg
  let count ← u32At data 0
  refuse (count = 0 ∨ paiPaiMaxTensors < count.toNat ∨ maxTensors < count.toNat) paiErrProtocol
  decodeTensors data count.toNat 4

/-! ## What is accepted -/

/-- An accepted entry is inside the input and has a positive size. -/
lemma post_decodeTensor (data : List UInt8) (p : ℕ) :
    Post (decodeTensor data p) fun r => r.1.sizeBytes ≠ 0 := by
  unfold decodeTensor
  refine post_refuse_bind fun hlen => ?_
  refine Post.bind (post_u16At (by omega)) fun nameLen _ _ => ?_
  refine post_refuse_bind fun hname => ?_
  simp only [not_or, not_lt] at hname
  obtain ⟨-, -, hroom⟩ := hname
  refine Post.bind (post_bytesAt (by omega)) fun name _ _ => ?_
  refine Post.bind (post_u32At (by omega)) fun valueId _ _ => ?_
  refine Post.bind (post_u8At (by omega)) fun code _ _ => ?_
  refine Post.bind (post_u8At (by omega)) fun rank _ _ => ?_
  refine post_refuse_bind fun _ => ?_
  refine Post.bind (post_dtypeOf code) fun dtype _ _ => ?_
  refine Post.bind (post_decodeDims (by omega)) fun shape _ _ => ?_
  refine Post.bind (post_u64At (by omega)) fun offset _ _ => ?_
  refine Post.bind (post_u64At (by omega)) fun sizeBytes _ _ => ?_
  refine post_refuse_bind fun hsize => ?_
  exact post_ok hsize

/-- An accepted manifest was read inside its input, and no tensor in it is empty. -/
lemma post_decodeTensors (data : List UInt8) (n p : ℕ) :
    Post (decodeTensors data n p) fun ts => ts.length = n ∧ ∀ t ∈ ts, t.sizeBytes ≠ 0 := by
  induction n generalizing p with
  | zero => exact ⟨rfl, fun t ht => absurd ht List.not_mem_nil⟩
  | succ n ih =>
    rw [decodeTensors]
    refine Post.bind (post_decodeTensor data p) fun r _ hr => ?_
    refine Post.bind (ih r.2) fun ts _ hts => ?_
    refine post_ok ⟨by rw [List.length_cons, hts.1], ?_⟩
    intro t ht
    rcases List.mem_cons.mp ht with rfl | ht
    · exact hr
    · exact hts.2 t ht

lemma post_paiPaiManifestDecode (data : List UInt8) (maxTensors : ℕ) :
    Post (paiPaiManifestDecode data maxTensors) fun ts =>
      ts.length ≤ paiPaiMaxTensors ∧ ∀ t ∈ ts, t.sizeBytes ≠ 0 := by
  unfold paiPaiManifestDecode
  refine post_refuse_bind fun hlen => ?_
  refine Post.bind (post_u32At (by omega)) fun count _ _ => ?_
  refine post_refuse_bind fun hcount => ?_
  refine (post_decodeTensors data count.toNat 4).mono fun ts hts => ?_
  exact ⟨by omega, hts.2⟩

end Prospero
