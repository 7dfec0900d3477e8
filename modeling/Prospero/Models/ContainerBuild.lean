import Prospero.Models.Model
import Prospero.Compression.Encoder

/-!
# Building containers

`pai_container_build` (`models/container.c`): value and op descriptors become a graph and an IR
program, the data of the params is packed behind one another into the weights (quantized if wanted) with
a manifest entry each, and the parts are written as the sections of a container.

The result is in `Read`: a descriptor whose buffer is shorter than the element count it states makes
the writer read outside that buffer (`Stop.outOfRange`).  `malloc` and `deflate` (for
`pai_compress_encode`) are parameters.
-/

namespace Prospero

open Buffer ByteString Reader

/-! ## Descriptors -/

/-- `pai_container_tensor_t`; floats are bit patterns. -/
structure ContainerTensor where
  /-- Value id. -/
  id : UInt32
  /-- Element type number. -/
  dtype : UInt32
  /-- Number of extents in use. -/
  rank : UInt32
  /-- Extents. -/
  shape : Dims
  /-- `0` input, `1` param, `2` activation, `3` output. -/
  kind : UInt32
  /-- Manifest name, `none` for `NULL`. -/
  name : Option (List UInt8)
  /-- The buffer of the weights, `none` for `NULL`. -/
  data : Option (List UInt32)
  /-- Stated number of elements. -/
  n : UInt64
  /-- May be quantized. -/
  quantize : Bool

/-- `pai_container_op_t`; the arities are the lengths of the lists. -/
structure ContainerOp where
  /-- Op id. -/
  id : UInt32
  /-- `pai_graph_op_kind_t`. -/
  kind : UInt32
  /-- Consumed value ids. -/
  inputs : List UInt32
  /-- Produced value ids. -/
  outputs : List UInt32

/-- The field `quant` of the options: `NULL` and `none`, `q8`, `q4`, or another text. -/
inductive QuantChoice where
  | none
  | q8
  | q4
  | other
deriving DecidableEq

/-- `pai_container_quant_t`. -/
structure ContainerQuant where
  /-- Scheme by name. -/
  quant : QuantChoice
  /-- Elements per scale group; `0` for one group. -/
  quantGroup : UInt16
  /-- Compression method; `0` for none. -/
  compress : UInt32

/-- The scheme of a choice. -/
def ContainerQuant.scheme (options : ContainerQuant) : QuantScheme :=
  ⟨if options.quant = .q4 then 4 else 8, 1, options.quantGroup⟩

/-- Tensors are quantized. -/
def ContainerQuant.on (options : ContainerQuant) : Bool :=
  options.quant = .q8 || options.quant = .q4

/-- The behaviour of a `NULL` pointer to the options. -/
def ContainerQuant.absent : ContainerQuant := ⟨.none, 0, 0⟩

/-! ## Graph -/

/-- `tensor_numel`. -/
def tensorNumel (t : ContainerTensor) : UInt64 :=
  (t.shape.val.take t.rank.toNat).foldl (· * ·) 1

/-- One round of the tensor loop, at position `i`. -/
def addTensor (graph : Graph) (i : ℕ) (t : ContainerTensor) : Read PaiStatus Graph := do
  refuse (t.id.toNat ≠ i + 1 ∨ t.rank = 0 ∨ paiTensorMaxRank < t.rank.toNat ∨ tensorNumel t = 0)
    paiErrInvalidArg
  refuse (t.kind = 1 ∧ (t.name = none ∨ t.data = none ∨ t.n = 0 ∨ t.n ≠ tensorNumel t))
    paiErrInvalidArg
  -- `pai_graph_add_value` returns no id for an unknown element type
  match if t.dtype < 256 then PaiDtype.ofCode t.dtype.toUInt8 else none with
  | none => .error (.fail paiErrMismatch)
  | some dtype =>
    let r := paiGraphAddValue graph dtype (t.shape.val.take t.rank.toNat) 16
    refuse (r.2 ≠ t.id.toNat) paiErrMismatch
    .ok (if t.kind = 0 then paiGraphSetInput r.1 r.2
      else if t.kind = 3 then paiGraphSetOutput r.1 r.2 else r.1)

/-- The tensor loop from position `i` on. -/
def addTensors : Graph → ℕ → List ContainerTensor → Read PaiStatus Graph
  | graph, _, [] => .ok graph
  | graph, i, t :: ts => do
    let graph ← addTensor graph i t
    addTensors graph (i + 1) ts

/-- The op kind of a number, `none` behind `PAI_OP_CUSTOM`. -/
def opKindOf (kind : UInt32) : Option OpKind :=
  [OpKind.none, .add, .mul, .gemm, .gemv, .matmul, .relu, .softmax, .layernorm, .rmsnorm, .rope,
    .attention, .reshape, .concat, .convert, .copy, .silu, .custom][kind.toNat]?

/-- The op loop from position `i` on.  An unknown kind is noticed later, by `pai_ir_from_graph`. -/
def addOps : Graph → ℕ → List ContainerOp → Read PaiStatus Graph
  | graph, _, [] => .ok graph
  | graph, i, o :: os => do
    refuse (o.id.toNat ≠ i + 1 ∨ o.inputs.length = 0 ∨ o.outputs.length = 0 ∨
      paiGraphMaxArity < o.inputs.length ∨ paiGraphMaxArity < o.outputs.length) paiErrInvalidArg
    let r := paiGraphAddOp graph ((opKindOf o.kind).getD .none) (o.inputs.map UInt32.toNat)
      (o.outputs.map UInt32.toNat)
    refuse (r.2 ≠ o.id.toNat) paiErrMismatch
    addOps r.1 (i + 1) os

/-- The quantization record of the packed params. -/
def ContainerQuant.irQuant (options : ContainerQuant) : IrQuant where
  present := 1
  bitWidth := options.scheme.bitWidth
  scaleRepr := 0
  zeroPointRepr := 0
  isSigned := 1
  blockStructure := if options.quantGroup = 0 then 0 else paiIrQuantBlockGroup
  groupSize := options.quantGroup

/-- The tensor has data to pack. -/
def ContainerTensor.packed (t : ContainerTensor) : Bool := t.kind = 1 && t.data.isSome

/-- The loop that records the quantization of the packed params. -/
def setQuants (options : ContainerQuant) : IrProgram → List ContainerTensor →
    Read PaiStatus IrProgram
  | ir, [] => .ok ir
  | ir, t :: ts => do
    if t.packed && t.quantize then
      let r := paiIrValueSetQuant ir t.id.toNat options.irQuant
      refuse (r.2 ≠ paiOk) r.2
      setQuants options r.1 ts
    else setQuants options ir ts

/-! ## Weights -/

/-- The first `n` elements of a buffer. -/
def readElements (data : List UInt32) (n : ℕ) : Read PaiStatus (List UInt32) :=
  if n ≤ data.length then .ok (data.take n) else .error .outOfRange

section Pack

variable (malloc : ℕ → Bool) (options : ContainerQuant)

/-- The bytes a param takes in the weights. -/
def packedSize (t : ContainerTensor) : ℕ :=
  if options.on && t.quantize then
    u64 (paiQuantValueBytes t.n.toNat options.scheme + paiQuantScaleBytes t.n.toNat options.scheme)
  else u64 (t.n.toNat * 4)

/-- The manifest entry of a param whose bytes start at `offset`. -/
def manifestEntry (t : ContainerTensor) (offset : ℕ) : PaiTensor where
  name := (cString (t.name.getD [])).take 63
  valueId := t.id
  dtype := .f32
  rank := t.rank.toUInt8
  shape := t.shape
  offset := UInt64.ofNat offset
  sizeBytes := UInt64.ofNat (packedSize options t)

/-- The bytes of a param. -/
def packTensor (t : ContainerTensor) : Read PaiStatus (List UInt8) := do
  let data ← readElements (t.data.getD []) t.n.toNat
  if options.on && t.quantize then
    refuse (malloc (paiQuantValueBytes t.n.toNat options.scheme) = false ∨
      malloc (paiQuantScaleBytes t.n.toNat options.scheme) = false) paiErrNomem
    let (values, scales) ← liftStatus (paiQuantizeF32 data options.scheme)
    .ok (values ++ scales)
  else .ok (data.flatMap u32le)

/-- The loop over the params: the manifest and the weights. -/
def packWeights : List PaiTensor → List UInt8 → List ContainerTensor →
    Read PaiStatus (List PaiTensor × List UInt8)
  | manifest, weights, [] => .ok (manifest, weights)
  | manifest, weights, t :: ts =>
    if t.packed then do
      refuse (malloc (u64 (weights.length + packedSize options t)) = false) paiErrNomem
      let bytes ← packTensor malloc options t
      packWeights (manifest ++ [manifestEntry options t weights.length]) (weights ++ bytes) ts
    else packWeights manifest weights ts

end Pack

/-! ## Tokenizer -/

/-- The token loop. -/
def addTokens : Tok → List (UInt32 × List UInt8) → Read PaiStatus Tok
  | tok, [] => .ok tok
  | tok, t :: ts => do
    let tok ← tokCall (paiTokAddToken tok t.1 t.2)
    addTokens tok ts

/-- The merge loop. -/
def addMerges : Tok → List Merge → Read PaiStatus Tok
  | tok, [] => .ok tok
  | tok, m :: ms => do
    let tok ← tokCall (paiTokAddMerge tok m.left m.right m.result)
    addMerges tok ms

/-! ## Container -/

/-- What `pai_container_build` is given. -/
structure ContainerSpec where
  /-- Metadata. -/
  info : PaiMeta
  /-- Value descriptors. -/
  tensors : List ContainerTensor
  /-- Op descriptors. -/
  ops : List ContainerOp
  /-- Tokenizer entries. -/
  tokens : List (UInt32 × List UInt8)
  /-- Merge rules. -/
  merges : List Merge
  /-- Quantization and compression. -/
  options : ContainerQuant

section Build

variable (malloc : ℕ → Bool) (deflate : List UInt8 → ℕ → Except PaiStatus (List UInt8))

/-- The graph of the descriptors, sorted. -/
def containerGraph (spec : ContainerSpec) : Read PaiStatus Graph := do
  let graph ← addTensors paiGraphInit 0 spec.tensors
  let graph ← addOps graph 0 spec.ops
  let sorted := paiGraphTopoSort graph
  refuse (sorted.2 ≠ paiOk) sorted.2
  .ok sorted.1

/-- The IR program of the descriptors. -/
def containerIr (spec : ContainerSpec) (graph : Graph) : Read PaiStatus IrProgram := do
  refuse (spec.ops.any (fun o => (opKindOf o.kind).isNone) = true) paiErrMismatch
  let ir ← liftStatus (paiIrFromGraph graph)
  if spec.options.on then setQuants spec.options ir spec.tensors else .ok ir

/-- The tokenizer of the descriptors. -/
def containerTok (spec : ContainerSpec) : Read PaiStatus Tok := do
  let tok ← addTokens paiTokInit spec.tokens
  let tok ← addMerges tok spec.merges
  .ok (paiTokFinalize tok)

/-- A section with all of `data`, its size cut to 32 bits. -/
def addSection (builder : List BuilderSection) (type : UInt32) (data : List UInt8) :
    List BuilderSection :=
  (paiPaiBuilderAdd builder type data (UInt32.ofNat data.length)).1

/-- The weights section, compressed if wanted; its size too is cut to 32 bits. -/
def addWeights (spec : ContainerSpec) (weights : List UInt8) (builder : List BuilderSection) :
    Read PaiStatus (List BuilderSection) := do
  if spec.options.compress ≠ 0 ∧ 0 < weights.length then
    let cap := u64 (paiCompressBound weights.length + 16)
    refuse (malloc cap = false) paiErrNomem
    let packed ← liftStatus (deflate weights cap)
    let r := paiPaiBuilderAddFlags builder paiPaiSecWeights paiPaiSecFlagCompressed packed
      (UInt32.ofNat packed.length)
    refuse (r.2 ≠ paiOk) r.2
    .ok r.1
  else .ok (addSection builder paiPaiSecWeights weights)

/-- `pai_container_build`. -/
def paiContainerBuild (spec : ContainerSpec) : Read PaiStatus (List UInt8) := do
  refuse (spec.tensors.length = 0) paiErrInvalidArg
  refuse (spec.options.quant = .other) paiErrInvalidArg
  let graph ← containerGraph spec
  let ir ← containerIr spec graph
  refuse (malloc (spec.tensors.length * 144) = false) paiErrNomem
  let (manifest, weights) ← packWeights malloc spec.options [] [] spec.tensors
  let tok ← containerTok spec
  let metaBlob ← liftStatus (paiPaiMetaEncode spec.info)
  refuse (malloc (8 + manifest.length * 160) = false) paiErrNomem
  let manifestBlob ← liftStatus (paiPaiManifestEncode manifest (8 + manifest.length * 160))
  let irSize := paiIrEncodedSize ir
  refuse (irSize = 0) paiErrMismatch
  refuse (malloc irSize = false) paiErrNomem
  let irBytes ← liftStatus (paiIrEncode ir irSize)
  let tokSize := paiTokBlobSize tok
  refuse (malloc (if 0 < tokSize then tokSize else 1) = false) paiErrNomem
  let tokBlob ← if 0 < tokSize then liftStatus (paiTokSerialize tok tokSize) else .ok []
  let builder := addSection [] paiPaiSecMeta metaBlob
  let builder := addSection builder paiPaiSecManifest manifestBlob
  let builder ← addWeights malloc deflate spec weights builder
  let builder := addSection builder paiPaiSecIr irBytes
  let builder := if 0 < tokSize then addSection builder paiPaiSecTokenizer tokBlob else builder
  let total := paiPaiEncodedSize builder
  refuse (total = 0) paiErrMismatch
  refuse (malloc total = false) paiErrNomem
  liftStatus (paiPaiBuild builder total)

end Build

end Prospero
