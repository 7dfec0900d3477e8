import Prospero.Graph.Bridge
import Prospero.Models.Quantize
import Prospero.Models.TokenizerCodec
import Prospero.Pai.Container
import Prospero.Scheduler.Scheduler

/-!
# Models and sessions

`models/model.c`: a container is opened into a model (metadata, manifest, weights, program, graph,
memory plan, tokenizer), and a session loads the weights into the planned region.

Parameters stand for what lies outside this module: `malloc n` says that an allocation of `n` bytes
succeeds, `inflate` is `pai_compress_decode`, `qsort` is the order the planner's sort gives to ties,
and `kvInit` is the status of `pai_kv_cache_init_owned`.
-/

namespace Prospero

open Buffer ByteString Footprint Reader

/-! ## Models -/

/-- `struct pai_model`. -/
structure Model where
  /-- Metadata. -/
  info : PaiMeta
  /-- Decoded program. -/
  ir : IrProgram
  /-- Rebuilt graph, sorted. -/
  graph : Graph
  /-- Static memory plan. -/
  memPlan : GraphMemPlan
  /-- Tensor manifest. -/
  manifest : List PaiTensor
  /-- Canonical weights. -/
  weights : List UInt8
  /-- `weights_bytes`. -/
  weightsBytes : UInt64
  /-- Tokenizer. -/
  tokenizer : Tok

/-- A status result inside a reader. -/
def liftStatus {α : Type} (r : Except PaiStatus α) : Read PaiStatus α :=
  match r with
  | .ok a => .ok a
  | .error e => .error (.fail e)

/-- A section that must be there. -/
def requireSection (container : PaiContainer) (type : UInt32) : Read PaiStatus (List UInt8) :=
  match paiPaiSection container type with
  | some sec => .ok sec
  | none => .error (.fail paiErrProtocol)

/-- The size of the decompressed weights: the largest end of a manifest entry. -/
def decSize (manifest : List PaiTensor) : UInt64 :=
  manifest.foldl (fun acc t => if acc < t.offset + t.sizeBytes then t.offset + t.sizeBytes else acc) 0

section Open

variable (malloc : ℕ → Bool) (inflate : List UInt8 → ℕ → Option (List UInt8))
  (qsort : Planner → List SortEntry)

/-- The weights of a container, decompressed if they are stored so, and their size. -/
def openWeights (container : PaiContainer) (manifest : List PaiTensor) :
    Read PaiStatus (List UInt8 × UInt64) := do
  let sec ← requireSection container paiPaiSecWeights
  refuse (sec.length = 0) paiErrProtocol
  if paiPaiSectionFlags container paiPaiSecWeights &&& paiPaiSecFlagCompressed ≠ 0 then
    let size := decSize manifest
    refuse (size = 0) paiErrProtocol
    refuse (malloc size.toNat = false) paiErrNomem
    match inflate sec size.toNat with
    | none => .error (.fail paiErrProtocol)
    | some weights =>
      refuse (weights.length ≠ size.toNat) paiErrProtocol
      .ok (weights, size)
  else
    refuse (malloc sec.length = false) paiErrNomem
    .ok (sec, UInt64.ofNat sec.length)

/-- The tokenizer of a container, empty when it has none. -/
def openTokenizer (container : PaiContainer) : Read PaiStatus Tok :=
  match paiPaiSection container paiPaiSecTokenizer with
  | some sec => paiTokDeserialize sec
  | none => .ok paiTokInit

/-- `pai_model_open_blob`. -/
def paiModelOpenBlob (blob : List UInt8) : Read PaiStatus Model := do
  let container ← paiPaiOpen blob
  let metaSec ← requireSection container paiPaiSecMeta
  let info ← paiPaiMetaDecode metaSec
  let manifestSec ← requireSection container paiPaiSecManifest
  let manifest ← paiPaiManifestDecode manifestSec paiPaiMaxTensors
  let (weights, weightsBytes) ← openWeights malloc inflate container manifest
  let irSec ← requireSection container paiPaiSecIr
  let ir ← paiIrDecode irSec
  let graph ← liftStatus (paiIrToGraph ir)
  let planned := paiGraphMemoryPlanPersistent qsort graph
  let memPlan ← liftStatus planned.2
  let tokenizer ← openTokenizer container
  .ok ⟨info, ir, planned.1, memPlan, manifest, weights, weightsBytes, tokenizer⟩

end Open

/-- A container with the given sections, uncompressed; empty when one of them cannot be encoded. -/
def packContainer (info : PaiMeta) (manifest : List PaiTensor) (weights : List UInt8) (ir : IrProgram)
    (tokenizer : Option (List UInt8)) : List UInt8 :=
  match paiPaiMetaEncode info, paiPaiManifestEncode manifest 0xFFFFFFFF with
  | .ok metaSec, .ok manifestSec =>
    let sections := [(paiPaiSecMeta, metaSec), (paiPaiSecManifest, manifestSec),
      (paiPaiSecWeights, weights), (paiPaiSecIr, irBlob ir)] ++
      tokenizer.toList.map fun tok => (paiPaiSecTokenizer, tok)
    match paiPaiBuild (sections.map fun s => ⟨s.1, 0, s.2, UInt32.ofNat s.2.length⟩) 0xFFFFFFFF with
    | .ok blob => blob
    | .error _ => []
  | _, _ => []

/-! ## Loading weights -/

/-- `&model->ir.values[id]` for an id up to the number of values; the entry `0` is zero. -/
def IrProgram.valueAt (ir : IrProgram) (id : ℕ) : Option IrValue :=
  if id = 0 then some ⟨.f32, 0, 0, 0, padDims [], 0, 0, IrQuant.none⟩ else ir.values[id - 1]?

/-- The scheme the loader uses for a quantized value. -/
def loadScheme (quant : IrQuant) : QuantScheme := ⟨quant.bitWidth, 1, quant.groupSize⟩

section Load

variable (model : Model)

/-- A quantized tensor in the loop of `pai_session_init`. -/
def loadQuantized (t : PaiTensor) (v : GraphValue) (quant : IrQuant) : Kernel Unit :=
  let off := paiGraphMemPlanOffset model.memPlan t.valueId.toNat
  if quant.bitWidth ≠ 4 ∧ quant.bitWidth ≠ 8 then .fail paiErrUnsupported
  else if model.memPlan.regionBytes < off + v.sizeBytes ∨
      model.weightsBytes < t.offset + t.sizeBytes then .fail paiErrMismatch
  else
    let n := v.sizeBytes.toNat / 4
    let qBytes := paiQuantValueBytes n (loadScheme quant)
    if u64 (qBytes + paiQuantScaleBytes n (loadScheme quant)) ≠ t.sizeBytes.toNat then
      .fail paiErrMismatch
    else
      paiDequantizeF32 t.offset.toNat (t.offset.toNat + qBytes) n (loadScheme quant) .region off.toNat

/-- An unquantized tensor in the loop of `pai_session_init`. -/
def loadRaw (t : PaiTensor) : Kernel Unit :=
  let off := paiGraphMemPlanOffset model.memPlan t.valueId.toNat
  if model.memPlan.regionBytes < off + t.sizeBytes ∨ model.weightsBytes < t.offset + t.sizeBytes then
    .fail paiErrMismatch
  else do
    let bs ← loadBytes .weights t.offset.toNat t.sizeBytes.toNat
    storeBytes .region off.toNat bs

/-- One round of the loop of `pai_session_init`; an entry of an unknown value is skipped. -/
def loadEntry (t : PaiTensor) : Kernel Unit :=
  match model.graph.value? t.valueId.toNat with
  | none => pure ()
  | some v =>
    match model.ir.valueAt t.valueId.toNat with
    | none => loadRaw model t
    | some iv =>
      if iv.quant.present ≠ 0 then loadQuantized model t v iv.quant else loadRaw model t

/-- The loop of `next_pow2_u64`; the bound in its test is reached after 62 doublings. -/
def doubleUpTo (v : UInt64) : ℕ → UInt64 → UInt64
  | 0, p => p
  | fuel + 1, p => if p < v ∧ p < 0x4000000000000000 then doubleUpTo v fuel (p <<< 1) else p

/-- `next_pow2_u64`. -/
def nextPow2U64 (v : UInt64) : UInt64 := doubleUpTo v 62 1

/-- A session: the graph and the plan it executes. -/
structure Session where
  /-- The sorted graph. -/
  graph : Graph
  /-- The execution plan. -/
  plan : SchedPlan

/-- The key-value cache is wanted and could not be made. -/
def kvFails (kvInit : UInt64 → UInt32 → UInt32 → PaiStatus) : Option PaiStatus :=
  if 0 < model.info.numLayers ∧ 0 < model.info.kvBytesPerToken then
    let need := model.info.contextLen.toUInt64 * model.info.numLayers.toUInt64 *
      model.info.kvBytesPerToken.toUInt64
    let st := kvInit (nextPow2U64 (if need < 128 then 128 else need)) model.info.numLayers
      model.info.kvBytesPerToken
    if st ≠ paiOk then some st else none
  else none

/-- `pai_session_init`. -/
def paiSessionInit (malloc : ℕ → Bool) (kvInit : UInt64 → UInt32 → UInt32 → PaiStatus) :
    Kernel Session :=
  let built := paiSchedBuildPersistent model.graph model.memPlan .interactive fun _ => 0
  match built.2 with
  | .error e => .fail e
  | .ok plan =>
    if malloc model.memPlan.regionBytes.toNat = false then .fail paiErrNomem
    else do
      forEach (loadEntry model) model.manifest
      match kvFails model kvInit with
      | some e => .fail e
      | none => pure ⟨built.1, plan⟩

/-- `load_value_f32`: the number of elements written to the caller's buffer. -/
def loadValueF32 (malloc : ℕ → Bool) (valueId : ℕ) : Kernel ℕ :=
  match model.manifest.find? fun t => t.valueId.toNat == valueId with
  | none => .fail paiErrMismatch
  | some t =>
    match model.ir.valueAt valueId with
    | none => .fail paiErrMismatch
    | some iv =>
      let numel := (iv.extents.foldl (· * ·) 1).toNat
      if numel = 0 ∨ 0x100000000 < numel then .fail paiErrUnsupported
      else if iv.quant.present ≠ 0 then
        if iv.quant.bitWidth ≠ 4 ∧ iv.quant.bitWidth ≠ 8 then .fail paiErrUnsupported
        else
          let qBytes := paiQuantValueBytes numel (loadScheme iv.quant)
          if u64 (qBytes + paiQuantScaleBytes numel (loadScheme iv.quant)) ≠ t.sizeBytes.toNat then
            .fail paiErrMismatch
          else if malloc (numel * 4) = false then .fail paiErrNomem
          -- the end of the entry is not compared with the size of the weights
          else do
            paiDequantizeF32 t.offset.toNat (t.offset.toNat + qBytes) numel (loadScheme iv.quant)
              .scratch 0
            pure numel
      else if t.sizeBytes.toNat ≠ numel * 4 ∨ model.weightsBytes < t.offset + t.sizeBytes then
        .fail paiErrMismatch
      else if malloc (numel * 4) = false then .fail paiErrNomem
      else do
        let bs ← loadBytes .weights t.offset.toNat (numel * 4)
        storeBytes .scratch 0 bs
        pure numel

end Load

end Prospero
