import Prospero.Tensor

/-!
# Prospero IR programs

The in-memory program of the graph-level IR and its builder (`ir/ir.c`): values with shape,
alignment and quantization metadata, ops over value ids, and the graph input and output lists.

Ids count from one; the value of id `v` stands at position `v - 1` of the list.  `IrProgram.Built` is
what every sequence of builder calls keeps (`irBuilt_run`).
-/

namespace Prospero

/-! ## Programs -/

/-- `PAI_IR_MAX_VALUES`. -/
abbrev paiIrMaxValues : ℕ := 1024
/-- `PAI_IR_MAX_OPS`. -/
abbrev paiIrMaxOps : ℕ := 1024
/-- `PAI_IR_MAX_ARITY`. -/
abbrev paiIrMaxArity : ℕ := 16
/-- `PAI_IR_OP_KIND_COUNT`. -/
abbrev paiIrOpKindCount : UInt8 := 18
/-- `PAI_IR_VALUE_KIND_COUNT`. -/
abbrev paiIrValueKindCount : UInt8 := 5
/-- `PAI_IR_DEVICE_COUNT`. -/
abbrev paiIrDeviceCount : UInt8 := 3
/-- `PAI_IR_QUANT_REPR_COUNT`. -/
abbrev paiIrQuantReprCount : UInt8 := 4
/-- `PAI_IR_QUANT_BLOCK_GROUP`. -/
abbrev paiIrQuantBlockGroup : UInt8 := 2
/-- `PAI_IR_QUANT_BLOCK_COUNT`. -/
abbrev paiIrQuantBlockCount : UInt8 := 3

/-- `pai_ir_quant_t`. -/
structure IrQuant where
  /-- `0` for unquantized storage. -/
  present : UInt8
  /-- Storage bits per element. -/
  bitWidth : UInt8
  /-- Representation of the scales. -/
  scaleRepr : UInt8
  /-- Representation of the zero points. -/
  zeroPointRepr : UInt8
  /-- Signed storage. -/
  isSigned : UInt8
  /-- One scale per tensor, channel or group. -/
  blockStructure : UInt8
  /-- Elements per group. -/
  groupSize : UInt16
deriving DecidableEq

/-- The `shape` array of a value; the extents from the rank on are unused. -/
abbrev Dims := { dims : List UInt64 // dims.length = paiTensorMaxRank }

/-- `pai_ir_value_t`. -/
structure IrValue where
  /-- Element type. -/
  dtype : PaiDtype
  /-- Number of extents in use. -/
  rank : UInt8
  /-- Value category. -/
  kind : UInt8
  /-- Placement constraint. -/
  device : UInt8
  /-- Extents. -/
  shape : Dims
  /-- Contiguous payload bytes. -/
  sizeBytes : UInt64
  /-- Storage alignment. -/
  align : UInt64
  /-- Quantization metadata. -/
  quant : IrQuant
deriving DecidableEq

/-- The extents in use. -/
def IrValue.extents (value : IrValue) : List UInt64 := value.shape.val.take value.rank.toNat

/-- `pai_ir_op_t`; the arities are the lengths of the lists. -/
structure IrOp where
  /-- Op kind. -/
  kind : UInt8
  /-- Placement constraint. -/
  device : UInt8
  /-- Consumed value ids. -/
  inputs : List UInt16
  /-- Produced value ids. -/
  outputs : List UInt16
deriving DecidableEq

/-- `pai_ir_program_t`; the counts are the lengths of the lists. -/
structure IrProgram where
  /-- Values in id order. -/
  values : List IrValue
  /-- Ops in id order. -/
  ops : List IrOp
  /-- Graph inputs. -/
  inputIds : List UInt32
  /-- Graph outputs. -/
  outputIds : List UInt32
deriving DecidableEq

/-! ## Builder -/

/-- `pai_ir_init`. -/
def paiIrInit : IrProgram := ⟨[], [], [], []⟩

/-- The quantization record `memset` leaves in a new value. -/
def IrQuant.none : IrQuant := ⟨0, 0, 0, 0, 0, 0, 0⟩

/-- The alignment test of the builders and the decoder. -/
def isPow2 (align : UInt64) : Bool := align &&& (align - 1) == 0

/-- The quantization record is one that both `pai_ir_value_set_quant` and `pai_ir_decode` refuse. -/
def IrQuant.bad (quant : IrQuant) : Bool :=
  quant.present ≠ 0 &&
    (quant.bitWidth == 0 || 64 < quant.bitWidth || paiIrQuantReprCount ≤ quant.scaleRepr ||
      paiIrQuantReprCount ≤ quant.zeroPointRepr || paiIrQuantBlockCount ≤ quant.blockStructure ||
      (quant.blockStructure == paiIrQuantBlockGroup && quant.groupSize == 0))

/-- The shape array after `memset` and a copy of the extents in use. -/
def padDims (shape : List UInt64) : Dims :=
  ⟨(shape ++ List.replicate paiTensorMaxRank 0).take paiTensorMaxRank, by simp⟩

/-- `pai_ir_add_value`: the program and the new id, or `0`. -/
def paiIrAddValue (prog : IrProgram) (dtype : PaiDtype) (shape : List UInt64) (align : UInt64)
    (kind device : UInt8) : IrProgram × ℕ :=
  if shape.length = 0 ∨ paiTensorMaxRank < shape.length ∨ paiIrMaxValues ≤ prog.values.length ∨
      paiIrValueKindCount ≤ kind ∨ paiIrDeviceCount ≤ device ∨
      (align ≠ 0 ∧ isPow2 align = false) then (prog, 0)
  else
    match paiTensorContiguousSize dtype shape with
    | .error _ => (prog, 0)
    | .ok bytes =>
      if bytes = 0 then (prog, 0)
      else
        let value : IrValue :=
          { dtype := dtype
            rank := UInt8.ofNat shape.length
            kind := kind
            device := device
            shape := padDims shape
            sizeBytes := bytes
            align := if align ≠ 0 then align else 16
            quant := IrQuant.none }
        ({ prog with values := prog.values ++ [value] }, prog.values.length + 1)

/-- `pai_ir_value_set_quant`. -/
def paiIrValueSetQuant (prog : IrProgram) (valueId : ℕ) (quant : IrQuant) : IrProgram × PaiStatus :=
  if valueId = 0 ∨ prog.values.length < valueId then (prog, paiErrInvalidArg)
  else if quant.bad then (prog, paiErrInvalidArg)
  else
    ({ prog with
      values := prog.values.modify (valueId - 1) fun value => { value with quant := quant } }, paiOk)

/-- `pai_ir_add_op`: the program and the new id, or `0`. -/
def paiIrAddOp (prog : IrProgram) (kind device : UInt8) (inputs outputs : List UInt16) :
    IrProgram × ℕ :=
  if paiIrMaxArity < inputs.length ∨ paiIrMaxArity < outputs.length ∨ paiIrOpKindCount ≤ kind ∨
      paiIrDeviceCount ≤ device ∨ paiIrMaxOps ≤ prog.ops.length then (prog, 0)
  else if inputs.any (fun id => id == 0 || prog.values.length < id.toNat) then (prog, 0)
  else if outputs.any (fun id => id == 0 || prog.values.length < id.toNat) then (prog, 0)
  -- a repeated output, or an op consuming its own output
  else if ¬ outputs.Nodup ∨ outputs.any (inputs.contains ·) then (prog, 0)
  else ({ prog with ops := prog.ops ++ [⟨kind, device, inputs, outputs⟩] }, prog.ops.length + 1)

/-- The shared body of `pai_ir_set_input` and `pai_ir_set_output`: append a known value id to a list
that is not full. -/
def markId (prog : IrProgram) (ids : List UInt32) (valueId : UInt32) : List UInt32 :=
  if valueId = 0 ∨ prog.values.length < valueId.toNat ∨ paiIrMaxValues ≤ ids.length then ids
  else ids ++ [valueId]

/-- `pai_ir_set_input`. -/
def paiIrSetInput (prog : IrProgram) (valueId : UInt32) : IrProgram :=
  { prog with inputIds := markId prog prog.inputIds valueId }

/-- `pai_ir_set_output`. -/
def paiIrSetOutput (prog : IrProgram) (valueId : UInt32) : IrProgram :=
  { prog with outputIds := markId prog prog.outputIds valueId }

/-- A builder call. -/
inductive IrCall where
  /-- `pai_ir_add_value`. -/
  | addValue (dtype : PaiDtype) (shape : List UInt64) (align : UInt64) (kind device : UInt8)
  /-- `pai_ir_value_set_quant`. -/
  | setQuant (valueId : ℕ) (quant : IrQuant)
  /-- `pai_ir_add_op`. -/
  | addOp (kind device : UInt8) (inputs outputs : List UInt16)
  /-- `pai_ir_set_input`. -/
  | setInput (valueId : UInt32)
  /-- `pai_ir_set_output`. -/
  | setOutput (valueId : UInt32)

/-- One builder call; a call that fails changes nothing. -/
def IrProgram.step (prog : IrProgram) : IrCall → IrProgram
  | .addValue dtype shape align kind device => (paiIrAddValue prog dtype shape align kind device).1
  | .setQuant valueId quant => (paiIrValueSetQuant prog valueId quant).1
  | .addOp kind device inputs outputs => (paiIrAddOp prog kind device inputs outputs).1
  | .setInput valueId => paiIrSetInput prog valueId
  | .setOutput valueId => paiIrSetOutput prog valueId

/-- The program a sequence of builder calls leaves. -/
def irBuild (calls : List IrCall) : IrProgram := calls.foldl IrProgram.step paiIrInit

/-! ## Well-formed programs -/

/-- The value id exists. -/
def IrProgram.HasValue (prog : IrProgram) (id : ℕ) : Prop := 1 ≤ id ∧ id ≤ prog.values.length

/-- A value as the decoder accepts it: its size is the overflow-free product of shape and element
size, its alignment a power of two, its quantization record one the builder accepts. -/
structure IrValue.WellFormed (value : IrValue) : Prop where
  /-- The rank is between one and six. -/
  rank_pos : 0 < value.rank.toNat
  /-- The rank is between one and six. -/
  rank_le : value.rank.toNat ≤ paiTensorMaxRank
  /-- The category exists. -/
  kind_lt : value.kind < paiIrValueKindCount
  /-- The placement constraint exists. -/
  device_lt : value.device < paiIrDeviceCount
  /-- The size agrees with shape and element type. -/
  size_eq : paiTensorContiguousSize value.dtype value.extents = .ok value.sizeBytes
  /-- The alignment is a power of two. -/
  align_pow2 : value.align ≠ 0 ∧ isPow2 value.align = true
  /-- The quantization record is accepted by the builder. -/
  quant_ok : value.quant.bad = false

/-- An op over existing values whose outputs are distinct and not consumed by it. -/
structure IrOp.WellFormed (prog : IrProgram) (op : IrOp) : Prop where
  /-- The kind exists. -/
  kind_lt : op.kind < paiIrOpKindCount
  /-- The placement constraint exists. -/
  device_lt : op.device < paiIrDeviceCount
  /-- The inputs fit. -/
  inputs_le : op.inputs.length ≤ paiIrMaxArity
  /-- The outputs fit. -/
  outputs_le : op.outputs.length ≤ paiIrMaxArity
  /-- Inputs exist. -/
  inputs_exist : ∀ id ∈ op.inputs, prog.HasValue id.toNat
  /-- Outputs exist. -/
  outputs_exist : ∀ id ∈ op.outputs, prog.HasValue id.toNat
  /-- Outputs are distinct. -/
  outputs_nodup : op.outputs.Nodup
  /-- No output is consumed by its own op. -/
  outputs_disjoint : ∀ id ∈ op.outputs, id ∉ op.inputs

/-- What the builder keeps. -/
structure IrProgram.Built (prog : IrProgram) : Prop where
  /-- The values fit their table. -/
  values_le : prog.values.length ≤ paiIrMaxValues
  /-- The ops fit their table. -/
  ops_le : prog.ops.length ≤ paiIrMaxOps
  /-- The input ids fit their table. -/
  inputIds_le : prog.inputIds.length ≤ paiIrMaxValues
  /-- The output ids fit their table. -/
  outputIds_le : prog.outputIds.length ≤ paiIrMaxValues
  /-- Every value is well formed. -/
  values_wf : ∀ value ∈ prog.values, value.WellFormed
  /-- Every op is well formed. -/
  ops_wf : ∀ op ∈ prog.ops, op.WellFormed prog
  /-- Graph inputs exist. -/
  inputIds_exist : ∀ id ∈ prog.inputIds, prog.HasValue id.toNat
  /-- Graph outputs exist. -/
  outputIds_exist : ∀ id ∈ prog.outputIds, prog.HasValue id.toNat

/-! ## What a builder call keeps -/

/-- A value stays when more values are added. -/
lemma IrProgram.HasValue.mono {prog prog' : IrProgram} {id : ℕ} (h : prog.HasValue id)
    (hle : prog.values.length ≤ prog'.values.length) : prog'.HasValue id :=
  ⟨h.1, h.2.trans hle⟩

/-- An op stays well formed when more values are added. -/
lemma IrOp.WellFormed.mono {prog prog' : IrProgram} {op : IrOp} (h : op.WellFormed prog)
    (hle : prog.values.length ≤ prog'.values.length) : op.WellFormed prog' :=
  { h with
    inputs_exist := fun id hid => (h.inputs_exist id hid).mono hle
    outputs_exist := fun id hid => (h.outputs_exist id hid).mono hle }

/-- The used part of a padded shape array is the shape. -/
lemma take_padDims {shape : List UInt64} (h : shape.length ≤ paiTensorMaxRank) :
    (padDims shape).val.take shape.length = shape := by
  rw [padDims, List.take_take, min_eq_left h, List.take_left]

/-- An accepted value is well formed and appended; everything else stays. -/
lemma paiIrAddValue_cases (prog : IrProgram) (dtype : PaiDtype) (shape : List UInt64)
    (align : UInt64) (kind device : UInt8) :
    (paiIrAddValue prog dtype shape align kind device).1 = prog ∨
      ∃ value : IrValue, value.WellFormed ∧ prog.values.length < paiIrMaxValues ∧
        (paiIrAddValue prog dtype shape align kind device).1 =
          { prog with values := prog.values ++ [value] } := by
  unfold paiIrAddValue
  by_cases hbad : shape.length = 0 ∨ paiTensorMaxRank < shape.length ∨
      paiIrMaxValues ≤ prog.values.length ∨ paiIrValueKindCount ≤ kind ∨
      paiIrDeviceCount ≤ device ∨ (align ≠ 0 ∧ isPow2 align = false)
  · rw [if_pos hbad]
    exact Or.inl rfl
  rw [if_neg hbad]
  split
  · exact Or.inl rfl
  · next bytes hbytes =>
    simp only
    by_cases hzero : bytes = 0
    · rw [if_pos hzero]
      exact Or.inl rfl
    rw [if_neg hzero]
    simp only [not_or, not_le, not_lt, not_and] at hbad
    obtain ⟨hpos, hrank, hfull, hkind, hdevice, halign⟩ := hbad
    have hrankNat : (UInt8.ofNat shape.length).toNat = shape.length := by
      rw [UInt8.toNat_ofNat']
      exact Nat.mod_eq_of_lt (by change shape.length ≤ 6 at hrank; omega)
    refine Or.inr ⟨_, ?_, hfull, rfl⟩
    constructor
    · change 0 < (UInt8.ofNat shape.length).toNat
      omega
    · exact hrankNat.trans_le hrank
    · exact UInt8.not_le.mp hkind
    · exact UInt8.not_le.mp hdevice
    · change paiTensorContiguousSize dtype
        ((padDims shape).val.take (UInt8.ofNat shape.length).toNat) = .ok bytes
      rw [hrankNat, take_padDims hrank]
      exact hbytes
    · change (if align ≠ 0 then align else 16) ≠ 0 ∧
        isPow2 (if align ≠ 0 then align else 16) = true
      split_ifs with hz
      · exact ⟨hz, Bool.not_eq_false _ ▸ halign hz⟩
      · decide
    · rfl

/-- An accepted op is well formed and appended; everything else stays. -/
lemma paiIrAddOp_cases (prog : IrProgram) (kind device : UInt8) (inputs outputs : List UInt16) :
    (paiIrAddOp prog kind device inputs outputs).1 = prog ∨
      ∃ op : IrOp, op.WellFormed prog ∧ prog.ops.length < paiIrMaxOps ∧
        (paiIrAddOp prog kind device inputs outputs).1 = { prog with ops := prog.ops ++ [op] } := by
  have hexist : ∀ {ids : List UInt16},
      ¬ (ids.any fun id => id == 0 || prog.values.length < id.toNat) = true →
        ∀ id ∈ ids, prog.HasValue id.toNat := by
    intro ids hnone id hid
    have hid' : ¬ ((id == 0 || decide (prog.values.length < id.toNat)) = true) := fun h =>
      hnone (List.any_eq_true.mpr ⟨id, hid, h⟩)
    rw [Bool.or_eq_true, beq_iff_eq, decide_eq_true_iff, not_or, not_lt] at hid'
    have hne : id.toNat ≠ 0 := fun hz => hid'.1 (UInt16.toNat_inj.mp hz)
    exact ⟨by omega, hid'.2⟩
  unfold paiIrAddOp
  split_ifs with hbad hin hout hdup
  · exact Or.inl rfl
  · exact Or.inl rfl
  · exact Or.inl rfl
  · exact Or.inl rfl
  · simp only [not_or, not_le, not_lt, not_not] at hbad hdup
    obtain ⟨hni, hno, hkind, hdevice, hfull⟩ := hbad
    refine Or.inr ⟨_, ⟨UInt8.not_le.mp hkind, UInt8.not_le.mp hdevice, hni, hno, hexist hin,
      hexist hout, hdup.1, ?_⟩, hfull, rfl⟩
    intro id hid hmem
    exact hdup.2 (List.any_eq_true.mpr ⟨id, hid, List.contains_iff_mem.mpr hmem⟩)

/-- Marking an input or output keeps the list within its table and over existing values. -/
lemma markId_spec {prog : IrProgram} {ids : List UInt32} (valueId : UInt32)
    (hle : ids.length ≤ paiIrMaxValues) (hexist : ∀ id ∈ ids, prog.HasValue id.toNat) :
    (markId prog ids valueId).length ≤ paiIrMaxValues ∧
      ∀ id ∈ markId prog ids valueId, prog.HasValue id.toNat := by
  unfold markId
  split_ifs with hbad
  · exact ⟨hle, hexist⟩
  · simp only [not_or, not_le, not_lt] at hbad
    obtain ⟨hzero, hmax, hroom⟩ := hbad
    refine ⟨by rw [List.length_append, List.length_singleton]; exact hroom, ?_⟩
    intro id hid
    rcases List.mem_append.mp hid with hid | hid
    · exact hexist id hid
    · rw [List.mem_singleton.mp hid]
      have hne : valueId.toNat ≠ 0 := fun hz => hzero (UInt32.toNat_inj.mp hz)
      exact ⟨by omega, hmax⟩

/-- One builder call keeps the program well formed. -/
lemma IrProgram.Built.step {prog : IrProgram} (h : prog.Built) (call : IrCall) :
    (prog.step call).Built := by
  cases call with
  | addValue dtype shape align kind device =>
    rw [IrProgram.step]
    rcases paiIrAddValue_cases prog dtype shape align kind device with heq | ⟨value, hwf, hlt, heq⟩
    · rw [heq]
      exact h
    · rw [heq]
      have hle : prog.values.length ≤ (prog.values ++ [value]).length := by
        rw [List.length_append]
        omega
      refine { h with values_le := ?_, values_wf := ?_, ops_wf := ?_, inputIds_exist := ?_,
                      outputIds_exist := ?_ }
      · rw [List.length_append, List.length_singleton]
        exact hlt
      · intro v hv
        rcases List.mem_append.mp hv with hv | hv
        · exact h.values_wf v hv
        · rw [List.mem_singleton.mp hv]
          exact hwf
      · exact fun op hop => (h.ops_wf op hop).mono hle
      · exact fun id hid => (h.inputIds_exist id hid).mono hle
      · exact fun id hid => (h.outputIds_exist id hid).mono hle
  | setQuant valueId quant =>
    rw [IrProgram.step, paiIrValueSetQuant]
    split_ifs with hid hbad
    · exact h
    · exact h
    · have hlen : (prog.values.modify (valueId - 1) fun value => { value with quant := quant }).length
          = prog.values.length := List.length_modify _ _ _
      refine { h with values_le := ?_, values_wf := ?_, ops_wf := ?_, inputIds_exist := ?_,
                      outputIds_exist := ?_ }
      · exact hlen.trans_le h.values_le
      · intro v hv
        obtain ⟨i, hi, hget⟩ := List.mem_iff_getElem.mp hv
        rw [List.getElem_modify] at hget
        have hi' : i < prog.values.length := hlen ▸ hi
        have hwf := h.values_wf _ (List.getElem_mem hi')
        split_ifs at hget
        · rw [← hget]
          exact { hwf with quant_ok := Bool.not_eq_true _ ▸ hbad }
        · rw [← hget]
          exact hwf
      · exact fun op hop => (h.ops_wf op hop).mono hlen.ge
      · exact fun id hid => (h.inputIds_exist id hid).mono hlen.ge
      · exact fun id hid => (h.outputIds_exist id hid).mono hlen.ge
  | addOp kind device inputs outputs =>
    rw [IrProgram.step]
    rcases paiIrAddOp_cases prog kind device inputs outputs with heq | ⟨op, hwf, hlt, heq⟩
    · rw [heq]
      exact h
    · rw [heq]
      refine { h with ops_le := ?_, ops_wf := ?_ }
      · rw [List.length_append, List.length_singleton]
        exact hlt
      · intro o ho
        rcases List.mem_append.mp ho with ho | ho
        · exact (h.ops_wf o ho).mono le_rfl
        · rw [List.mem_singleton.mp ho]
          exact hwf.mono le_rfl
  | setInput valueId =>
    obtain ⟨hle, hexist⟩ := markId_spec valueId h.inputIds_le h.inputIds_exist
    exact { h with inputIds_le := hle, inputIds_exist := hexist
                   ops_wf := fun op hop => (h.ops_wf op hop).mono le_rfl }
  | setOutput valueId =>
    obtain ⟨hle, hexist⟩ := markId_spec valueId h.outputIds_le h.outputIds_exist
    exact { h with outputIds_le := hle, outputIds_exist := hexist
                   ops_wf := fun op hop => (h.ops_wf op hop).mono le_rfl }

/-- Every sequence of builder calls leaves a well-formed program. -/
theorem irBuilt_run (calls : List IrCall) : (irBuild calls).Built := by
  have hinit : paiIrInit.Built := by
    constructor <;> simp [paiIrInit]
  have hrun : ∀ (calls : List IrCall) {prog : IrProgram}, prog.Built →
      (calls.foldl IrProgram.step prog).Built := by
    intro calls
    induction calls with
    | nil =>
      intro prog h
      exact h
    | cons call calls ih =>
      intro prog h
      exact ih (h.step call)
  exact hrun calls hinit

end Prospero
