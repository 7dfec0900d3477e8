import Prospero.Ir.Program
import Prospero.Lib.Reader
import Prospero.Memory.Align
import Prospero.Protocol.Wire

/-!
# Flat serialization of IR programs

`pai_ir_encode` and `pai_ir_decode` (`ir/ir.c`): a 32-byte header with a CRC-32 over its first 24
bytes and the body, fixed-size value records, variable-size op records and the two id lists.

The decoder walks the op records twice, once to bound them and once to read them.  It never reads
outside its input, what it accepts is well formed, and it inverts the encoder on every well-formed
program whose ops have inputs and outputs (`paiIrDecode_encode`).
-/

namespace Prospero

open Buffer ByteString Reader

/-! ## Encoding -/

/-- `PAI_IR_MAGIC`. -/
def paiIrMagic : UInt32 := 0x52495041
/-- `PAI_IR_VERSION`. -/
def paiIrVersion : UInt16 := 1
/-- `PAI_IR_HEADER_SIZE`. -/
abbrev paiIrHeaderSize : ℕ := 32
/-- `PAI_IR_VALUE_REC_SIZE`. -/
abbrev paiIrValueRecSize : ℕ := 76
/-- `PAI_IR_CRC_COVER`. -/
abbrev paiIrCrcCover : ℕ := 24

/-- `op_record_size`. -/
def opRecordSize (op : IrOp) : ℕ := 8 + 2 * op.inputs.length + 2 * op.outputs.length

/-- `pai_ir_encoded_size`; `0` when the program cannot be encoded. -/
def paiIrEncodedSize (prog : IrProgram) : ℕ :=
  let opBytes := (prog.ops.map opRecordSize).sum % 0x100000000
  let ids := (prog.inputIds.length + prog.outputIds.length) % 0x100000000
  let total := paiIrHeaderSize + prog.values.length * paiIrValueRecSize + opBytes + ids * 4
  if 0xFFFFFFFF < total then 0 else total

/-- The record of a value. -/
def encodeValue (value : IrValue) : List UInt8 :=
  value.dtype.code :: value.rank :: value.kind :: value.device :: value.quant.present ::
    value.quant.bitWidth :: value.quant.scaleRepr :: value.quant.zeroPointRepr ::
    value.quant.isSigned :: value.quant.blockStructure ::
    (u16le value.quant.groupSize ++ (u64le value.align ++ (u64le value.sizeBytes ++
      value.shape.val.flatMap u64le)))

/-- The record of an op. -/
def encodeOp (op : IrOp) : List UInt8 :=
  op.kind :: op.device :: UInt8.ofNat op.inputs.length :: UInt8.ofNat op.outputs.length ::
    (u16le 0 ++ (u16le 0 ++ (op.inputs.flatMap u16le ++ op.outputs.flatMap u16le)))

/-- The header bytes the CRC covers. -/
def irHeader (prog : IrProgram) : List UInt8 :=
  u32le paiIrMagic ++ (u16le paiIrVersion ++ (u16le 0 ++
    (u32le (UInt32.ofNat prog.values.length) ++ (u32le (UInt32.ofNat prog.ops.length) ++
      (u32le (UInt32.ofNat prog.inputIds.length) ++
        u32le (UInt32.ofNat prog.outputIds.length))))))

/-- Value records, op records, input ids and output ids. -/
def irBody (prog : IrProgram) : List UInt8 :=
  prog.values.flatMap encodeValue ++ (prog.ops.flatMap encodeOp ++
    (prog.inputIds.flatMap u32le ++ prog.outputIds.flatMap u32le))

/-- The CRC-32 of the covered header bytes and the body. -/
@[irreducible] def irCrc (header body : List UInt8) : UInt32 :=
  paiProtoCrc32Fin (paiProtoCrc32Upd (paiProtoCrc32Upd paiProtoCrc32Init header) body)

/-- The blob of a program: covered header bytes, CRC, reserved field and body. -/
def irBlob (prog : IrProgram) : List UInt8 :=
  irHeader prog ++ (u32le (irCrc (irHeader prog) (irBody prog)) ++ (u32le 0 ++ irBody prog))

/-- `pai_ir_encode`: the bytes written. -/
def paiIrEncode (prog : IrProgram) (cap : ℕ) : Except PaiStatus (List UInt8) :=
  let total := paiIrEncodedSize prog
  if total = 0 ∨ cap < total then .error paiErrInvalidArg else .ok (irBlob prog)

/-! ## Decoding -/

/-- The element type of a value record. -/
def dtypeOf (code : UInt8) : Read PaiStatus PaiDtype :=
  match PaiDtype.ofCode code with
  | some dtype => .ok dtype
  | none => .error (.fail paiErrProtocol)

/-- The size field agrees with shape and element type. -/
def sizeAgrees (dtype : PaiDtype) (extents : List UInt64) (sizeBytes : UInt64) : Bool :=
  match paiTensorContiguousSize dtype extents with
  | .ok bytes => bytes == sizeBytes && sizeBytes != 0
  | .error _ => false

/-- The six extents of a value record. -/
def decodeDims (data : List UInt8) (off : ℕ) : Read PaiStatus Dims := do
  let s0 ← u64At data off
  let s1 ← u64At data (off + 8)
  let s2 ← u64At data (off + 16)
  let s3 ← u64At data (off + 24)
  let s4 ← u64At data (off + 32)
  let s5 ← u64At data (off + 40)
  .ok ⟨[s0, s1, s2, s3, s4, s5], rfl⟩

/-- The quantization fields of the value record at `r`. -/
def decodeQuant (data : List UInt8) (r : ℕ) : Read PaiStatus IrQuant := do
  let present ← u8At data (r + 4)
  let bitWidth ← u8At data (r + 5)
  let scaleRepr ← u8At data (r + 6)
  let zeroPointRepr ← u8At data (r + 7)
  let isSigned ← u8At data (r + 8)
  let blockStructure ← u8At data (r + 9)
  let groupSize ← u16At data (r + 10)
  .ok ⟨present, bitWidth, scaleRepr, zeroPointRepr, isSigned, blockStructure, groupSize⟩

/-- One round of the value loop: the record at `r`. -/
def decodeValue (data : List UInt8) (r : ℕ) : Read PaiStatus IrValue := do
  let code ← u8At data r
  let rank ← u8At data (r + 1)
  let kind ← u8At data (r + 2)
  let device ← u8At data (r + 3)
  let dtype ← dtypeOf code
  refuse (rank = 0 ∨ paiTensorMaxRank < rank.toNat ∨ paiIrValueKindCount ≤ kind ∨
    paiIrDeviceCount ≤ device) paiErrProtocol
  let quant ← decodeQuant data r
  refuse (quant.bad = true) paiErrProtocol
  let align ← u64At data (r + 12)
  let sizeBytes ← u64At data (r + 20)
  let shape ← decodeDims data (r + 28)
  refuse (sizeAgrees dtype (shape.val.take rank.toNat) sizeBytes = false) paiErrProtocol
  refuse (align = 0 ∨ isPow2 align = false) paiErrProtocol
  .ok ⟨dtype, rank, kind, device, shape, sizeBytes, align, quant⟩

/-- The value loop. -/
def decodeValues (data : List UInt8) : ℕ → ℕ → Read PaiStatus (List IrValue)
  | 0, _ => .ok []
  | n + 1, r => do
    let value ← decodeValue data r
    let values ← decodeValues data n (r + paiIrValueRecSize)
    .ok (value :: values)

/-- The bounding pass over the op records; `p` counts from the start of the body, which is followed
by nothing after `bodyBytes` bytes. -/
def scanOps (data : List UInt8) (bodyBytes : ℕ) : ℕ → ℕ → Read PaiStatus ℕ
  | 0, p => .ok p
  | n + 1, p => do
    refuse (bodyBytes < p + 8) paiErrProtocol
    let ni ← u8At data (paiIrHeaderSize + p + 2)
    let no ← u8At data (paiIrHeaderSize + p + 3)
    refuse (bodyBytes < p + 8 + 2 * (ni.toNat + no.toNat)) paiErrProtocol
    scanOps data bodyBytes n (p + 8 + 2 * (ni.toNat + no.toNat))

/-- The input loop of one op. -/
def decodeInputs (data : List UInt8) (numValues : ℕ) : ℕ → ℕ → Read PaiStatus (List UInt16)
  | 0, _ => .ok []
  | n + 1, off => do
    let id ← u16At data off
    refuse (id = 0 ∨ numValues < id.toNat) paiErrProtocol
    let ids ← decodeInputs data numValues n (off + 2)
    .ok (id :: ids)

/-- The output loop of one op; `seen` holds its inputs and the outputs read so far. -/
def decodeOutputs (data : List UInt8) (numValues : ℕ) :
    List UInt16 → ℕ → ℕ → Read PaiStatus (List UInt16)
  | _, 0, _ => .ok []
  | seen, n + 1, off => do
    let id ← u16At data off
    refuse (id = 0 ∨ numValues < id.toNat) paiErrProtocol
    refuse (id ∈ seen) paiErrProtocol
    let ids ← decodeOutputs data numValues (id :: seen) n (off + 2)
    .ok (id :: ids)

/-- One round of the op loop: the record at `rec`, with the offset behind it. -/
def decodeOp (data : List UInt8) (numValues off : ℕ) : Read PaiStatus (IrOp × ℕ) := do
  let ni ← u8At data (off + 2)
  let no ← u8At data (off + 3)
  let kind ← u8At data off
  let device ← u8At data (off + 1)
  refuse (paiIrOpKindCount ≤ kind ∨ paiIrDeviceCount ≤ device ∨ ni = 0 ∨
    paiIrMaxArity < ni.toNat ∨ no = 0 ∨ paiIrMaxArity < no.toNat) paiErrProtocol
  let inputs ← decodeInputs data numValues ni.toNat (off + 8)
  let outputs ← decodeOutputs data numValues inputs no.toNat (off + 8 + 2 * ni.toNat)
  .ok (⟨kind, device, inputs, outputs⟩, off + 8 + 2 * (ni.toNat + no.toNat))

/-- The op loop, with the offset behind the last record. -/
def decodeOps (data : List UInt8) (numValues : ℕ) : ℕ → ℕ → Read PaiStatus (List IrOp × ℕ)
  | 0, off => .ok ([], off)
  | n + 1, off => do
    let (op, off) ← decodeOp data numValues off
    let (ops, off) ← decodeOps data numValues n off
    .ok (op :: ops, off)

/-- The loop over the input or output ids. -/
def decodeIds (data : List UInt8) (numValues : ℕ) : ℕ → ℕ → Read PaiStatus (List UInt32)
  | 0, _ => .ok []
  | n + 1, off => do
    let id ← u32At data off
    refuse (id = 0 ∨ numValues < id.toNat) paiErrProtocol
    let ids ← decodeIds data numValues n (off + 4)
    .ok (id :: ids)

/-- The counts of a header. -/
structure IrCounts where
  /-- `num_values`. -/
  values : ℕ
  /-- `num_ops`. -/
  ops : ℕ
  /-- `num_inputs`. -/
  inputs : ℕ
  /-- `num_outputs`. -/
  outputs : ℕ

/-- The header checks of `pai_ir_decode`: magic, version, reserved fields, counts and CRC. -/
def decodeIrHeader (data : List UInt8) : Read PaiStatus IrCounts := do
  refuse (data.length < paiIrHeaderSize) paiErrInvalidArg
  let magic ← u32At data 0
  refuse (magic ≠ paiIrMagic) paiErrProtocol
  let version ← u16At data 4
  refuse (version ≠ paiIrVersion) paiErrProtocol
  let flags ← u16At data 6
  let reserved ← u32At data 28
  refuse (flags ≠ 0 ∨ reserved ≠ 0) paiErrProtocol
  let numValues ← u32At data 8
  let numOps ← u32At data 12
  let numInputs ← u32At data 16
  let numOutputs ← u32At data 20
  let expectedCrc ← u32At data 24
  refuse (paiIrMaxValues < numValues.toNat ∨ paiIrMaxOps < numOps.toNat ∨
    paiIrMaxValues < numInputs.toNat ∨ paiIrMaxValues < numOutputs.toNat) paiErrProtocol
  let cover ← bytesAt data 0 paiIrCrcCover
  let body ← bytesAt data paiIrHeaderSize (data.length - paiIrHeaderSize)
  refuse (irCrc cover body ≠ expectedCrc) paiErrProtocol
  .ok ⟨numValues.toNat, numOps.toNat, numInputs.toNat, numOutputs.toNat⟩

/-- The record area: the bounding pass and the four loops that read it. -/
def decodeIrBody (data : List UInt8) (counts : IrCounts) : Read PaiStatus IrProgram := do
  let bodyBytes := data.length - paiIrHeaderSize
  refuse (bodyBytes < counts.values * paiIrValueRecSize) paiErrProtocol
  let p ← scanOps data bodyBytes counts.ops (counts.values * paiIrValueRecSize)
  refuse (bodyBytes < p + 4 * (counts.inputs + counts.outputs)) paiErrProtocol
  let values ← decodeValues data counts.values paiIrHeaderSize
  let (ops, off) ← decodeOps data counts.values counts.ops
    (paiIrHeaderSize + counts.values * paiIrValueRecSize)
  let inputIds ← decodeIds data counts.values counts.inputs off
  let outputIds ← decodeIds data counts.values counts.outputs (off + 4 * counts.inputs)
  .ok ⟨values, ops, inputIds, outputIds⟩

/-- `pai_ir_decode`. -/
def paiIrDecode (data : List UInt8) : Read PaiStatus IrProgram := do
  let counts ← decodeIrHeader data
  decodeIrBody data counts

/-! ## What is accepted is well formed -/

/-- Reading the extents of a record inside the input succeeds. -/
lemma post_decodeDims {data : List UInt8} {off : ℕ} (h : off + 48 ≤ data.length) :
    Post (decodeDims data off) fun _ => True := by
  unfold decodeDims
  refine Post.bind (post_u64At (by omega)) fun _ _ _ => ?_
  refine Post.bind (post_u64At (by omega)) fun _ _ _ => ?_
  refine Post.bind (post_u64At (by omega)) fun _ _ _ => ?_
  refine Post.bind (post_u64At (by omega)) fun _ _ _ => ?_
  refine Post.bind (post_u64At (by omega)) fun _ _ _ => ?_
  refine Post.bind (post_u64At (by omega)) fun _ _ _ => ?_
  exact trivial

/-- Reading the quantization fields of a record inside the input succeeds. -/
lemma post_decodeQuant {data : List UInt8} {r : ℕ} (h : r + 12 ≤ data.length) :
    Post (decodeQuant data r) fun _ => True := by
  unfold decodeQuant
  refine Post.bind (post_u8At (by omega)) fun _ _ _ => ?_
  refine Post.bind (post_u8At (by omega)) fun _ _ _ => ?_
  refine Post.bind (post_u8At (by omega)) fun _ _ _ => ?_
  refine Post.bind (post_u8At (by omega)) fun _ _ _ => ?_
  refine Post.bind (post_u8At (by omega)) fun _ _ _ => ?_
  refine Post.bind (post_u8At (by omega)) fun _ _ _ => ?_
  refine Post.bind (post_u16At (by omega)) fun _ _ _ => ?_
  exact trivial

/-- The element type is known or the record is refused. -/
lemma post_dtypeOf (code : UInt8) : Post (dtypeOf code) fun _ => True := by
  unfold dtypeOf
  split
  · exact trivial
  · exact trivial

/-- An agreeing size is the size the shape gives. -/
lemma sizeAgrees_iff {dtype : PaiDtype} {extents : List UInt64} {sizeBytes : UInt64} :
    sizeAgrees dtype extents sizeBytes = true ↔
      paiTensorContiguousSize dtype extents = .ok sizeBytes := by
  unfold sizeAgrees
  split
  · next bytes hbytes =>
    rw [Bool.and_eq_true, beq_iff_eq, bne_iff_ne, hbytes]
    constructor
    · rintro ⟨rfl, -⟩
      rfl
    · intro h
      cases h
      exact ⟨rfl, (paiTensorContiguousSize_spec hbytes).2.2.2.2⟩
  · next e herr =>
    rw [herr]
    exact ⟨fun h => absurd h (by decide), fun h => by cases h⟩

/-- An accepted value record is well formed. -/
lemma post_decodeValue {data : List UInt8} {r : ℕ} (h : r + paiIrValueRecSize ≤ data.length) :
    Post (decodeValue data r) IrValue.WellFormed := by
  have hr : r + 76 ≤ data.length := h
  unfold decodeValue
  refine Post.bind (post_u8At (by omega)) fun code _ _ => ?_
  refine Post.bind (post_u8At (by omega)) fun rank _ _ => ?_
  refine Post.bind (post_u8At (by omega)) fun kind _ _ => ?_
  refine Post.bind (post_u8At (by omega)) fun device _ _ => ?_
  refine Post.bind (post_dtypeOf code) fun dtype _ _ => ?_
  refine post_refuse_bind fun hhead => ?_
  refine Post.bind (post_decodeQuant (by omega)) fun quant _ _ => ?_
  refine post_refuse_bind fun hquant => ?_
  refine Post.bind (post_u64At (by omega)) fun align _ _ => ?_
  refine Post.bind (post_u64At (by omega)) fun sizeBytes _ _ => ?_
  refine Post.bind (post_decodeDims (by omega)) fun shape _ _ => ?_
  refine post_refuse_bind fun hsize => ?_
  refine post_refuse_bind fun halign => ?_
  simp only [not_or, not_lt] at hhead halign
  obtain ⟨hrank, hmax, hkind, hdevice⟩ := hhead
  have hpos : rank.toNat ≠ 0 := fun hz => hrank (UInt8.toNat_inj.mp hz)
  refine post_ok ⟨Nat.pos_of_ne_zero hpos, hmax, UInt8.not_le.mp hkind, UInt8.not_le.mp hdevice, ?_,
    ⟨halign.1, ?_⟩, ?_⟩
  · exact sizeAgrees_iff.mp (eq_true_of_ne_false hsize)
  · exact eq_true_of_ne_false halign.2
  · exact eq_false_of_ne_true hquant

/-- The value loop reads its records and accepts only well-formed ones. -/
lemma post_decodeValues {data : List UInt8} {n r : ℕ}
    (h : r + n * paiIrValueRecSize ≤ data.length) :
    Post (decodeValues data n r) fun values =>
      values.length = n ∧ ∀ value ∈ values, value.WellFormed := by
  induction n generalizing r with
  | zero => exact ⟨rfl, fun _ hv => absurd hv List.not_mem_nil⟩
  | succ n ih =>
    have hr : r + (n + 1) * 76 ≤ data.length := h
    refine Post.bind (post_decodeValue (by change r + 76 ≤ _; omega)) fun value _ hvalue => ?_
    refine Post.bind (ih (by change r + 76 + n * 76 ≤ _; omega)) fun values _ hvalues => ?_
    obtain ⟨hlen, hwf⟩ := hvalues
    refine post_ok ⟨by rw [List.length_cons, hlen], ?_⟩
    intro v hv
    rcases List.mem_cons.mp hv with rfl | hv
    · exact hvalue
    · exact hwf v hv

/-- The id check of the decoder. -/
lemma id_in_range {id numValues : ℕ} (hzero : id ≠ 0) (hle : ¬ numValues < id) :
    1 ≤ id ∧ id ≤ numValues := by
  omega

/-- The input loop reads existing ids. -/
lemma post_decodeInputs {data : List UInt8} {numValues n off : ℕ}
    (h : off + 2 * n ≤ data.length) :
    Post (decodeInputs data numValues n off) fun ids =>
      ids.length = n ∧ ∀ id ∈ ids, 1 ≤ id.toNat ∧ id.toNat ≤ numValues := by
  induction n generalizing off with
  | zero => exact ⟨rfl, fun _ hid => absurd hid List.not_mem_nil⟩
  | succ n ih =>
    refine Post.bind (post_u16At (by omega)) fun id _ _ => ?_
    refine post_refuse_bind fun hid => ?_
    refine Post.bind (ih (by omega)) fun ids _ hids => ?_
    obtain ⟨hlen, hrange⟩ := hids
    refine post_ok ⟨by rw [List.length_cons, hlen], ?_⟩
    intro x hx
    rcases List.mem_cons.mp hx with rfl | hx
    · rw [not_or] at hid
      exact id_in_range (fun hz => hid.1 (UInt16.toNat_inj.mp hz)) hid.2
    · exact hrange x hx

/-- The output loop reads distinct existing ids that were not seen before. -/
lemma post_decodeOutputs {data : List UInt8} {numValues n off : ℕ} {seen : List UInt16}
    (h : off + 2 * n ≤ data.length) :
    Post (decodeOutputs data numValues seen n off) fun ids =>
      ids.length = n ∧ (∀ id ∈ ids, 1 ≤ id.toNat ∧ id.toNat ≤ numValues) ∧ ids.Nodup ∧
        ∀ id ∈ ids, id ∉ seen := by
  induction n generalizing off seen with
  | zero =>
    exact ⟨rfl, fun _ hid => absurd hid List.not_mem_nil, List.nodup_nil,
      fun _ hid => absurd hid List.not_mem_nil⟩
  | succ n ih =>
    refine Post.bind (post_u16At (by omega)) fun id _ _ => ?_
    refine post_refuse_bind fun hid => ?_
    refine post_refuse_bind fun hnew => ?_
    refine Post.bind (ih (by omega)) fun ids _ hids => ?_
    obtain ⟨hlen, hrange, hnodup, hseen⟩ := hids
    refine post_ok ⟨by rw [List.length_cons, hlen], ?_, ?_, ?_⟩
    · intro x hx
      rcases List.mem_cons.mp hx with rfl | hx
      · rw [not_or] at hid
        exact id_in_range (fun hz => hid.1 (UInt16.toNat_inj.mp hz)) hid.2
      · exact hrange x hx
    · exact List.nodup_cons.mpr ⟨fun hmem => hseen id hmem List.mem_cons_self, hnodup⟩
    · intro x hx
      rcases List.mem_cons.mp hx with rfl | hx
      · exact hnew
      · exact fun hmem => hseen x hx (List.mem_cons_of_mem _ hmem)

/-- The id loop reads existing ids. -/
lemma post_decodeIds {data : List UInt8} {numValues n off : ℕ} (h : off + 4 * n ≤ data.length) :
    Post (decodeIds data numValues n off) fun ids =>
      ids.length = n ∧ ∀ id ∈ ids, 1 ≤ id.toNat ∧ id.toNat ≤ numValues := by
  induction n generalizing off with
  | zero => exact ⟨rfl, fun _ hid => absurd hid List.not_mem_nil⟩
  | succ n ih =>
    refine Post.bind (post_u32At (by omega)) fun id _ _ => ?_
    refine post_refuse_bind fun hid => ?_
    refine Post.bind (ih (by omega)) fun ids _ hids => ?_
    obtain ⟨hlen, hrange⟩ := hids
    refine post_ok ⟨by rw [List.length_cons, hlen], ?_⟩
    intro x hx
    rcases List.mem_cons.mp hx with rfl | hx
    · rw [not_or] at hid
      exact id_in_range (fun hz => hid.1 (UInt32.toNat_inj.mp hz)) hid.2
    · exact hrange x hx

/-- The op consumes and produces something. -/
def IrOp.HasOperands (op : IrOp) : Prop := op.inputs ≠ [] ∧ op.outputs ≠ []

/-- An op the decoder accepts among `numValues` values. -/
def OpAccepted (numValues : ℕ) (op : IrOp) : Prop :=
  op.HasOperands ∧ ∀ prog : IrProgram, prog.values.length = numValues → op.WellFormed prog

/-- An op record whose arities were bounded by the first pass is read inside the input. -/
lemma post_decodeOp {data : List UInt8} {numValues off : ℕ} {ni no : UInt8}
    (hni : (u8At data (off + 2) : Read PaiStatus UInt8) = .ok ni)
    (hno : (u8At data (off + 3) : Read PaiStatus UInt8) = .ok no)
    (h : off + 8 + 2 * (ni.toNat + no.toNat) ≤ data.length) :
    Post (decodeOp data numValues off) fun r =>
      r.2 = off + 8 + 2 * (ni.toNat + no.toNat) ∧ OpAccepted numValues r.1 := by
  unfold decodeOp
  rw [hni, ok_bind, hno, ok_bind]
  refine Post.bind (post_u8At (by omega)) fun kind _ _ => ?_
  refine Post.bind (post_u8At (by omega)) fun device _ _ => ?_
  refine post_refuse_bind fun hhead => ?_
  refine Post.bind (post_decodeInputs (by omega)) fun inputs _ hinputs => ?_
  refine Post.bind (post_decodeOutputs (by omega)) fun outputs _ houtputs => ?_
  obtain ⟨hinLen, hinRange⟩ := hinputs
  obtain ⟨houtLen, houtRange, hnodup, hdisjoint⟩ := houtputs
  simp only [not_or, not_lt] at hhead
  obtain ⟨hkind, hdevice, hniPos, hniMax, hnoPos, hnoMax⟩ := hhead
  have hniNe : ni.toNat ≠ 0 := fun hz => hniPos (UInt8.toNat_inj.mp hz)
  have hnoNe : no.toNat ≠ 0 := fun hz => hnoPos (UInt8.toNat_inj.mp hz)
  refine post_ok ⟨rfl, ⟨?_, ?_⟩, ?_⟩
  · rintro rfl
    exact hniNe hinLen.symm
  · rintro rfl
    exact hnoNe houtLen.symm
  · rintro prog rfl
    exact ⟨UInt8.not_le.mp hkind, UInt8.not_le.mp hdevice, hinLen.trans_le hniMax,
      houtLen.trans_le hnoMax, hinRange, houtRange, hnodup, hdisjoint⟩

/-- One round of the bounding pass. -/
lemma scanOps_succ {data : List UInt8} {bodyBytes n p q : ℕ}
    (h : scanOps data bodyBytes (n + 1) p = .ok q) :
    ∃ ni no : UInt8, (u8At data (paiIrHeaderSize + p + 2) : Read PaiStatus UInt8) = .ok ni ∧
      (u8At data (paiIrHeaderSize + p + 3) : Read PaiStatus UInt8) = .ok no ∧
      p + 8 + 2 * (ni.toNat + no.toNat) ≤ bodyBytes ∧
      scanOps data bodyBytes n (p + 8 + 2 * (ni.toNat + no.toNat)) = .ok q := by
  rw [scanOps] at h
  obtain ⟨-, h⟩ := refuse_bind_eq_ok h
  obtain ⟨ni, hni, h⟩ := bind_eq_ok h
  obtain ⟨no, hno, h⟩ := bind_eq_ok h
  obtain ⟨hfit, h⟩ := refuse_bind_eq_ok h
  exact ⟨ni, no, hni, hno, not_lt.mp hfit, h⟩

/-- The bounding pass stays inside the body. -/
lemma post_scanOps {data : List UInt8} {bodyBytes n p : ℕ}
    (hbody : paiIrHeaderSize + bodyBytes ≤ data.length) :
    Post (scanOps data bodyBytes n p) fun _ => True := by
  have hlen : 32 + bodyBytes ≤ data.length := hbody
  induction n generalizing p with
  | zero => exact trivial
  | succ n ih =>
    refine post_refuse_bind fun hroom => ?_
    refine Post.bind (post_u8At (by change 32 + p + 2 + 1 ≤ _; omega)) fun ni _ _ => ?_
    refine Post.bind (post_u8At (by change 32 + p + 3 + 1 ≤ _; omega)) fun no _ _ => ?_
    exact post_refuse_bind fun _ => ih

/-- The second pass reads what the first pass bounded and ends where the first pass ended. -/
lemma post_decodeOps {data : List UInt8} {numValues bodyBytes n p q : ℕ}
    (hbody : paiIrHeaderSize + bodyBytes ≤ data.length)
    (hscan : scanOps data bodyBytes n p = .ok q) :
    Post (decodeOps data numValues n (paiIrHeaderSize + p)) fun r =>
      r.2 = paiIrHeaderSize + q ∧ r.1.length = n ∧ ∀ op ∈ r.1, OpAccepted numValues op := by
  have hlen : 32 + bodyBytes ≤ data.length := hbody
  induction n generalizing p with
  | zero =>
    cases hscan
    exact ⟨rfl, rfl, fun _ hop => absurd hop List.not_mem_nil⟩
  | succ n ih =>
    obtain ⟨ni, no, hni, hno, hfit, hscan⟩ := scanOps_succ hscan
    refine Post.bind (post_decodeOp hni hno
      (by change 32 + p + 8 + 2 * (ni.toNat + no.toNat) ≤ _; omega)) ?_
    rintro ⟨op, off⟩ - ⟨hoff, hop⟩
    have hnext : off = paiIrHeaderSize + (p + 8 + 2 * (ni.toNat + no.toNat)) := by
      rw [show off = paiIrHeaderSize + p + 8 + 2 * (ni.toNat + no.toNat) from hoff]
      omega
    subst hnext
    refine Post.bind (ih hscan) ?_
    rintro ⟨ops, off⟩ - ⟨hend, hcount, hops⟩
    refine post_ok ⟨hend, by rw [List.length_cons, hcount], ?_⟩
    intro o ho
    rcases List.mem_cons.mp ho with rfl | ho
    · exact hop
    · exact hops o ho

/-- The header checks read inside the input and bound the counts. -/
lemma post_decodeIrHeader (data : List UInt8) :
    Post (decodeIrHeader data) fun counts =>
      paiIrHeaderSize ≤ data.length ∧ counts.values ≤ paiIrMaxValues ∧ counts.ops ≤ paiIrMaxOps ∧
        counts.inputs ≤ paiIrMaxValues ∧ counts.outputs ≤ paiIrMaxValues := by
  unfold decodeIrHeader
  refine post_refuse_bind fun hsize => ?_
  have hlen : 32 ≤ data.length := not_lt.mp hsize
  refine Post.bind (post_u32At (by omega)) fun _ _ _ => post_refuse_bind fun _ => ?_
  refine Post.bind (post_u16At (by omega)) fun _ _ _ => post_refuse_bind fun _ => ?_
  refine Post.bind (post_u16At (by omega)) fun _ _ _ => ?_
  refine Post.bind (post_u32At (by omega)) fun _ _ _ => post_refuse_bind fun _ => ?_
  refine Post.bind (post_u32At (by omega)) fun numValues _ _ => ?_
  refine Post.bind (post_u32At (by omega)) fun numOps _ _ => ?_
  refine Post.bind (post_u32At (by omega)) fun numInputs _ _ => ?_
  refine Post.bind (post_u32At (by omega)) fun numOutputs _ _ => ?_
  refine Post.bind (post_u32At (by omega)) fun _ _ _ => post_refuse_bind fun hcounts => ?_
  refine Post.bind (post_bytesAt (by change 0 + 24 ≤ _; omega)) fun _ _ _ => ?_
  refine Post.bind (post_bytesAt (by change 32 + (_ - 32) ≤ _; omega)) fun _ _ _ => ?_
  refine post_refuse_bind fun _ => ?_
  simp only [not_or, not_lt] at hcounts
  exact post_ok ⟨hlen, hcounts.1, hcounts.2.1, hcounts.2.2.1, hcounts.2.2.2⟩

/-- What the decoder accepts: a well-formed program whose ops have inputs and outputs. -/
structure IrProgram.Accepted (prog : IrProgram) : Prop extends prog.Built where
  /-- Every op consumes and produces something. -/
  operands : ∀ op ∈ prog.ops, op.HasOperands

/-- The record area is read inside the input, and what is accepted is well formed. -/
lemma post_decodeIrBody {data : List UInt8} {counts : IrCounts}
    (hlen : paiIrHeaderSize ≤ data.length) (hvalues : counts.values ≤ paiIrMaxValues)
    (hops : counts.ops ≤ paiIrMaxOps) (hinputs : counts.inputs ≤ paiIrMaxValues)
    (houtputs : counts.outputs ≤ paiIrMaxValues) :
    Post (decodeIrBody data counts) IrProgram.Accepted := by
  unfold decodeIrBody
  have hsize : 32 ≤ data.length := hlen
  have hbody : paiIrHeaderSize + (data.length - paiIrHeaderSize) ≤ data.length := by
    change 32 + (data.length - 32) ≤ _
    omega
  refine post_refuse_bind fun hrecords => ?_
  refine Post.bind (post_scanOps hbody) fun p hscan _ => ?_
  refine post_refuse_bind fun hids => ?_
  change ¬ data.length - 32 < counts.values * 76 at hrecords
  change ¬ data.length - 32 < p + 4 * (counts.inputs + counts.outputs) at hids
  refine Post.bind (post_decodeValues (by change 32 + counts.values * 76 ≤ _; omega)) ?_
  rintro values - ⟨hcount, hwf⟩
  refine Post.bind (post_decodeOps hbody hscan) ?_
  rintro ⟨ops, off⟩ - ⟨hoff, hopCount, hop⟩
  change off = 32 + p at hoff
  refine Post.bind (post_decodeIds (by omega)) ?_
  rintro inputIds - ⟨hinCount, hin⟩
  refine Post.bind (post_decodeIds (by omega)) ?_
  rintro outputIds - ⟨houtCount, hout⟩
  have hhas : ∀ {id : ℕ}, 1 ≤ id ∧ id ≤ counts.values →
      (IrProgram.mk values ops inputIds outputIds).HasValue id := by
    rintro id ⟨hpos, hle⟩
    exact ⟨hpos, hle.trans hcount.ge⟩
  exact post_ok
    { values_le := hcount.trans_le hvalues
      ops_le := hopCount.trans_le hops
      inputIds_le := hinCount.trans_le hinputs
      outputIds_le := houtCount.trans_le houtputs
      values_wf := hwf
      ops_wf := fun op ho => (hop op ho).2 _ hcount
      inputIds_exist := fun id hid => hhas (hin id hid)
      outputIds_exist := fun id hid => hhas (hout id hid)
      operands := fun op ho => (hop op ho).1 }

/-- The decoder reads inside its input, and what it accepts is well formed. -/
lemma post_paiIrDecode (data : List UInt8) : Post (paiIrDecode data) IrProgram.Accepted := by
  refine Post.bind (post_decodeIrHeader data) ?_
  rintro counts - ⟨hlen, hvalues, hops, hinputs, houtputs⟩
  exact post_decodeIrBody hlen hvalues hops hinputs houtputs

/-! ## The decoder inverts the encoder -/

/-- Encoded extents are read back. -/
lemma decodeDims_of_holds {data rest : List UInt8} {off : ℕ} {dims : Dims}
    (h : Holds data off (dims.val.flatMap u64le ++ rest)) :
    decodeDims data off = .ok dims ∧ Holds data (off + 48) rest := by
  obtain ⟨l, hl⟩ := dims
  match l, hl with
  | [s0, s1, s2, s3, s4, s5], hl =>
    simp only [List.flatMap_cons, List.flatMap_nil, List.append_assoc, List.nil_append] at h
    obtain ⟨h0, h⟩ := h.u64 (ε := PaiStatus)
    obtain ⟨h1, h⟩ := h.u64 (ε := PaiStatus)
    obtain ⟨h2, h⟩ := h.u64 (ε := PaiStatus)
    obtain ⟨h3, h⟩ := h.u64 (ε := PaiStatus)
    obtain ⟨h4, h⟩ := h.u64 (ε := PaiStatus)
    obtain ⟨h5, h⟩ := h.u64 (ε := PaiStatus)
    refine ⟨?_, h⟩
    rw [decodeDims, h0, ok_bind, h1, ok_bind, h2, ok_bind, h3, ok_bind, h4, ok_bind, h5, ok_bind]

/-- The record of a well-formed value is read back. -/
lemma decodeValue_of_holds {data rest : List UInt8} {r : ℕ} {value : IrValue}
    (hwf : value.WellFormed) (h : Holds data r (encodeValue value ++ rest)) :
    decodeValue data r = .ok value ∧ Holds data (r + paiIrValueRecSize) rest := by
  simp only [encodeValue, List.cons_append, List.append_assoc] at h
  obtain ⟨h0, h⟩ := h.u8 (ε := PaiStatus)
  obtain ⟨h1, h⟩ := h.u8 (ε := PaiStatus)
  obtain ⟨h2, h⟩ := h.u8 (ε := PaiStatus)
  obtain ⟨h3, h⟩ := h.u8 (ε := PaiStatus)
  obtain ⟨h4, h⟩ := h.u8 (ε := PaiStatus)
  obtain ⟨h5, h⟩ := h.u8 (ε := PaiStatus)
  obtain ⟨h6, h⟩ := h.u8 (ε := PaiStatus)
  obtain ⟨h7, h⟩ := h.u8 (ε := PaiStatus)
  obtain ⟨h8, h⟩ := h.u8 (ε := PaiStatus)
  obtain ⟨h9, h⟩ := h.u8 (ε := PaiStatus)
  obtain ⟨h10, h⟩ := h.u16 (ε := PaiStatus)
  obtain ⟨h12, h⟩ := h.u64 (ε := PaiStatus)
  obtain ⟨h20, h⟩ := h.u64 (ε := PaiStatus)
  obtain ⟨h28, h⟩ := decodeDims_of_holds h
  refine ⟨?_, h⟩
  have hdtype : dtypeOf value.dtype.code = .ok value.dtype := by
    rw [dtypeOf, PaiDtype.ofCode_code]
  have hhead : ¬ (value.rank = 0 ∨ paiTensorMaxRank < value.rank.toNat ∨
      paiIrValueKindCount ≤ value.kind ∨ paiIrDeviceCount ≤ value.device) := by
    rintro (hz | hmax | hkind | hdevice)
    · have hpos := hwf.rank_pos
      rw [hz] at hpos
      exact absurd hpos (by decide)
    · exact absurd hwf.rank_le (not_le.mpr hmax)
    · exact absurd hwf.kind_lt (UInt8.not_lt.mpr hkind)
    · exact absurd hwf.device_lt (UInt8.not_lt.mpr hdevice)
  have hquant : decodeQuant data r = .ok value.quant := by
    rw [decodeQuant, h4, ok_bind, h5, ok_bind, h6, ok_bind, h7, ok_bind, h8, ok_bind, h9, ok_bind,
      h10, ok_bind]
  have hsize : sizeAgrees value.dtype (value.shape.val.take value.rank.toNat) value.sizeBytes = true :=
    sizeAgrees_iff.mpr hwf.size_eq
  have halign : ¬ (value.align = 0 ∨ isPow2 value.align = false) := by
    rintro (hz | hpow)
    · exact hwf.align_pow2.1 hz
    · exact absurd hwf.align_pow2.2 (by rw [hpow]; decide)
  rw [decodeValue, h0, ok_bind, h1, ok_bind, h2, ok_bind, h3, ok_bind, hdtype, ok_bind,
    refuse_bind _ hhead, hquant, ok_bind, refuse_bind _ (by rw [hwf.quant_ok]; decide), h12, ok_bind,
    h20, ok_bind, h28, ok_bind, refuse_bind _ (by rw [hsize]; decide), refuse_bind _ halign]

/-- The value records of well-formed values are read back. -/
lemma decodeValues_of_holds {data rest : List UInt8} {r : ℕ} {values : List IrValue}
    (hwf : ∀ value ∈ values, value.WellFormed)
    (h : Holds data r (values.flatMap encodeValue ++ rest)) :
    decodeValues data values.length r = .ok values ∧
      Holds data (r + values.length * paiIrValueRecSize) rest := by
  induction values generalizing r with
  | nil => exact ⟨rfl, by simpa using h⟩
  | cons value values ih =>
    rw [List.flatMap_cons, List.append_assoc] at h
    obtain ⟨hvalue, h⟩ := decodeValue_of_holds (hwf value List.mem_cons_self) h
    obtain ⟨hvalues, h⟩ := ih (fun v hv => hwf v (List.mem_cons_of_mem _ hv)) h
    constructor
    · rw [List.length_cons, decodeValues, hvalue, ok_bind, hvalues, ok_bind]
    · have hoff : r + (value :: values).length * paiIrValueRecSize =
          r + paiIrValueRecSize + values.length * paiIrValueRecSize := by
        rw [List.length_cons]
        ring
      rw [hoff]
      exact h

/-- A list of existing input ids is read back. -/
lemma decodeInputs_of_holds {data rest : List UInt8} {numValues off : ℕ} {ids : List UInt16}
    (hids : ∀ id ∈ ids, 1 ≤ id.toNat ∧ id.toNat ≤ numValues)
    (h : Holds data off (ids.flatMap u16le ++ rest)) :
    decodeInputs data numValues ids.length off = .ok ids ∧
      Holds data (off + 2 * ids.length) rest := by
  induction ids generalizing off with
  | nil => exact ⟨rfl, by simpa using h⟩
  | cons id ids ih =>
    rw [List.flatMap_cons, List.append_assoc] at h
    obtain ⟨hid, h⟩ := h.u16 (ε := PaiStatus)
    obtain ⟨hrest, h⟩ := ih (fun x hx => hids x (List.mem_cons_of_mem _ hx)) h
    obtain ⟨hpos, hle⟩ := hids id List.mem_cons_self
    have hok : ¬ (id = 0 ∨ numValues < id.toNat) := by
      rintro (rfl | hlt)
      · exact absurd hpos (by decide)
      · omega
    constructor
    · rw [List.length_cons, decodeInputs, hid, ok_bind, refuse_bind _ hok, hrest, ok_bind]
    · rw [List.length_cons, Nat.mul_succ, Nat.add_comm (2 * ids.length), ← Nat.add_assoc]
      exact h

/-- A list of distinct, existing, unseen output ids is read back. -/
lemma decodeOutputs_of_holds {data rest : List UInt8} {numValues off : ℕ} {ids seen : List UInt16}
    (hids : ∀ id ∈ ids, 1 ≤ id.toNat ∧ id.toNat ≤ numValues) (hnodup : ids.Nodup)
    (hseen : ∀ id ∈ ids, id ∉ seen) (h : Holds data off (ids.flatMap u16le ++ rest)) :
    decodeOutputs data numValues seen ids.length off = .ok ids ∧
      Holds data (off + 2 * ids.length) rest := by
  induction ids generalizing off seen with
  | nil => exact ⟨rfl, by simpa using h⟩
  | cons id ids ih =>
    rw [List.flatMap_cons, List.append_assoc] at h
    obtain ⟨hid, h⟩ := h.u16 (ε := PaiStatus)
    obtain ⟨hnotMem, hnodup⟩ := List.nodup_cons.mp hnodup
    have hseen' : ∀ x ∈ ids, x ∉ id :: seen := by
      intro x hx hmem
      rcases List.mem_cons.mp hmem with rfl | hmem
      · exact hnotMem hx
      · exact hseen x (List.mem_cons_of_mem _ hx) hmem
    obtain ⟨hrest, h⟩ := ih (fun x hx => hids x (List.mem_cons_of_mem _ hx)) hnodup hseen' h
    obtain ⟨hpos, hle⟩ := hids id List.mem_cons_self
    have hok : ¬ (id = 0 ∨ numValues < id.toNat) := by
      rintro (rfl | hlt)
      · exact absurd hpos (by decide)
      · omega
    constructor
    · rw [List.length_cons, decodeOutputs, hid, ok_bind, refuse_bind _ hok,
        refuse_bind _ (hseen id List.mem_cons_self), hrest, ok_bind]
    · rw [List.length_cons, Nat.mul_succ, Nat.add_comm (2 * ids.length), ← Nat.add_assoc]
      exact h

/-- A list of existing ids is read back. -/
lemma decodeIds_of_holds {data rest : List UInt8} {numValues off : ℕ} {ids : List UInt32}
    (hids : ∀ id ∈ ids, 1 ≤ id.toNat ∧ id.toNat ≤ numValues)
    (h : Holds data off (ids.flatMap u32le ++ rest)) :
    decodeIds data numValues ids.length off = .ok ids ∧
      Holds data (off + 4 * ids.length) rest := by
  induction ids generalizing off with
  | nil => exact ⟨rfl, by simpa using h⟩
  | cons id ids ih =>
    rw [List.flatMap_cons, List.append_assoc] at h
    obtain ⟨hid, h⟩ := h.u32 (ε := PaiStatus)
    obtain ⟨hrest, h⟩ := ih (fun x hx => hids x (List.mem_cons_of_mem _ hx)) h
    obtain ⟨hpos, hle⟩ := hids id List.mem_cons_self
    have hok : ¬ (id = 0 ∨ numValues < id.toNat) := by
      rintro (rfl | hlt)
      · exact absurd hpos (by decide)
      · omega
    constructor
    · rw [List.length_cons, decodeIds, hid, ok_bind, refuse_bind _ hok, hrest, ok_bind]
    · rw [List.length_cons, Nat.mul_succ, Nat.add_comm (4 * ids.length), ← Nat.add_assoc]
      exact h

/-- An op record has the size `op_record_size` gives. -/
@[simp] lemma length_encodeOp (op : IrOp) : (encodeOp op).length = opRecordSize op := by
  have hids : ∀ ids : List UInt16, (ids.flatMap u16le).length = 2 * ids.length := by
    intro ids
    induction ids with
    | nil => rfl
    | cons id ids ih =>
      rw [List.flatMap_cons, List.length_append, ih, length_leBytes, List.length_cons]
      ring
  simp only [encodeOp, List.length_cons, List.length_append, length_leBytes, hids, opRecordSize]
  ring

/-- The arity bytes of an op record. -/
lemma toNat_arity {ids : List UInt16} (h : ids.length ≤ paiIrMaxArity) :
    (UInt8.ofNat ids.length).toNat = ids.length := by
  have hle : ids.length ≤ 16 := h
  rw [UInt8.toNat_ofNat']
  exact Nat.mod_eq_of_lt (by omega)

/-- The record of an accepted op is read back. -/
lemma decodeOp_of_holds {data rest : List UInt8} {off : ℕ} {prog : IrProgram} {op : IrOp}
    (hwf : op.WellFormed prog) (hoperands : op.HasOperands)
    (h : Holds data off (encodeOp op ++ rest)) :
    decodeOp data prog.values.length off = .ok (op, off + opRecordSize op) := by
  simp only [encodeOp, List.cons_append, List.append_assoc] at h
  obtain ⟨h0, h⟩ := h.u8 (ε := PaiStatus)
  obtain ⟨h1, h⟩ := h.u8 (ε := PaiStatus)
  obtain ⟨h2, h⟩ := h.u8 (ε := PaiStatus)
  obtain ⟨h3, h⟩ := h.u8 (ε := PaiStatus)
  obtain ⟨-, h⟩ := h.u16 (ε := PaiStatus)
  obtain ⟨-, h⟩ := h.u16 (ε := PaiStatus)
  obtain ⟨hinputs, h⟩ := decodeInputs_of_holds hwf.inputs_exist h
  obtain ⟨houtputs, h⟩ := decodeOutputs_of_holds hwf.outputs_exist hwf.outputs_nodup
    hwf.outputs_disjoint h
  have hni := toNat_arity hwf.inputs_le
  have hno := toNat_arity hwf.outputs_le
  have hniPos : UInt8.ofNat op.inputs.length ≠ 0 := by
    intro hz
    rw [hz] at hni
    exact hoperands.1 (List.length_eq_zero_iff.mp hni.symm)
  have hnoPos : UInt8.ofNat op.outputs.length ≠ 0 := by
    intro hz
    rw [hz] at hno
    exact hoperands.2 (List.length_eq_zero_iff.mp hno.symm)
  have hhead : ¬ (paiIrOpKindCount ≤ op.kind ∨ paiIrDeviceCount ≤ op.device ∨
      UInt8.ofNat op.inputs.length = 0 ∨ paiIrMaxArity < (UInt8.ofNat op.inputs.length).toNat ∨
      UInt8.ofNat op.outputs.length = 0 ∨
      paiIrMaxArity < (UInt8.ofNat op.outputs.length).toNat) := by
    rintro (hkind | hdevice | hz | hmax | hz | hmax)
    · exact absurd hwf.kind_lt (UInt8.not_lt.mpr hkind)
    · exact absurd hwf.device_lt (UInt8.not_lt.mpr hdevice)
    · exact hniPos hz
    · exact absurd hwf.inputs_le (not_le.mpr (hni ▸ hmax))
    · exact hnoPos hz
    · exact absurd hwf.outputs_le (not_le.mpr (hno ▸ hmax))
  have hend : off + opRecordSize op =
      off + 8 + 2 * (op.inputs.length + op.outputs.length) := by
    rw [opRecordSize]
    ring
  rw [decodeOp, h2, ok_bind, h3, ok_bind, h0, ok_bind, h1, ok_bind, refuse_bind _ hhead, hni,
    hinputs, ok_bind, hno, houtputs, ok_bind, hend]

/-- The op records are read back. -/
lemma decodeOps_of_holds {data rest : List UInt8} {off : ℕ} {prog : IrProgram} {ops : List IrOp}
    (hwf : ∀ op ∈ ops, op.WellFormed prog) (hoperands : ∀ op ∈ ops, op.HasOperands)
    (h : Holds data off (ops.flatMap encodeOp ++ rest)) :
    decodeOps data prog.values.length ops.length off =
        .ok (ops, off + (ops.map opRecordSize).sum) ∧
      Holds data (off + (ops.map opRecordSize).sum) rest := by
  induction ops generalizing off with
  | nil => exact ⟨rfl, by simpa using h⟩
  | cons op ops ih =>
    rw [List.flatMap_cons, List.append_assoc] at h
    have hop := decodeOp_of_holds (hwf op List.mem_cons_self) (hoperands op List.mem_cons_self) h
    obtain ⟨-, h⟩ := h.split
    rw [length_encodeOp] at h
    obtain ⟨hops, h⟩ := ih (fun o ho => hwf o (List.mem_cons_of_mem _ ho))
      (fun o ho => hoperands o (List.mem_cons_of_mem _ ho)) h
    rw [List.map_cons, List.sum_cons, ← Nat.add_assoc]
    refine ⟨?_, h⟩
    rw [List.length_cons, decodeOps, hop, ok_bind]
    simp only
    rw [hops, ok_bind]

/-- The bounding pass accepts encoded op records and ends behind them. -/
lemma scanOps_of_holds {data rest : List UInt8} {bodyBytes p : ℕ} {prog : IrProgram}
    {ops : List IrOp} (hwf : ∀ op ∈ ops, op.WellFormed prog)
    (hbody : data.length = paiIrHeaderSize + bodyBytes)
    (h : Holds data (paiIrHeaderSize + p) (ops.flatMap encodeOp ++ rest)) :
    scanOps data bodyBytes ops.length p = .ok (p + (ops.map opRecordSize).sum) := by
  induction ops generalizing p with
  | nil => rfl
  | cons op ops ih =>
    rw [List.flatMap_cons, List.append_assoc] at h
    obtain ⟨hrec, htail⟩ := h.split
    rw [length_encodeOp] at htail
    have hroom : paiIrHeaderSize + p + opRecordSize op ≤ data.length := by
      have hle := hrec.1
      rwa [length_encodeOp] at hle
    simp only [encodeOp, List.cons_append] at h
    obtain ⟨-, h⟩ := h.u8 (ε := PaiStatus)
    obtain ⟨-, h⟩ := h.u8 (ε := PaiStatus)
    obtain ⟨h2, h⟩ := h.u8 (ε := PaiStatus)
    obtain ⟨h3, h⟩ := h.u8 (ε := PaiStatus)
    have hwfOp := hwf op List.mem_cons_self
    have hni := toNat_arity hwfOp.inputs_le
    have hno := toNat_arity hwfOp.outputs_le
    have hend : p + 8 + 2 * (op.inputs.length + op.outputs.length) = p + opRecordSize op := by
      rw [opRecordSize]
      ring
    have hfit : p + opRecordSize op ≤ bodyBytes := by omega
    have height : 8 ≤ opRecordSize op := by
      rw [opRecordSize]
      omega
    rw [Nat.add_assoc] at htail
    rw [List.length_cons, scanOps, refuse_bind _ (by omega), h2, ok_bind, h3, ok_bind, hni, hno, hend,
      refuse_bind _ (not_lt.mpr hfit), ih (fun o ho => hwf o (List.mem_cons_of_mem _ ho)) htail,
      List.map_cons, List.sum_cons, Nat.add_assoc]

/-- A value record is 76 bytes long. -/
@[simp] lemma length_encodeValue (value : IrValue) :
    (encodeValue value).length = paiIrValueRecSize := by
  obtain ⟨dtype, rank, kind, device, ⟨l, hl⟩, sizeBytes, align, quant⟩ := value
  match l, hl with
  | [s0, s1, s2, s3, s4, s5], hl =>
    simp only [encodeValue, List.length_cons, List.length_append, length_leBytes, List.flatMap_cons,
      List.flatMap_nil, List.length_nil]

/-- The body has the size the header announces. -/
lemma length_irBody (prog : IrProgram) :
    (irBody prog).length = prog.values.length * paiIrValueRecSize +
      (prog.ops.map opRecordSize).sum + (prog.inputIds.length + prog.outputIds.length) * 4 := by
  have hids : ∀ ids : List UInt32, (ids.flatMap u32le).length = ids.length * 4 := by
    intro ids
    rw [List.length_flatMap]
    simp
  have hvalues : (prog.values.flatMap encodeValue).length =
      prog.values.length * paiIrValueRecSize := by
    rw [List.length_flatMap]
    simp
  have hops : (prog.ops.flatMap encodeOp).length = (prog.ops.map opRecordSize).sum := by
    rw [List.length_flatMap]
    simp
  rw [irBody, List.length_append, List.length_append, List.length_append, hvalues, hops, hids, hids]
  ring

/-- The covered header bytes. -/
@[simp] lemma length_irHeader (prog : IrProgram) : (irHeader prog).length = paiIrCrcCover := by
  simp [irHeader]

@[simp] lemma length_irBlob (prog : IrProgram) :
    (irBlob prog).length = paiIrHeaderSize + (irBody prog).length := by
  simp only [irBlob, List.length_append, length_irHeader, length_leBytes]
  change 24 + (4 + (4 + _)) = 32 + _
  omega

/-- The tables of a program fit 32-bit sizes, so the announced size is the size of the blob. -/
lemma IrProgram.Built.encodedSize_eq {prog : IrProgram} (h : prog.Built) :
    paiIrEncodedSize prog = (irBlob prog).length := by
  have hsum : (prog.ops.map opRecordSize).sum ≤ 1024 * 72 := by
    have hrec : ∀ x ∈ prog.ops.map opRecordSize, x ≤ 72 := by
      intro x hx
      obtain ⟨op, hop, rfl⟩ := List.mem_map.mp hx
      have hni : op.inputs.length ≤ 16 := (h.ops_wf op hop).inputs_le
      have hno : op.outputs.length ≤ 16 := (h.ops_wf op hop).outputs_le
      rw [opRecordSize]
      omega
    have hle := List.sum_le_card_nsmul _ 72 hrec
    rw [List.length_map, smul_eq_mul] at hle
    have hops : prog.ops.length ≤ 1024 := h.ops_le
    exact hle.trans (Nat.mul_le_mul_right 72 hops)
  have hvalues : prog.values.length ≤ 1024 := h.values_le
  have hin : prog.inputIds.length ≤ 1024 := h.inputIds_le
  have hout : prog.outputIds.length ≤ 1024 := h.outputIds_le
  rw [length_irBlob, length_irBody, paiIrEncodedSize, Nat.mod_eq_of_lt (by omega), Nat.mod_eq_of_lt (by omega), if_neg]
  · omega
  · change ¬ 0xFFFFFFFF < 32 + prog.values.length * 76 + _ + _
    omega

/-- A well-formed program is encoded into a buffer of the announced size. -/
lemma IrProgram.Built.encode_eq {prog : IrProgram} (h : prog.Built) :
    paiIrEncode prog (paiIrEncodedSize prog) = .ok (irBlob prog) := by
  have hsize := h.encodedSize_eq
  have hpos : paiIrEncodedSize prog ≠ 0 := by
    rw [hsize, length_irBlob]
    change 32 + _ ≠ 0
    omega
  rw [paiIrEncode, if_neg]
  rintro (hz | hlt)
  · exact hpos hz
  · exact absurd hlt (lt_irrefl _)

/-- A count within its table is read back from its 32-bit field. -/
lemma toNat_count {n max : ℕ} (h : n ≤ max) (hmax : max < 2 ^ 32) : (UInt32.ofNat n).toNat = n := by
  rw [UInt32.toNat_ofNat']
  exact Nat.mod_eq_of_lt (by omega)

/-- The header of an encoded program passes the header checks. -/
lemma IrProgram.Built.decodeHeader {prog : IrProgram} (h : prog.Built) :
    decodeIrHeader (irBlob prog) = .ok ⟨prog.values.length, prog.ops.length, prog.inputIds.length,
      prog.outputIds.length⟩ := by
  have hself := holds_self (irBlob prog)
  nth_rewrite 2 [irBlob] at hself
  obtain ⟨hcover, htail⟩ := hself.split
  rw [length_irHeader, Nat.zero_add] at htail
  obtain ⟨h24, htail⟩ := htail.u32 (ε := PaiStatus)
  obtain ⟨h28, hbody⟩ := htail.u32 (ε := PaiStatus)
  have hcoverBytes : (bytesAt (irBlob prog) 0 paiIrCrcCover : Read PaiStatus _) =
      .ok (irHeader prog) := bytesAt_of_holds hcover (length_irHeader prog)
  have hbodyBytes : (bytesAt (irBlob prog) paiIrHeaderSize
      ((irBlob prog).length - paiIrHeaderSize) : Read PaiStatus _) = .ok (irBody prog) := by
    refine bytesAt_of_holds hbody ?_
    rw [length_irBlob, Nat.add_sub_cancel_left]
  simp only [irHeader, List.append_assoc] at hself
  obtain ⟨h0, hself⟩ := hself.u32 (ε := PaiStatus)
  obtain ⟨h4, hself⟩ := hself.u16 (ε := PaiStatus)
  obtain ⟨h6, hself⟩ := hself.u16 (ε := PaiStatus)
  obtain ⟨h8, hself⟩ := hself.u32 (ε := PaiStatus)
  obtain ⟨h12, hself⟩ := hself.u32 (ε := PaiStatus)
  obtain ⟨h16, hself⟩ := hself.u32 (ε := PaiStatus)
  obtain ⟨h20, -⟩ := hself.u32 (ε := PaiStatus)
  have hv := toNat_count h.values_le (by decide)
  have ho := toNat_count h.ops_le (by decide)
  have hi := toNat_count h.inputIds_le (by decide)
  have hu := toNat_count h.outputIds_le (by decide)
  have hcounts : ¬ (paiIrMaxValues < (UInt32.ofNat prog.values.length).toNat ∨
      paiIrMaxOps < (UInt32.ofNat prog.ops.length).toNat ∨
      paiIrMaxValues < (UInt32.ofNat prog.inputIds.length).toNat ∨
      paiIrMaxValues < (UInt32.ofNat prog.outputIds.length).toNat) := by
    rw [hv, ho, hi, hu]
    rintro (hlt | hlt | hlt | hlt)
    · exact absurd h.values_le (not_le.mpr hlt)
    · exact absurd h.ops_le (not_le.mpr hlt)
    · exact absurd h.inputIds_le (not_le.mpr hlt)
    · exact absurd h.outputIds_le (not_le.mpr hlt)
  have hlen : ¬ (irBlob prog).length < paiIrHeaderSize := by
    rw [length_irBlob]
    omega
  rw [decodeIrHeader, refuse_bind _ hlen, h0, ok_bind, refuse_bind _ (not_not.mpr rfl), h4, ok_bind,
    refuse_bind _ (not_not.mpr rfl), h6, ok_bind, h28, ok_bind, refuse_bind _ (by decide), h8, ok_bind,
    h12, ok_bind, h16, ok_bind, h20, ok_bind, h24, ok_bind, refuse_bind _ hcounts, hcoverBytes, ok_bind,
    hbodyBytes, ok_bind, refuse_bind _ (not_not.mpr rfl), hv, ho, hi, hu]

/-- The decoder inverts the encoder on every program it can accept. -/
lemma IrProgram.Accepted.decode_blob {prog : IrProgram} (h : prog.Accepted) :
    paiIrDecode (irBlob prog) = .ok prog := by
  have hself := holds_self (irBlob prog)
  nth_rewrite 2 [irBlob] at hself
  obtain ⟨-, htail⟩ := hself.split
  rw [length_irHeader, Nat.zero_add] at htail
  obtain ⟨-, htail⟩ := htail.u32 (ε := PaiStatus)
  obtain ⟨-, hbody⟩ := htail.u32 (ε := PaiStatus)
  change Holds (irBlob prog) paiIrHeaderSize (irBody prog) at hbody
  rw [irBody] at hbody
  obtain ⟨hvalues, hops⟩ := decodeValues_of_holds h.values_wf hbody
  have hscan := scanOps_of_holds h.ops_wf (length_irBlob prog) hops
  obtain ⟨hopsOk, hids⟩ := decodeOps_of_holds h.ops_wf h.operands hops
  obtain ⟨hinputs, hids⟩ := decodeIds_of_holds h.inputIds_exist hids
  rw [← List.append_nil (prog.outputIds.flatMap u32le)] at hids
  obtain ⟨houtputs, -⟩ := decodeIds_of_holds h.outputIds_exist hids
  have hlen := length_irBody prog
  have hsize : (irBlob prog).length - paiIrHeaderSize = (irBody prog).length := by
    rw [length_irBlob, Nat.add_sub_cancel_left]
  rw [paiIrDecode, h.toBuilt.decodeHeader, ok_bind, decodeIrBody]
  simp only
  rw [hsize, refuse_bind _ (by rw [hlen]; omega), hscan, ok_bind,
    refuse_bind _ (by rw [hlen]; omega), hvalues, ok_bind, hopsOk, ok_bind]
  simp only
  rw [hinputs, ok_bind, houtputs, ok_bind]

/-! ## Round trip and soundness -/

/-- Serialization round trip: for whatever the builder made, encoding into a buffer of the announced
size writes exactly that many bytes, and decoding them returns the program exactly when every op has
an input and an output. -/
theorem irRoundTrip_iff (calls : List IrCall) :
    (∃ bytes, paiIrEncode (irBuild calls) (paiIrEncodedSize (irBuild calls)) = .ok bytes ∧
        bytes.length = paiIrEncodedSize (irBuild calls) ∧
        paiIrDecode bytes = .ok (irBuild calls)) ↔
      ∀ op ∈ (irBuild calls).ops, op.HasOperands := by
  have hbuilt := irBuilt_run calls
  constructor
  · rintro ⟨bytes, -, -, hdecode⟩
    exact ((post_paiIrDecode bytes).of_ok hdecode).operands
  · intro hoperands
    have haccepted : (irBuild calls).Accepted := ⟨hbuilt, hoperands⟩
    exact ⟨irBlob (irBuild calls), hbuilt.encode_eq, hbuilt.encodedSize_eq.symm,
      haccepted.decode_blob⟩

/-- The builder accepts a producer without inputs; its blob is refused. -/
theorem irRoundTrip_no_inputs :
    ¬ ∃ bytes,
      paiIrEncode (irBuild [.addValue .f32 [4] 0 0 0, .addOp 15 0 [] [1]])
          (paiIrEncodedSize (irBuild [.addValue .f32 [4] 0 0 0, .addOp 15 0 [] [1]])) = .ok bytes ∧
        bytes.length = paiIrEncodedSize (irBuild [.addValue .f32 [4] 0 0 0, .addOp 15 0 [] [1]]) ∧
        paiIrDecode bytes = .ok (irBuild [.addValue .f32 [4] 0 0 0, .addOp 15 0 [] [1]]) := by
  rintro ⟨bytes, -, -, hdecode⟩
  have hmem : (⟨15, 0, [], [1]⟩ : IrOp) ∈
      (irBuild [.addValue .f32 [4] 0 0 0, .addOp 15 0 [] [1]]).ops := by
    decide
  exact (((post_paiIrDecode bytes).of_ok hdecode).operands _ hmem).1 rfl

/-- A program as its users rely on it. -/
structure IrProgram.Sound (prog : IrProgram) : Prop where
  /-- Op inputs exist. -/
  inputs_exist : ∀ op ∈ prog.ops, ∀ id ∈ op.inputs, prog.HasValue id.toNat
  /-- Op outputs exist. -/
  outputs_exist : ∀ op ∈ prog.ops, ∀ id ∈ op.outputs, prog.HasValue id.toNat
  /-- Graph inputs exist. -/
  inputIds_exist : ∀ id ∈ prog.inputIds, prog.HasValue id.toNat
  /-- Graph outputs exist. -/
  outputIds_exist : ∀ id ∈ prog.outputIds, prog.HasValue id.toNat
  /-- The outputs of an op are distinct and disjoint from its inputs. -/
  outputs_fresh : ∀ op ∈ prog.ops, op.outputs.Nodup ∧ ∀ id ∈ op.outputs, id ∉ op.inputs
  /-- A size is the exact product of the extents and the element size, and not zero. -/
  size_exact : ∀ value ∈ prog.values,
    value.sizeBytes.toNat = elementCount value.extents * (paiDtypeSize value.dtype).toNat ∧
      value.sizeBytes ≠ 0
  /-- An alignment is a power of two. -/
  align_pow2 : ∀ value ∈ prog.values, ∃ k, value.align.toNat = 2 ^ k
  /-- A quantization record is one the builder accepts. -/
  quant_accepted : ∀ value ∈ prog.values, ∀ id, prog.HasValue id →
    (paiIrValueSetQuant prog id value.quant).2 = paiOk

/-- A built program is sound. -/
lemma IrProgram.Built.sound {prog : IrProgram} (h : prog.Built) : prog.Sound where
  inputs_exist op hop := (h.ops_wf op hop).inputs_exist
  outputs_exist op hop := (h.ops_wf op hop).outputs_exist
  inputIds_exist := h.inputIds_exist
  outputIds_exist := h.outputIds_exist
  outputs_fresh op hop := ⟨(h.ops_wf op hop).outputs_nodup, (h.ops_wf op hop).outputs_disjoint⟩
  size_exact value hvalue := by
    obtain ⟨-, -, -, hsize, hpos⟩ := paiTensorContiguousSize_spec (h.values_wf value hvalue).size_eq
    exact ⟨hsize, hpos⟩
  align_pow2 value hvalue := by
    obtain ⟨hne, hpow⟩ := (h.values_wf value hvalue).align_pow2
    have hmem : paiMemIsPow2 value.align = true := by
      rw [paiMemIsPow2, Bool.and_eq_true, bne_iff_ne]
      exact ⟨hne, hpow⟩
    obtain ⟨k, -, hk⟩ := paiMemIsPow2_iff.mp hmem
    exact ⟨k, hk⟩
  quant_accepted value hvalue id hid := by
    have hrange : ¬ (id = 0 ∨ prog.values.length < id) := by
      rintro (hz | hlt)
      · exact absurd hid.1 (by omega)
      · exact absurd hid.2 (not_le.mpr hlt)
    have hquant : ¬ value.quant.bad = true := by
      rw [(h.values_wf value hvalue).quant_ok]
      decide
    rw [paiIrValueSetQuant, if_neg hrange, if_neg hquant]

/-- Decoder soundness: on every byte string the decoder stays inside it, and a program it returns is
sound and is reproduced by decoding its own re-encoding. -/
theorem paiIrDecode_sound (data : List UInt8) :
    paiIrDecode data ≠ .error .outOfRange ∧
      ∀ prog, paiIrDecode data = .ok prog →
        prog.Sound ∧ ∃ bytes, paiIrEncode prog (paiIrEncodedSize prog) = .ok bytes ∧
          paiIrDecode bytes = .ok prog := by
  have hpost := post_paiIrDecode data
  refine ⟨hpost.ne_outOfRange, ?_⟩
  intro prog hdecode
  have haccepted := hpost.of_ok hdecode
  exact ⟨haccepted.toBuilt.sound, irBlob prog, haccepted.toBuilt.encode_eq, haccepted.decode_blob⟩

/-- The blob of a one-op program is accepted, and the program is sound. -/
theorem paiIrDecode_sound_copy :
    (irBuild [.addValue .f32 [4] 0 1 0, .addValue .f32 [4] 0 4 0, .addOp 15 0 [1] [2]]).Sound := by
  have hbuilt := irBuilt_run [.addValue .f32 [4] 0 1 0, .addValue .f32 [4] 0 4 0, .addOp 15 0 [1] [2]]
  have hdecode := IrProgram.Accepted.decode_blob ⟨hbuilt, by unfold IrOp.HasOperands; decide⟩
  exact ((paiIrDecode_sound _).2 _ hdecode).1

end Prospero
