import Mathlib.Data.Nat.Bitwise
import Mathlib.Tactic.IntervalCases
import Prospero.Lib.Packets

/-!
# The PM4 command stream builder

`gpu/pm4/pm4.c`: type-3 packets for the GPU command processor, written one behind the other into a buffer of
dwords.  A call reserves its dwords with `pai_pm4_emit` and fills them; a pointer into the buffer is the index
of the dword, and `none` is NULL.  The arrays a caller passes lie outside the buffer.
-/

namespace Prospero

/-! ## The builder -/

/-- `pai_pm4_builder_t`; `buf` is the memory from `b->buf` on. -/
structure Pm4Builder where
  /-- The dwords of the buffer. -/
  buf : ℕ → UInt32
  /-- Capacity in dwords. -/
  cap : UInt32
  /-- Dwords reserved so far. -/
  len : UInt32

/-- `pai_pm4_builder_init`. -/
def paiPm4BuilderInit (buf : ℕ → UInt32) (cap : UInt32) : Pm4Builder := ⟨buf, cap, 0⟩

/-- `buf[0 .. len)`. -/
def Pm4Builder.words (b : Pm4Builder) : List UInt32 := (List.range b.len.toNat).map b.buf

/-- `pai_pm4_emit`. -/
def paiPm4Emit (b : Pm4Builder) (dwords : UInt32) : Pm4Builder × Option ℕ :=
  if dwords = 0 ∨ b.cap - b.len < dwords then (b, none)
  else ({ b with len := b.len + dwords }, some b.len.toNat)

/-- The assignments `p[0] = ..`, `p[1] = ..` and so on. -/
def Pm4Builder.store (b : Pm4Builder) (p : ℕ) (words : List UInt32) : Pm4Builder :=
  { b with buf := fun i => if p ≤ i then words.getD (i - p) (b.buf i) else b.buf i }

/-- `pai_pm4_header3`. -/
def paiPm4Header3 (op count : UInt32) : UInt32 :=
  (0xC0000000 : UInt32) ||| (((count - 2) &&& 0x3FFF) <<< (16 : UInt32)) ||| (op <<< (8 : UInt32))

/-! ## Opcodes -/

/-- `PAI_PM4_OP_NOP`. -/
abbrev paiPm4OpNop : UInt32 := 0x10
/-- `PAI_PM4_OP_DISPATCH_DIRECT`. -/
abbrev paiPm4OpDispatchDirect : UInt32 := 0x15
/-- `PAI_PM4_OP_CONTEXT_CONTROL`. -/
abbrev paiPm4OpContextControl : UInt32 := 0x28
/-- `PAI_PM4_OP_INDIRECT_BUFFER`. -/
abbrev paiPm4OpIndirectBuffer : UInt32 := 0x3F
/-- `PAI_PM4_OP_ACQUIRE_MEM`. -/
abbrev paiPm4OpAcquireMem : UInt32 := 0x58
/-- `PAI_PM4_OP_EVENT_WRITE`. -/
abbrev paiPm4OpEventWrite : UInt32 := 0x46
/-- `PAI_PM4_OP_RELEASE_MEM`. -/
abbrev paiPm4OpReleaseMem : UInt32 := 0x49
/-- `PAI_PM4_OP_DMA_DATA`. -/
abbrev paiPm4OpDmaData : UInt32 := 0x50
/-- `PAI_PM4_OP_SET_SH_REG`. -/
abbrev paiPm4OpSetShReg : UInt32 := 0x76
/-- `PAI_PM4_OP_WAIT_REG_MEM`. -/
abbrev paiPm4OpWaitRegMem : UInt32 := 0x3C
/-- `PAI_PM4_OP_WRITE_DATA`. -/
abbrev paiPm4OpWriteData : UInt32 := 0x37
/-- `PAI_PM4_DISPATCH_INITIATOR`. -/
abbrev paiPm4DispatchInitiator : UInt32 := 0x41
/-- `PAI_GFX1013_EOP_CACHE_FLUSH_EVENT`. -/
abbrev paiGfx1013EopCacheFlushEvent : UInt32 := 0x14
/-- `PAI_GFX1013_EOP_GCR_CONTROL`. -/
abbrev paiGfx1013EopGcrControl : UInt32 := 0x703
/-- `PAI_GFX1013_EOP_CACHE_POLICY`. -/
abbrev paiGfx1013EopCachePolicy : UInt32 := 3
/-- `PAI_GFX1013_EOP_EVENT_INDEX`. -/
abbrev paiGfx1013EopEventIndex : UInt32 := 5
/-- `PAI_GFX1013_EOP_DATA_SEL_32B`. -/
abbrev paiGfx1013EopDataSel32b : UInt32 := 1

/-! ## Packets -/

/-- The end of most packet builders: reserve the packet, and fill it when there was room. -/
def Pm4Builder.packet (b : Pm4Builder) (dwords : UInt32) (words : List UInt32) :
    Pm4Builder × Option ℕ :=
  match paiPm4Emit b dwords with
  | (b, none) => (b, none)
  | (b, some p) => (b.store p words, some p)

/-- `pai_pm4_nop`. -/
def paiPm4Nop (b : Pm4Builder) (dwords : UInt32) : Pm4Builder × Option ℕ :=
  if dwords < 2 then (b, none)
  else b.packet dwords
    (paiPm4Header3 paiPm4OpNop dwords :: List.replicate (dwords.toNat - 1) 0)

/-- `pai_pm4_set_sh_reg_compute`; `values` is `none` for NULL. -/
def paiPm4SetShRegCompute (b : Pm4Builder) (regOffset count : UInt32)
    (values : Option (ℕ → UInt32)) : Pm4Builder × Option ℕ :=
  match values with
  | none => (b, none)
  | some values =>
    if count = 0 ∨ 0x3FFE < count then (b, none)
    else b.packet (count + 2)
      ((paiPm4Header3 paiPm4OpSetShReg (count + 2) ||| 1) :: (regOffset &&& 0xFFFF) ::
        (List.range count.toNat).map values)

/-- `pai_pm4_dispatch_direct`. -/
def paiPm4DispatchDirect (b : Pm4Builder) (groupX groupY groupZ modifier : UInt32) :
    Pm4Builder × Option ℕ :=
  b.packet 5
    [paiPm4Header3 paiPm4OpDispatchDirect 5 ||| 1, groupX, groupY, groupZ,
      (modifier &&& 0xA038) ||| paiPm4DispatchInitiator]

/-- `pai_pm4_context_control`. -/
def paiPm4ContextControl (b : Pm4Builder) (loadControl shadowControl : UInt32) :
    Pm4Builder × Option ℕ :=
  b.packet 3 [paiPm4Header3 paiPm4OpContextControl 3, loadControl, shadowControl]

/-- `pai_pm4_acquire_mem`. -/
def paiPm4AcquireMem (b : Pm4Builder) : Pm4Builder × Option ℕ :=
  b.packet 8
    [paiPm4Header3 paiPm4OpAcquireMem 8, 0, 0xFFFFFFFF, 0x00FFFFFF, 0, 0, 0x0A, 0xC3B1]

/-- `pai_pm4_release_mem_eop`. -/
def paiPm4ReleaseMemEop (b : Pm4Builder) (eventType eventIndex : UInt32) (addr : UInt64)
    (data : UInt32) : Pm4Builder × Option ℕ :=
  b.packet 8
    [paiPm4Header3 paiPm4OpReleaseMem 8,
      (eventType &&& 0x3F) ||| ((eventIndex &&& 0x0F) <<< (8 : UInt32)),
      (addr &&& 0xFFFFFFFF).toUInt32, (addr >>> (32 : UInt64)).toUInt32, data, 0, 0, 0]

/-- `pai_pm4_release_mem_eop_fence`. -/
def paiPm4ReleaseMemEopFence (b : Pm4Builder) (addr : UInt64) (value : UInt32) :
    Pm4Builder × Option ℕ :=
  b.packet 8
    [paiPm4Header3 paiPm4OpReleaseMem 8,
      (paiGfx1013EopCacheFlushEvent &&& 0x3F) ||| (paiGfx1013EopEventIndex <<< (8 : UInt32)) |||
        ((paiGfx1013EopGcrControl &&& 0xFFF) <<< (12 : UInt32)) |||
        ((paiGfx1013EopCachePolicy &&& 0x3) <<< (25 : UInt32)),
      ((0 : UInt32) <<< (16 : UInt32)) ||| ((0 : UInt32) <<< (24 : UInt32)) |||
        (paiGfx1013EopDataSel32b <<< (29 : UInt32)),
      addr.toUInt32 &&& 0xFFFFFFFC, (addr >>> (32 : UInt64)).toUInt32, value, 0, 0]

/-- `pai_pm4_write_data`; `data` is `none` for NULL. -/
def paiPm4WriteData (b : Pm4Builder) (addr : UInt64) (data : Option (ℕ → UInt32))
    (dwords : UInt32) : Pm4Builder × Option ℕ :=
  match data with
  | none => (b, none)
  | some data =>
    if dwords = 0 ∨ 0x3FFD < dwords then (b, none)
    else b.packet (dwords + 4)
      (paiPm4Header3 paiPm4OpWriteData (dwords + 4) :: 0 :: (addr.toUInt32 &&& ~~~(0x3 : UInt32)) ::
        (addr >>> (32 : UInt64)).toUInt32 :: (List.range dwords.toNat).map data)

/-- `pai_pm4_dma_data`: the size is checked after the packet is reserved. -/
def paiPm4DmaData (b : Pm4Builder) (src dst : UInt64) (size : UInt32) : Pm4Builder × Option ℕ :=
  match paiPm4Emit b 7 with
  | (b, none) => (b, none)
  | (b, some p) =>
    if 0x1FFFFF < size then (b, none)
    else
      (b.store p
        [((3 : UInt32) <<< (30 : UInt32)) ||| ((1 : UInt32) <<< (1 : UInt32)) |||
            (paiPm4OpDmaData <<< (8 : UInt32)) ||| ((5 : UInt32) <<< (16 : UInt32)),
          ((2 : UInt32) <<< (13 : UInt32)) ||| ((1 : UInt32) <<< (15 : UInt32)) |||
            ((2 : UInt32) <<< (25 : UInt32)) ||| ((1 : UInt32) <<< (27 : UInt32)) |||
            ((1 : UInt32) <<< (31 : UInt32)),
          (src &&& 0xFFFFFFFF).toUInt32, (src >>> (32 : UInt64)).toUInt32,
          (dst &&& 0xFFFFFFFF).toUInt32, (dst >>> (32 : UInt64)).toUInt32, size &&& 0x1FFFFF], some p)

/-- `pai_pm4_indirect_buffer`: the size is checked after the packet is reserved. -/
def paiPm4IndirectBuffer (b : Pm4Builder) (ibAddr : UInt64) (ibSizeDwords : UInt32) :
    Pm4Builder × Option ℕ :=
  match paiPm4Emit b 4 with
  | (b, none) => (b, none)
  | (b, some p) =>
    if 0xFFFFF < ibSizeDwords then (b, none)
    else
      (b.store p
        [paiPm4Header3 paiPm4OpIndirectBuffer 4, (ibAddr &&& 0xFFFFFFFF).toUInt32,
          (ibAddr >>> (32 : UInt64)).toUInt32 &&& 0xFFFF, ibSizeDwords &&& 0xFFFFF], some p)

/-- `pai_pm4_wait_reg_mem`: the selectors are checked after the packet is reserved. -/
def paiPm4WaitRegMem (b : Pm4Builder) (compareFunction operation cachePolicy : UInt32)
    (address : UInt64) (reference mask pollCycles : UInt32) : Pm4Builder × Option ℕ :=
  match paiPm4Emit b 7 with
  | (b, none) => (b, none)
  | (b, some p) =>
    if 7 < compareFunction ∨ 4 < operation ∨ 3 < cachePolicy then (b, none)
    else
      (b.store p
        [paiPm4Header3 paiPm4OpWaitRegMem 7,
          (0x10 : UInt32) ||| (compareFunction &&& 0x7) ||| ((operation &&& 0x3) <<< (8 : UInt32)) |||
            ((operation &&& 0xC) <<< (4 : UInt32)) ||| ((cachePolicy &&& 0x3) <<< (25 : UInt32)),
          address.toUInt32 &&& ~~~(0x3 : UInt32), (address >>> (32 : UInt64)).toUInt32 &&& 0x3FFFF,
          reference, mask,
          if 0xFFFF0 < pollCycles then 0xFFFF else pollCycles >>> (4 : UInt32)], some p)

/-- `pai_pm4_event_write`. -/
def paiPm4EventWrite (b : Pm4Builder) (eventType eventIndex : UInt32) : Pm4Builder × Option ℕ :=
  b.packet 2
    [paiPm4Header3 paiPm4OpEventWrite 2,
      (eventType &&& 0x3F) ||| ((eventIndex &&& 0xF) <<< (8 : UInt32))]

/-! ## Calls -/

/-- A call of a packet builder. -/
inductive Pm4Call where
  /-- `pai_pm4_nop`. -/
  | nop (dwords : UInt32)
  /-- `pai_pm4_set_sh_reg_compute`. -/
  | setShRegCompute (regOffset count : UInt32) (values : Option (ℕ → UInt32))
  /-- `pai_pm4_dispatch_direct`. -/
  | dispatchDirect (groupX groupY groupZ modifier : UInt32)
  /-- `pai_pm4_context_control`. -/
  | contextControl (loadControl shadowControl : UInt32)
  /-- `pai_pm4_acquire_mem`. -/
  | acquireMem
  /-- `pai_pm4_release_mem_eop`. -/
  | releaseMemEop (eventType eventIndex : UInt32) (addr : UInt64) (data : UInt32)
  /-- `pai_pm4_release_mem_eop_fence`. -/
  | releaseMemEopFence (addr : UInt64) (value : UInt32)
  /-- `pai_pm4_write_data`. -/
  | writeData (addr : UInt64) (data : Option (ℕ → UInt32)) (dwords : UInt32)
  /-- `pai_pm4_dma_data`. -/
  | dmaData (src dst : UInt64) (size : UInt32)
  /-- `pai_pm4_indirect_buffer`. -/
  | indirectBuffer (ibAddr : UInt64) (ibSizeDwords : UInt32)
  /-- `pai_pm4_wait_reg_mem`. -/
  | waitRegMem (compareFunction operation cachePolicy : UInt32) (address : UInt64)
      (reference mask pollCycles : UInt32)
  /-- `pai_pm4_event_write`. -/
  | eventWrite (eventType eventIndex : UInt32)

/-- One call. -/
def Pm4Call.run (b : Pm4Builder) : Pm4Call → Pm4Builder × Option ℕ
  | .nop dwords => paiPm4Nop b dwords
  | .setShRegCompute regOffset count values => paiPm4SetShRegCompute b regOffset count values
  | .dispatchDirect groupX groupY groupZ modifier =>
    paiPm4DispatchDirect b groupX groupY groupZ modifier
  | .contextControl loadControl shadowControl => paiPm4ContextControl b loadControl shadowControl
  | .acquireMem => paiPm4AcquireMem b
  | .releaseMemEop eventType eventIndex addr data =>
    paiPm4ReleaseMemEop b eventType eventIndex addr data
  | .releaseMemEopFence addr value => paiPm4ReleaseMemEopFence b addr value
  | .writeData addr data dwords => paiPm4WriteData b addr data dwords
  | .dmaData src dst size => paiPm4DmaData b src dst size
  | .indirectBuffer ibAddr ibSizeDwords => paiPm4IndirectBuffer b ibAddr ibSizeDwords
  | .waitRegMem compareFunction operation cachePolicy address reference mask pollCycles =>
    paiPm4WaitRegMem b compareFunction operation cachePolicy address reference mask pollCycles
  | .eventWrite eventType eventIndex => paiPm4EventWrite b eventType eventIndex

/-- The builder after a sequence of calls. -/
def Pm4Builder.runAll (b : Pm4Builder) (calls : List Pm4Call) : Pm4Builder :=
  calls.foldl (fun b call => (call.run b).1) b

/-- The calls of a sequence that returned a packet, in order. -/
def Pm4Builder.accepted (b : Pm4Builder) : List Pm4Call → List Pm4Call
  | [] => []
  | call :: calls =>
    let rest := Pm4Builder.accepted (call.run b).1 calls
    if (call.run b).2.isSome then call :: rest else rest

/-! ## What a packet carries -/

/-- The size field of a header: the dwords of the packet. -/
def pm4PacketSize (header : UInt32) : ℕ := ((header >>> (16 : UInt32)) &&& 0x3FFF).toNat + 2

/-- The opcode field of a header. -/
def pm4Opcode (header : UInt32) : UInt32 := (header >>> (8 : UInt32)) &&& 0xFF

/-- A bit field of a packet with the number that belongs in it. -/
structure Pm4Field where
  /-- The dword. -/
  word : ℕ
  /-- The lowest bit. -/
  shift : ℕ
  /-- The number of bits. -/
  width : ℕ
  /-- The number, of which the field has room for the low `width` bits. -/
  value : ℕ

/-- The packet has the number, reduced to the width of the field. -/
def Pm4Field.HeldBy (field : Pm4Field) (packet : List UInt32) : Prop :=
  (packet.getD field.word 0).toNat / 2 ^ field.shift % 2 ^ field.width =
    field.value % 2 ^ field.width

/-- The opcode of a call. -/
def Pm4Call.opcode : Pm4Call → UInt32
  | .nop _ => paiPm4OpNop
  | .setShRegCompute .. => paiPm4OpSetShReg
  | .dispatchDirect .. => paiPm4OpDispatchDirect
  | .contextControl .. => paiPm4OpContextControl
  | .acquireMem => paiPm4OpAcquireMem
  | .releaseMemEop .. => paiPm4OpReleaseMem
  | .releaseMemEopFence .. => paiPm4OpReleaseMem
  | .writeData .. => paiPm4OpWriteData
  | .dmaData .. => paiPm4OpDmaData
  | .indirectBuffer .. => paiPm4OpIndirectBuffer
  | .waitRegMem .. => paiPm4OpWaitRegMem
  | .eventWrite .. => paiPm4OpEventWrite

/-- The dwords of the packet of a call. -/
def Pm4Call.size : Pm4Call → ℕ
  | .nop dwords => dwords.toNat
  | .setShRegCompute _ count _ => count.toNat + 2
  | .dispatchDirect .. => 5
  | .contextControl .. => 3
  | .acquireMem => 8
  | .releaseMemEop .. => 8
  | .releaseMemEopFence .. => 8
  | .writeData _ _ dwords => dwords.toNat + 4
  | .dmaData .. => 7
  | .indirectBuffer .. => 4
  | .waitRegMem .. => 7
  | .eventWrite .. => 2

/-- The dwords from `word` on hold the first `count` of the numbers. -/
def pm4Array (word : ℕ) (values : Option (ℕ → UInt32)) (count : ℕ) : List Pm4Field :=
  match values with
  | none => []
  | some values => (List.range count).map fun i => ⟨word + i, 0, 32, (values i).toNat⟩

/-- Where the arguments of a call go.  The modifier of a dispatch has three fields, the operation of a wait
two, and addresses are split at bit 32; those that must be aligned to four bytes have no low two bits. -/
def Pm4Call.fields : Pm4Call → List Pm4Field
  | .nop _ => []
  | .setShRegCompute regOffset count values =>
    ⟨1, 0, 16, regOffset.toNat⟩ :: pm4Array 2 values count.toNat
  | .dispatchDirect groupX groupY groupZ modifier =>
    [⟨1, 0, 32, groupX.toNat⟩, ⟨2, 0, 32, groupY.toNat⟩, ⟨3, 0, 32, groupZ.toNat⟩,
      ⟨4, 3, 3, modifier.toNat / 8⟩, ⟨4, 13, 1, modifier.toNat / 8192⟩,
      ⟨4, 15, 1, modifier.toNat / 32768⟩]
  | .contextControl loadControl shadowControl =>
    [⟨1, 0, 32, loadControl.toNat⟩, ⟨2, 0, 32, shadowControl.toNat⟩]
  | .acquireMem => []
  | .releaseMemEop eventType eventIndex addr data =>
    [⟨1, 0, 6, eventType.toNat⟩, ⟨1, 8, 4, eventIndex.toNat⟩, ⟨2, 0, 32, addr.toNat⟩,
      ⟨3, 0, 32, addr.toNat / 4294967296⟩, ⟨4, 0, 32, data.toNat⟩]
  | .releaseMemEopFence addr value =>
    [⟨3, 2, 30, addr.toNat / 4⟩, ⟨4, 0, 32, addr.toNat / 4294967296⟩, ⟨5, 0, 32, value.toNat⟩]
  | .writeData addr data dwords =>
    [⟨2, 2, 30, addr.toNat / 4⟩, ⟨3, 0, 32, addr.toNat / 4294967296⟩] ++
      pm4Array 4 data dwords.toNat
  | .dmaData src dst size =>
    [⟨2, 0, 32, src.toNat⟩, ⟨3, 0, 32, src.toNat / 4294967296⟩, ⟨4, 0, 32, dst.toNat⟩,
      ⟨5, 0, 32, dst.toNat / 4294967296⟩, ⟨6, 0, 21, size.toNat⟩]
  | .indirectBuffer ibAddr ibSizeDwords =>
    [⟨1, 0, 32, ibAddr.toNat⟩, ⟨2, 0, 16, ibAddr.toNat / 4294967296⟩,
      ⟨3, 0, 20, ibSizeDwords.toNat⟩]
  | .waitRegMem compareFunction operation cachePolicy address reference mask pollCycles =>
    [⟨1, 0, 3, compareFunction.toNat⟩, ⟨1, 8, 2, operation.toNat⟩, ⟨1, 6, 2, operation.toNat / 4⟩,
      ⟨1, 25, 2, cachePolicy.toNat⟩, ⟨2, 2, 30, address.toNat / 4⟩,
      ⟨3, 0, 18, address.toNat / 4294967296⟩, ⟨4, 0, 32, reference.toNat⟩, ⟨5, 0, 32, mask.toNat⟩,
      ⟨6, 0, 16, min (pollCycles.toNat / 16) 65535⟩]
  | .eventWrite eventType eventIndex =>
    [⟨1, 0, 6, eventType.toNat⟩, ⟨1, 8, 4, eventIndex.toNat⟩]

/-- The packet is one of the call: its size, its opcode, and each argument in its field. -/
structure Pm4Call.Carries (call : Pm4Call) (packet : List UInt32) : Prop where
  /-- As many dwords as the call asks for. -/
  length_eq : packet.length = call.size
  /-- A type-3 packet. -/
  type_eq : (packet.getD 0 0).toNat / 1073741824 = 3
  /-- The opcode. -/
  opcode_eq : pm4Opcode (packet.getD 0 0) = call.opcode
  /-- The arguments. -/
  fields_held : ∀ field ∈ call.fields, field.HeldBy packet

end Prospero
