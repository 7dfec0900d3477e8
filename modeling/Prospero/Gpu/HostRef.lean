import Prospero.Gpu.Pm4
import Prospero.Lib.Bytes
import Prospero.Lib.Footprint
import Prospero.Status

/-!
# The host reference interpreter of PM4 streams

`gpu/hal/backend_host_ref.c`: `pai_host_run_stream` over identity-mapped memory.  The stream is read from
the same memory that the packets write, and an indirect buffer is a stream somewhere else in it.

One iteration of the loop first reads what it needs of the packet (`hostFetch`, a program over the dwords of
the stream, so that its accesses can be listed) and then acts on the registers and the memory.  The
recursion into indirect buffers is a stack of frames, and `HostMachine.step` is one iteration of the
innermost loop.  Addresses are natural numbers; a kernel is any function of its arguments and the memory.
-/

namespace Prospero

open ByteString Footprint

/-! ## State -/

/-- `PAI_HOST_REG_SH_BASE`. -/
abbrev paiHostRegShBase : UInt32 := 0x0200
/-- `PAI_HOST_REG_SH_COUNT`. -/
abbrev paiHostRegShCount : UInt32 := 0x0100
/-- `PAI_HOST_MAX_IB_DEPTH`. -/
abbrev paiHostMaxIbDepth : ℕ := 4
/-- `PAI_REG_COMPUTE_NUM_THREAD_X`. -/
abbrev paiRegComputeNumThreadX : UInt32 := 0x0207
/-- `PAI_REG_COMPUTE_PGM_LO`. -/
abbrev paiRegComputePgmLo : UInt32 := 0x020C
/-- `PAI_REG_COMPUTE_PGM_HI`. -/
abbrev paiRegComputePgmHi : UInt32 := 0x020D
/-- `PAI_REG_COMPUTE_USER_DATA_0`. -/
abbrev paiRegComputeUserData0 : UInt32 := 0x0240

/-- The memory of the process, by address. -/
abbrev HostMemory := ℕ → UInt8

/-- The `len` bytes at an address. -/
def HostMemory.bytes (mem : HostMemory) (addr len : ℕ) : List UInt8 :=
  (List.range len).map fun i => mem (addr + i)

/-- The memory after a `memcpy` to an address. -/
def HostMemory.put (mem : HostMemory) (addr : ℕ) (bytes : List UInt8) : HostMemory :=
  fun a => if addr ≤ a then bytes.getD (a - addr) (mem a) else mem a

/-- `pai_host_kernel_fn` with its context: user data, `threads_x`, `group_x` and the memory. -/
abbrev HostKernel := (ℕ → UInt32) → UInt32 → UInt32 → HostMemory → PaiStatus × HostMemory

/-- `pai_host_shader_entry_t`. -/
structure HostShader where
  /-- The address of the shader code. -/
  codeAddr : UInt64
  /-- The host kernel. -/
  fn : HostKernel

/-- `pai_host_ref_state_t` and the memory it works in. -/
structure HostRef where
  /-- The register bank, by its distance from the base. -/
  shRegs : ℕ → UInt32
  /-- The registered shaders, the latest first. -/
  shaders : List HostShader
  /-- The memory. -/
  mem : HostMemory

/-- `pai_gpu_host_register_shader`, given an allocation that succeeds. -/
def paiGpuHostRegisterShader (ref : HostRef) (codeAddr : UInt64) (fn : HostKernel) : HostRef :=
  { ref with shaders := ⟨codeAddr, fn⟩ :: ref.shaders.eraseP fun e => e.codeAddr == codeAddr }

/-- `st->sh_regs[reg - PAI_HOST_REG_SH_BASE]`. -/
def HostRef.reg (ref : HostRef) (reg : UInt32) : UInt32 :=
  ref.shRegs (reg - paiHostRegShBase).toNat

/-- The code address a dispatch looks up. -/
def HostRef.codeAddr (ref : HostRef) : UInt64 :=
  ((ref.reg paiRegComputePgmLo).toUInt64 <<< (8 : UInt64)) |||
    ((ref.reg paiRegComputePgmHi).toUInt64 <<< (40 : UInt64))

/-- The dispatch of a packet: the kernel registered for the code address runs. -/
def HostRef.dispatch (ref : HostRef) (groupX : UInt32) : PaiStatus × HostRef :=
  match ref.shaders.find? fun e => e.codeAddr == ref.codeAddr with
  | none => (paiErrUnsupported, ref)
  | some e =>
    let r := e.fn (fun j => ref.shRegs ((paiRegComputeUserData0 - paiHostRegShBase).toNat + j))
      (ref.reg paiRegComputeNumThreadX) groupX ref.mem
    (r.1, { ref with mem := r.2 })

/-- The `memcpy` of values into the register bank. -/
def HostRef.setRegs (ref : HostRef) (start : ℕ) (values : List UInt32) : HostRef :=
  { ref with
    shRegs := fun r => if start ≤ r then values.getD (r - start) (ref.shRegs r) else ref.shRegs r }

/-! ## Reading a packet -/

/-- A program over the dwords of a stream. -/
abbrev Fetch := Prog Unit PaiStatus

/-- `pm4[i]`. -/
def pm4At (i : UInt32) : Fetch UInt32 := do
  let bs ← loadBytes () (4 * i.toNat) 4
  pure (UInt32.ofNat (leNat bs))

/-- The bytes that `memcpy` takes from `&pm4[i]`. -/
def pm4From (i : UInt32) (len : ℕ) : Fetch (List UInt8) := loadBytes () (4 * i.toNat) len

/-- Bytes as `n` dwords. -/
def dwordsOf (bs : List UInt8) (n : ℕ) : List UInt32 :=
  (List.range n).map fun j => UInt32.ofNat (leNat ((bs.drop (4 * j)).take 4))

/-- `(uint64_t)lo | ((uint64_t)hi << 32)`. -/
def addrOf (lo hi : UInt32) : UInt64 := lo.toUInt64 ||| (hi.toUInt64 <<< (32 : UInt64))

/-- What a packet asks the interpreter to do. -/
inductive HostAction where
  /-- Nothing. -/
  | skip
  /-- Write registers from `start` on. -/
  | setRegs (start : ℕ) (values : List UInt32)
  /-- Run the kernel of the current code address. -/
  | dispatch (groupX : UInt32)
  /-- Write bytes to memory. -/
  | store (addr : UInt64) (bytes : List UInt8)
  /-- Copy bytes inside memory. -/
  | move (dst src : UInt64) (size : UInt32)
  /-- Run another stream. -/
  | call (ib : UInt64) (dwords : UInt32)

/-- The `SET_SH_REG` case. -/
def fetchSetShReg (i count : UInt32) : Fetch HostAction := do
  let word ← pm4At (i + 1)
  let reg := word &&& 0xFFFF
  let n := count - 2
  if reg < paiHostRegShBase ∨ paiHostRegShBase + paiHostRegShCount < reg + n then
    .fail paiErrInternal
  else do
    let bs ← pm4From (i + 2) (n.toNat * 4)
    pure (.setRegs (reg - paiHostRegShBase).toNat (dwordsOf bs n.toNat))

/-- The address and the value of a `RELEASE_MEM`, from the places of its layout. -/
def fetchRelease (addrLo addrHi data : UInt32) : Fetch HostAction := do
  let lo ← pm4At addrLo
  let hi ← pm4At addrHi
  let value ← pm4At data
  pure (.store (addrOf lo hi) (leBytes 4 value.toNat))

/-- The `RELEASE_MEM` case: the layout is told by the second dword, if the packet is long enough. -/
def fetchReleaseMem (i count : UInt32) : Fetch HostAction :=
  if 8 ≤ count then do
    let word ← pm4At (i + 1)
    if word &&& 0xFFF000 = 0x703000 then fetchRelease (i + 3) (i + 4) (i + 5)
    else fetchRelease (i + 2) (i + 3) (i + 4)
  else fetchRelease (i + 2) (i + 3) (i + 4)

/-- The `WRITE_DATA` case. -/
def fetchWriteData (i count : UInt32) : Fetch HostAction := do
  let lo ← pm4At (i + 2)
  let hi ← pm4At (i + 3)
  let bs ← pm4From (i + 4) ((count - 4).toNat * 4)
  pure (.store (addrOf lo hi) bs)

/-- The `DMA_DATA` case. -/
def fetchDmaData (i : UInt32) : Fetch HostAction := do
  let srcLo ← pm4At (i + 2)
  let srcHi ← pm4At (i + 3)
  let dstLo ← pm4At (i + 4)
  let dstHi ← pm4At (i + 5)
  let size ← pm4At (i + 6)
  pure (.move (addrOf dstLo dstHi) (addrOf srcLo srcHi) (size &&& 0x1FFFFF))

/-- The `INDIRECT_BUFFER` case. -/
def fetchIndirectBuffer (i : UInt32) : Fetch HostAction := do
  let lo ← pm4At (i + 1)
  let hi ← pm4At (i + 2)
  let dwords ← pm4At (i + 3)
  pure (.call (addrOf lo hi) (dwords &&& 0xFFFFF))

/-- The `switch`. -/
def fetchAction (op i count : UInt32) : Fetch HostAction :=
  if op = paiPm4OpNop then pure .skip
  else if op = paiPm4OpContextControl then pure .skip
  else if op = paiPm4OpSetShReg then fetchSetShReg i count
  else if op = paiPm4OpDispatchDirect then do
    let groupX ← pm4At (i + 1)
    pure (.dispatch groupX)
  else if op = paiPm4OpReleaseMem then fetchReleaseMem i count
  else if op = paiPm4OpWriteData then fetchWriteData i count
  else if op = paiPm4OpDmaData then fetchDmaData i
  else if op = paiPm4OpIndirectBuffer then fetchIndirectBuffer i
  else if op = paiPm4OpEventWrite then pure .skip
  else .fail paiErrUnsupported

/-- What an iteration reads: the header, and what its opcode asks for; with the index of the next packet. -/
def hostFetch (i dwords : UInt32) : Fetch (HostAction × UInt32) := do
  let header ← pm4At i
  let op := (header >>> (8 : UInt32)) &&& 0xFF
  if header >>> (30 : UInt32) ≠ 3 then .fail paiErrUnsupported
  else
    let count := ((header >>> (16 : UInt32)) &&& 0x3FFF) + 2
    if count < 1 ∨ dwords < i + count then .fail paiErrInternal
    else do
      let action ← fetchAction op i count
      pure (action, i + count)

/-! ## Running a stream -/

/-- An activation of `pai_host_run_stream`. -/
structure HostFrame where
  /-- The address of the stream. -/
  pm4 : UInt64
  /-- Its length. -/
  dwords : UInt32
  /-- The index of the next packet. -/
  i : UInt32
deriving DecidableEq

/-- The interpreter: the activations, the innermost first, and the status once it has returned. -/
structure HostMachine where
  /-- Registers, shaders and memory. -/
  ref : HostRef
  /-- The activations. -/
  frames : List HostFrame
  /-- What the outermost activation has returned. -/
  status : Option PaiStatus

/-- Every activation returns with the error. -/
def HostMachine.fail (m : HostMachine) (e : PaiStatus) : HostMachine := { m with status := some e }

/-- The second half of an iteration, with the innermost activation already moved on. -/
def HostMachine.perform (m : HostMachine) (action : HostAction) : HostMachine :=
  match action with
  | .skip => m
  | .setRegs start values => { m with ref := m.ref.setRegs start values }
  | .dispatch groupX =>
    let r := m.ref.dispatch groupX
    let m := { m with ref := r.2 }
    if r.1 ≠ paiOk then m.fail r.1 else m
  | .store addr bytes => { m with ref := { m.ref with mem := m.ref.mem.put addr.toNat bytes } }
  | .move dst src size =>
    let bytes := m.ref.mem.bytes src.toNat size.toNat
    { m with ref := { m.ref with mem := m.ref.mem.put dst.toNat bytes } }
  | .call ib dwords => { m with frames := ⟨ib, dwords, 0⟩ :: m.frames }

/-- What the next iteration reads; `none` when there is none. -/
def HostMachine.fetch? (m : HostMachine) : Option (HostFrame × Fetch (HostAction × UInt32)) :=
  match m.status, m.frames with
  | none, f :: callers =>
    if callers.length ≤ paiHostMaxIbDepth ∧ f.i < f.dwords then some (f, hostFetch f.i f.dwords)
    else none
  | _, _ => none

/-- The dwords of a stream as the memory of a fetch. -/
def HostRef.stream (ref : HostRef) (f : HostFrame) : Memory Unit := fun _ a => ref.mem (f.pm4.toNat + a)

/-- One iteration of the innermost loop, or the return of the innermost activation. -/
def HostMachine.step (m : HostMachine) : HostMachine :=
  match m.status with
  | some _ => m
  | none =>
    match m.frames with
    | [] => { m with status := some paiOk }
    | f :: callers =>
      if paiHostMaxIbDepth < callers.length then m.fail paiErrInternal
      else if f.i < f.dwords then
        match ((hostFetch f.i f.dwords).run (m.ref.stream f)).1 with
        | .error e => m.fail e
        | .ok (action, next) =>
          { m with frames := { f with i := next } :: callers }.perform action
      else { m with frames := callers }

/-- `pai_host_run_stream(st, pm4, dwords, 0)` before its first iteration. -/
def paiHostRunStream (ref : HostRef) (pm4 : UInt64) (dwords : UInt32) : HostMachine :=
  ⟨ref, [⟨pm4, dwords, 0⟩], none⟩

end Prospero
