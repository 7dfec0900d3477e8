import Prospero.Lib.Words
import Prospero.Status

/-!
# Patching the page tables of the GPU

`platform/ps5/gvmspace.c`: the GPU address space of the process is found in kernel data or from the
layout `pai_gvmspace_diag` derives, its tables are walked through the direct map, and the physical
frame of the 2 MB entry of an address is rewritten.  `pai_gvmspace_probe` only reads the tables.

The kernel primitives are those of the PS5 SDK: `kernel_copyout` reads, `kernel_setlong` writes, and
either fails at some addresses.  Which ones is a parameter, as are the addresses the SDK knows.  Log
lines are left out.

## Outline

1. The kernel's memory and the program's globals.
2. The walk of two tables both patches share.
3. `pai_gvmspace_diag`, `pai_gvmspace_repair`.
4. `pai_gvmspace_fix` and what it scans for.
5. `pai_gvmspace_probe`, each computed index into a local array checked.
-/

namespace Prospero

open Words

/-! ## Memory and globals -/

/-- The kernel as the SDK gives access to it: where its primitives succeed, what `kernel_getlong`
answers, and the addresses of the SDK's tables. -/
structure KernelRw where
  /-- `kernel_copyout` of 8 bytes from this address succeeds. -/
  canRead : UInt64 → Bool
  /-- `kernel_setlong` at this address succeeds. -/
  canWrite : UInt64 → Bool
  /-- `kernel_getlong`. -/
  getlong : Mem → UInt64 → UInt64
  /-- `kernel_get_proc(getpid())`. -/
  proc : UInt64
  /-- `KERNEL_OFFSET_PROC_P_VMSPACE`. -/
  offsetVmspace : UInt64
  /-- `KERNEL_ADDRESS_DATA_BASE`. -/
  dataBase : UInt64

/-- `pai_gvmspace_ctx_t`, less the two fields nothing sets. -/
structure GvmspaceCtx where
  found : Bool
  entryAddr : UInt64
  startVa : UInt64
  size : UInt64
  pageDirPhys : UInt64
  dmapBase : UInt64

/-- The kernel's memory and the globals of the file: `g_diag_gpu_pml4_phys`, `g_diag_dmap`,
`g_diag_have_layout`, `g_ref_pde`, `g_repair_mode`, and the statics `g` and `dumped` of
`pai_gvmspace_fix`. -/
structure Gvm where
  mem : Mem
  diagPml4Phys : UInt64
  diagDmap : UInt64
  haveLayout : Bool
  refPde : UInt64
  repairMode : ℤ
  ctx : GvmspaceCtx
  dumped : Bool

variable (k : KernelRw)

/-- The 8 bytes at `a` lie inside the address space. -/
def InSpace (a : UInt64) : Prop := a.toNat + 8 ≤ 18446744073709551616

instance (a : UInt64) : Decidable (InSpace a) := inferInstanceAs (Decidable (_ ≤ _))

/-- `kernel_copyout(a, &out, 8)`: a plain partial read. -/
def KernelRw.copyout (mem : Mem) (a : UInt64) : Option UInt64 :=
  if k.canRead a ∧ InSpace a then some (UInt64.ofNat (load mem a.toNat 8)) else none

/-- `kernel_setlong(a, v)`: a plain partial write. -/
def KernelRw.setlong (mem : Mem) (a v : UInt64) : Option Mem :=
  if k.canWrite a ∧ InSpace a then some (store mem a.toNat 8 v.toNat) else none

/-! ## Entries and walks -/

/-- `PAI_GPU_WALK_ADDR_MASK`. -/
abbrev gpuWalkAddrMask : UInt64 := 0xFFFFFFFFC0
/-- `PAI_GPU_VALID`. -/
abbrev gpuValid : UInt64 := 1
/-- `PAI_GPU_PHYS_MASK_2MB`: `~(uint64_t)((2u << 20) - 1)`. -/
abbrev gpuPhysMask2mb : UInt64 := ~~~0x1FFFFF
/-- `PAI_GPU_PHYS_MASK_940 & ~0xFFFULL`, the mask every walk of the 9.40 tables uses. -/
abbrev gpuTableMask940 : UInt64 := 0x00003FFFFFFFFFFF &&& ~~~0xFFF
/-- `0x00003FFFFFE00000ULL`: bits 45..21, the frame of a 2 MB entry. -/
abbrev gpuFrame2mb : UInt64 := 0x00003FFFFFE00000

/-- `entry & PAI_GPU_VALID`. -/
abbrev IsValid (entry : UInt64) : Prop := entry &&& gpuValid ≠ 0

/-- `(va >> 39) & 0x1FFu`. -/
def idx4 (va : UInt64) : UInt64 := (va >>> 39) &&& 0x1FF
/-- `(va >> 30) & 0x1FFu`. -/
def idx3 (va : UInt64) : UInt64 := (va >>> 30) &&& 0x1FF
/-- `(va >> 21) & 0x1FFu`. -/
def idx2 (va : UInt64) : UInt64 := (va >>> 21) &&& 0x1FF

/-- An entry that is readable and valid. -/
def validEntry (read : UInt64 → Option UInt64) (phys : UInt64) : Option UInt64 :=
  (read phys).filter fun e => IsValid e

/-- The two upper levels every walk goes through: the entry of the table at `root`, the entry of the
table it points at, and the physical address of the table of 2 MB entries. -/
def upperWalk (mask : UInt64) (read : UInt64 → Option UInt64) (root va : UInt64) : Option UInt64 := do
  let e4 ← validEntry read (root + idx4 va * 8)
  let e3 ← validEntry read ((e4 &&& mask) + idx3 va * 8)
  pure (e3 &&& mask)

/-- `(entry & PAI_GPU_VALID) && (entry & mask) == (phys & mask)`. -/
def mapsFrame (mask phys entry : UInt64) : Prop :=
  IsValid entry ∧ entry &&& mask = phys &&& mask

instance (mask phys entry : UInt64) : Decidable (mapsFrame mask phys entry) :=
  inferInstanceAs (Decidable (_ ∧ _))

/-- `(entry & ~mask) | (phys & mask) | PAI_GPU_VALID`. -/
def patchEntry (mask phys entry : UInt64) : UInt64 :=
  entry &&& ~~~mask ||| phys &&& mask ||| gpuValid

/-! ## Diagnostic and repair -/

/-- `pai_gvmspace_diag`, less its log: the layout is derived from the pair at `+0x20`/`+0x28` of the
candidate pmap. -/
def paiGvmspaceDiag (s : Gvm) : PaiStatus × Gvm :=
  let vmspace := k.getlong s.mem (k.proc + k.offsetVmspace)
  if k.proc = 0 ∨ vmspace = 0 ∨ vmspace = 0xFFFFFFFFFFFFFFFF then (paiErrCapability, s)
  else
    let pmap := k.getlong s.mem (vmspace + 0x1D8)
    if pmap ≠ 0 ∧ pmap ≠ 0xFFFFFFFFFFFFFFFF then
      let va20 := k.getlong s.mem (pmap + 0x20)
      let ph28 := k.getlong s.mem (pmap + 0x28)
      if va20 > 0xFFFF800000000000 ∧ ph28 < 0x400000000 ∧ va20 - ph28 > 0xFFFF800000000000 then
        (paiOk, { s with diagPml4Phys := ph28, diagDmap := va20 - ph28, haveLayout := true })
      else (paiOk, s)
    else (paiOk, s)

/-- The GPU-bus aperture taken off: `(phys >= 0x2000000000) ? phys - 0x2000000000 : phys`. -/
def cpuPhys (phys : UInt64) : UInt64 :=
  if phys ≥ 0x2000000000 then phys - 0x2000000000 else phys

/-- The first half of `pai_gvmspace_repair`: the address of the 2 MB entry of `gpuVa` and its value,
`none` where the function returns before it has them. -/
def repairFind (s : Gvm) (gpuVa phys : UInt64) : Option (UInt64 × UInt64) :=
  if s.haveLayout = false ∨ s.refPde = 0 then none
  else if cpuPhys phys ≥ 0x400000000 then none
  else do
    let p3Phys ← upperWalk gpuTableMask940 (fun p => k.copyout s.mem (s.diagDmap + p))
      s.diagPml4Phys gpuVa
    if p3Phys ≥ 0x400000000 then none
    else
      let pdeAddr := s.diagDmap + (p3Phys + idx2 gpuVa * 8)
      let e2 ← k.copyout s.mem pdeAddr
      pure (pdeAddr, e2)

/-- `kernel_setlong(pde_addr, value)`, read back. -/
def writeVerified (s : Gvm) (pdeAddr value : UInt64) : PaiStatus × Gvm :=
  match k.setlong s.mem pdeAddr value with
  | none => (paiErrCapability, s)
  | some mem =>
    if k.copyout mem pdeAddr = some value then (paiOk, { s with mem := mem })
    else (paiErrCapability, { s with mem := mem })

/-- `pai_gvmspace_repair`. -/
def paiGvmspaceRepair (gpuVa phys : UInt64) (s : Gvm) : PaiStatus × Gvm :=
  match repairFind k s gpuVa phys with
  | none => (paiErrCapability, s)
  | some (pdeAddr, e2) =>
    if s.repairMode = 1 then writeVerified k s pdeAddr e2
    else if s.repairMode < 2 then (paiOk, s)
    else if mapsFrame gpuFrame2mb (cpuPhys phys) e2 then (paiOk, s)
    else writeVerified k s pdeAddr (patchEntry gpuFrame2mb (cpuPhys phys) e2)

/-! ## The fix -/

/-- `pai_gvm_read_phys`. -/
def paiGvmReadPhys (mem : Mem) (g : GvmspaceCtx) (phys : UInt64) : Option UInt64 :=
  if g.dmapBase = 0 then none else k.copyout mem (g.dmapBase + phys)

/-- `pai_gvm_write_phys`. -/
def paiGvmWritePhys (mem : Mem) (g : GvmspaceCtx) (phys value : UInt64) : Option Mem :=
  if g.dmapBase = 0 then none else k.setlong mem (g.dmapBase + phys) value

/-- `pai_gvm_plausible_entry`. -/
def paiGvmPlausibleEntry (value : UInt64) : Bool :=
  if value = 0 then true
  else if ¬ IsValid value then false
  else if value &&& gpuWalkAddrMask = 0 then false
  else true

/-- `PAI_DMAP_MIN`. -/
abbrev dmapMin : UInt64 := 0xFFFFFF8000000000
/-- `PAI_DMAP_STEP`. -/
abbrev dmapStep : UInt64 := 0x10000000000

/-- The loop of `pai_gvm_find_dmap` over the candidate bases, for `n` rounds. -/
def findDmapFrom (mem : Mem) (pageDirPhys : UInt64) : ℕ → UInt64 → UInt64
  | 0, _ => 0
  | n + 1, base =>
    if base < dmapMin + 0x4000000000 then
      let va := base + pageDirPhys
      if va.toInt64 < (0xFFFF800000000000 : UInt64).toInt64 ∨
          va.toInt64 > (0xFFFFFFFFFF000000 : UInt64).toInt64 then
        findDmapFrom mem pageDirPhys n (base + dmapStep)
      else
        match k.copyout mem va, k.copyout mem (va + 8) with
        | some e0, some e1 =>
          if paiGvmPlausibleEntry e0 ∧ paiGvmPlausibleEntry e1 then base
          else findDmapFrom mem pageDirPhys n (base + dmapStep)
        | _, _ => findDmapFrom mem pageDirPhys n (base + dmapStep)
    else 0

/-- `pai_gvm_find_dmap`: the second round already finds the bound passed. -/
def paiGvmFindDmap (mem : Mem) (pageDirPhys : UInt64) : UInt64 :=
  if pageDirPhys ≥ 0x400000000 then 0 else findDmapFrom k mem pageDirPhys 2 dmapMin

/-- `pai_gvm_walk`: the physical address of the 2 MB entry and its value. -/
def paiGvmWalk (mem : Mem) (g : GvmspaceCtx) (va : UInt64) : Option (UInt64 × UInt64) := do
  let p3 ← upperWalk gpuWalkAddrMask (paiGvmReadPhys k mem g) g.pageDirPhys va
  let e2 ← paiGvmReadPhys k mem g (p3 + idx2 va * 8)
  pure (p3 + idx2 va * 8, e2)

/-- One step of the scan: the entry at `off`, when it describes a range with `gpuVa` in it. -/
def gvmspaceEntryAt (mem : Mem) (gpuVa off : UInt64) : Option (UInt64 × UInt64 × UInt64) := do
  let start ← k.copyout mem (k.dataBase + off + 0x08)
  let size ← k.copyout mem (k.dataBase + off + 0x10)
  if start < 0x100000000 ∨ start ≥ 0x400000000 ∨ size < 0x100000 ∨ size ≥ 0x100000000 ∨
      gpuVa < start ∨ gpuVa ≥ start + size then none
  else
    let pdir ← k.copyout mem (k.dataBase + off + 0x38)
    if pdir < 0x1000 ∨ pdir ≥ 0x400000000 ∨ pdir &&& 0xFFF ≠ 0 then none
    else
      let nStart ← k.copyout mem (k.dataBase + off + 0x100 + 0x08)
      let nSize ← k.copyout mem (k.dataBase + off + 0x100 + 0x10)
      if nStart = 0 ∨ (nStart ≥ 0x100000000 ∧ nStart < 0x400000000 ∧ nSize < 0x100000000) then
        pure (start, size, pdir)
      else none

/-- The scan of kernel data, `n` steps from `off` on. -/
def scanFrom (mem : Mem) (gpuVa : UInt64) : ℕ → UInt64 → GvmspaceCtx → GvmspaceCtx
  | 0, _, g => g
  | n + 1, off, g =>
    match gvmspaceEntryAt k mem gpuVa off with
    | some (start, size, pdir) =>
      { g with entryAddr := k.dataBase + off, startVa := start, size := size, pageDirPhys := pdir }
    | none => scanFrom mem gpuVa n (off + 0x100) g

/-- The part of `pai_gvmspace_fix` under `if (!g.found)`, for `off` from 0 below `0x4000000`. -/
def findGvmspace (mem : Mem) (gpuVa : UInt64) (g : GvmspaceCtx) : GvmspaceCtx :=
  let g := scanFrom k mem gpuVa 262144 0 { g with entryAddr := 0, dmapBase := 0 }
  if g.entryAddr = 0 then g
  else
    let g := { g with dmapBase := paiGvmFindDmap k mem g.pageDirPhys }
    if g.dmapBase = 0 then g else { g with found := true }

/-- The first half of `pai_gvmspace_fix`, up to the range check: the diagnostic of the first call,
and the search until an entry is found. -/
def fixPrepare (gpuVa : UInt64) (s : Gvm) : Gvm :=
  let s := if s.dumped then s else (paiGvmspaceDiag k { s with dumped := true }).2
  if s.ctx.found then s else { s with ctx := findGvmspace k s.mem gpuVa s.ctx }

/-- The second half up to the entry of `gpuVa`: an entry is found, has `gpuVa` in it, and the walk
goes through. -/
def fixFind (s : Gvm) (gpuVa : UInt64) : Option (UInt64 × UInt64) :=
  if s.ctx.found = false then none
  else if gpuVa < s.ctx.startVa ∨ gpuVa ≥ s.ctx.startVa + s.ctx.size then none
  else paiGvmWalk k s.mem s.ctx gpuVa

/-- `pai_gvmspace_fix`; `size` is not used. -/
def paiGvmspaceFix (gpuVa phys _size : UInt64) (s : Gvm) : PaiStatus × Gvm :=
  let s := fixPrepare k gpuVa s
  match fixFind k s gpuVa with
  | none => (paiErrCapability, s)
  | some (pdeAddr, pde) =>
    if mapsFrame gpuPhysMask2mb phys pde then (paiOk, s)
    else
      match paiGvmWritePhys k s.mem s.ctx pdeAddr (patchEntry gpuPhysMask2mb phys pde) with
      | none => (paiErrCapability, s)
      | some mem => (paiOk, { s with mem := mem })

/-! ## The probe -/

/-- `a[i]` for a local array of `n` words: `none` when the index is outside it. -/
def localAt {n : ℕ} (a : Fin n → UInt64) (i : UInt64) : Option UInt64 :=
  if h : i.toNat < n then some (a ⟨i.toNat, h⟩) else none

/-- A loop filling a local array from `a` on, an unreadable word becoming 0. -/
def copyoutArray (mem : Mem) (n : ℕ) (a : UInt64) : Fin n → UInt64 :=
  fun i => (k.copyout mem (a + UInt64.ofNat i * 8)).getD 0

/-- The 4-level reading of the tables, from the entry of the root on.  The first words of the page a
valid entry points at only go to the log. -/
def probeFourLevel (s : Gvm) (va dmapBase e4 : UInt64) : PaiStatus × Gvm :=
  if ¬ IsValid e4 then (paiErrCapability, s)
  else
    match k.copyout s.mem (dmapBase + ((e4 &&& gpuTableMask940) + idx3 va * 8)) with
    | none => (paiErrCapability, s)
    | some e3 =>
      if ¬ IsValid e3 then (paiErrCapability, s)
      else
        match k.copyout s.mem (dmapBase + ((e3 &&& gpuTableMask940) + idx2 va * 8)) with
        | none => (paiErrCapability, s)
        | some e2 => if IsValid e2 then (paiOk, { s with refPde := e2 }) else (paiOk, s)

/-- `pai_gvmspace_probe`: `none` when a computed index leaves its local array. -/
def paiGvmspaceProbe (pml4Phys va dmapBase : UInt64) (s : Gvm) : Option (PaiStatus × Gvm) := do
  let rootE := copyoutArray k s.mem 16 (dmapBase + pml4Phys)
  let e3 ← localAt rootE (idx3 va)
  if IsValid e3 then
    let pdePage := copyoutArray k s.mem 16 (dmapBase + (e3 &&& gpuTableMask940))
    let _e2 ← localAt pdePage (idx2 va)
    pure (paiOk, s)
  else
    let e4 ← localAt rootE (idx4 va)
    pure (probeFourLevel k s va dmapBase e4)

end Prospero
