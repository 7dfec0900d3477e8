import Prospero.Lib.Masks
import Prospero.Platform.Gvmspace

/-!
# What a patch of the page tables changes

`pai_gvmspace_repair` takes the frame of an entry to be bits 45..21, `pai_gvmspace_fix` bits 63..21:
the fix replaces the flags above the frame by what the physical address has there.  A patched entry
maps the frame, so a second call finds nothing to do, unless the entry is one the walk itself went
through.  `pai_gvmspace_probe` reads 16 entries of a table and takes one by a 9-bit index.

## Outline

1. Reading back a patched entry.
2. Walks that avoid the patched entry.
3. What repair and fix do to memory.
4. A second call.
5. The indices of the probe.
6. When all of it holds.
-/

namespace Prospero

open Words

variable {k : KernelRw} {s : Gvm} {mem : Mem} {mask phys entry a va : UInt64}

/-! ## Patched entries -/

/-- What is read of 8 bytes just written. -/
lemma load_store_word (mem : Mem) (a v : UInt64) :
    UInt64.ofNat (load (store mem a.toNat 8 v.toNat) a.toNat 8) = v := by
  rw [load_store mem (by exact v.toNat_lt), UInt64.ofNat_toNat]

/-- A patched entry, as a rewritten word. -/
lemma toBitVec_patchEntry : (patchEntry mask phys entry).toBitVec =
    Masks.rewrite mask.toBitVec gpuValid.toBitVec phys.toBitVec entry.toBitVec := rfl

/-- Mapping a frame, as holding a field. -/
lemma mapsFrame_iff : mapsFrame mask phys entry ↔
    Masks.Holds mask.toBitVec gpuValid.toBitVec phys.toBitVec entry.toBitVec := by
  simp only [mapsFrame, Masks.Holds, ← UInt64.toBitVec_inj, ne_eq, UInt64.toBitVec_and]
  rfl

/-- A patched entry maps the frame it was patched to. -/
lemma mapsFrame_patchEntry (hmask : gpuValid &&& mask = 0) :
    mapsFrame mask phys (patchEntry mask phys entry) := by
  rw [mapsFrame_iff, toBitVec_patchEntry]
  refine Masks.holds_rewrite _ _ ?_ (by decide)
  rw [← UInt64.toBitVec_and, hmask]
  rfl

/-- Patching an entry that does not map the frame changes it. -/
lemma patchEntry_ne (hmask : gpuValid &&& mask = 0) (h : ¬ mapsFrame mask phys entry) :
    patchEntry mask phys entry ≠ entry := by
  intro heq
  exact h (heq ▸ mapsFrame_patchEntry hmask)

/-- The bits a patch changes besides bits 45..21 and the valid bit. -/
lemma xor_patchEntry_and :
    (entry ^^^ patchEntry mask phys entry) &&& ~~~(gpuFrame2mb ||| gpuValid) =
      (entry ^^^ phys) &&& (mask &&& ~~~(gpuFrame2mb ||| gpuValid)) := by
  rw [← UInt64.toBitVec_inj]
  exact Masks.xor_rewrite_and mask.toBitVec gpuFrame2mb.toBitVec gpuValid.toBitVec phys.toBitVec
    entry.toBitVec

/-! ## Reads and walks -/

/-- The two 8-byte words share a byte. -/
def Overlaps (a b : UInt64) : Prop := a.toNat < b.toNat + 8 ∧ b.toNat < a.toNat + 8

instance (a b : UInt64) : Decidable (Overlaps a b) := inferInstanceAs (Decidable (_ ∧ _))

/-- A read apart from a write is unchanged. -/
lemma copyout_store_apart {b v : UInt64} (h : ¬ Overlaps b a) :
    k.copyout (store mem a.toNat 8 v.toNat) b = k.copyout mem b := by
  unfold Overlaps at h
  rw [KernelRw.copyout, KernelRw.copyout, load_store_apart mem v.toNat (by omega)]

/-- A readable word reads as what was written. -/
lemma copyout_store {v e : UInt64} (h : k.copyout mem a = some e) :
    k.copyout (store mem a.toNat 8 v.toNat) a = some v := by
  rw [KernelRw.copyout] at h ⊢
  split at h
  · rename_i hread
    rw [if_pos hread, load_store_word]
  · exact absurd h (by simp)

/-- A word that is read lies inside the address space. -/
lemma inSpace_of_copyout {e : UInt64} (h : k.copyout mem a = some e) : InSpace a := by
  rw [KernelRw.copyout] at h
  split at h
  · rename_i hread
    exact hread.2
  · exact absurd h (by simp)

/-- What a read returns is what memory holds. -/
lemma load_of_copyout {e : UInt64} (h : k.copyout mem a = some e) :
    UInt64.ofNat (load mem a.toNat 8) = e := by
  rw [KernelRw.copyout] at h
  split at h
  · exact Option.some.inj h
  · exact absurd h (by simp)

/-- The physical addresses of the entries a walk reads on its way to the last table. -/
def upperEntries (mask : UInt64) (read : UInt64 → Option UInt64) (root va : UInt64) : List UInt64 :=
  (root + idx4 va * 8) :: ((validEntry read (root + idx4 va * 8)).map fun e4 =>
    (e4 &&& mask) + idx3 va * 8).toList

/-- A walk depends on the entries it reads only. -/
lemma upperWalk_congr {read read' : UInt64 → Option UInt64} {root : UInt64}
    (h : ∀ p ∈ upperEntries mask read root va, read' p = read p) :
    upperWalk mask read' root va = upperWalk mask read root va := by
  have h4 : validEntry read' (root + idx4 va * 8) = validEntry read (root + idx4 va * 8) := by
    rw [validEntry, validEntry, h _ List.mem_cons_self]
  unfold upperWalk
  rw [h4]
  cases he4 : validEntry read (root + idx4 va * 8) with
  | none => rfl
  | some e4 =>
    have hmem : (e4 &&& mask) + idx3 va * 8 ∈ upperEntries mask read root va := by
      rw [upperEntries, he4]
      exact List.mem_cons_of_mem _ List.mem_cons_self
    simp only [Option.bind_eq_bind, Option.bind_some, validEntry, h _ hmem]

/-! ## Effects on memory -/

/-- The state with a word of memory rewritten. -/
def Gvm.write (s : Gvm) (a v : UInt64) : Gvm := { s with mem := store s.mem a.toNat 8 v.toNat }

/-- `mem'` differs from `mem` at most in the entry at `found`, and there in bits 45..21 and the valid
bit only. -/
def FrameOnly (found : Option UInt64) (mem mem' : Mem) : Prop :=
  match found with
  | none => mem' = mem
  | some a => (∀ p, p < a.toNat ∨ a.toNat + 8 ≤ p → mem' p = mem p) ∧
    (UInt64.ofNat (load mem a.toNat 8) ^^^ UInt64.ofNat (load mem' a.toNat 8)) &&&
      ~~~(gpuFrame2mb ||| gpuValid) = 0

/-- Memory left as it is. -/
lemma FrameOnly.refl (found : Option UInt64) (mem : Mem) : FrameOnly found mem mem := by
  cases found with
  | none => rfl
  | some a =>
    refine ⟨fun _ _ => rfl, ?_⟩
    rw [UInt64.xor_self, UInt64.zero_and]

/-- A patched entry differs in its frame only when outside bits 45..21 and the valid bit its own
bits under the mask are those of the physical address. -/
lemma frameOnly_write_iff (h : k.copyout mem a = some entry) :
    FrameOnly (some a) mem (store mem a.toNat 8 (patchEntry mask phys entry).toNat) ↔
      (entry ^^^ phys) &&& (mask &&& ~~~(gpuFrame2mb ||| gpuValid)) = 0 := by
  rw [FrameOnly, load_of_copyout h, load_store_word, xor_patchEntry_and]
  exact and_iff_right fun p hp => store_of_outside mem _ hp

/-- A word that changes is a change of memory. -/
lemma write_ne {v : UInt64} (h : k.copyout s.mem a = some entry) (hv : v ≠ entry) :
    s.write a v ≠ s := by
  intro heq
  apply hv
  calc v = UInt64.ofNat (load (s.write a v).mem a.toNat 8) := (load_store_word s.mem a v).symm
    _ = UInt64.ofNat (load s.mem a.toNat 8) := by rw [heq]
    _ = entry := load_of_copyout h

/-! ## Repair -/

/-- The address and value of the entry `pai_gvmspace_repair` rewrites in mode 2. -/
def repairPatch (k : KernelRw) (gpuVa phys : UInt64) (s : Gvm) : Option (UInt64 × UInt64) :=
  (repairFind k s gpuVa phys).filter fun x =>
    ¬ mapsFrame gpuFrame2mb (cpuPhys phys) x.2 ∧ k.canWrite x.1

/-- The upper entries of the walk to `a` and the entry at `a` share no byte. -/
def repairApart (k : KernelRw) (gpuVa : UInt64) (s : Gvm) (a : UInt64) : Prop :=
  ∀ p ∈ upperEntries gpuTableMask940 (fun p => k.copyout s.mem (s.diagDmap + p)) s.diagPml4Phys gpuVa,
    ¬ Overlaps (s.diagDmap + p) a

/-- What the repair finds: the layout is known, the frame is in range, and the walk ends at a readable
entry of a table in range. -/
lemma repairFind_eq_some_iff : repairFind k s va phys = some (a, entry) ↔
    ¬ (s.haveLayout = false ∨ s.refPde = 0) ∧ ¬ cpuPhys phys ≥ 0x400000000 ∧
      ∃ p3, upperWalk gpuTableMask940 (fun p => k.copyout s.mem (s.diagDmap + p)) s.diagPml4Phys va =
          some p3 ∧ ¬ p3 ≥ 0x400000000 ∧ s.diagDmap + (p3 + idx2 va * 8) = a ∧
        k.copyout s.mem a = some entry := by
  unfold repairFind
  by_cases hlayout : s.haveLayout = false ∨ s.refPde = 0
  · rw [if_pos hlayout]
    exact iff_of_false (by simp) fun h => h.1 hlayout
  rw [if_neg hlayout]
  by_cases hrange : cpuPhys phys ≥ 0x400000000
  · rw [if_pos hrange]
    exact iff_of_false (by simp) fun h => h.2.1 hrange
  rw [if_neg hrange, and_iff_right hlayout, and_iff_right hrange, Option.bind_eq_bind,
    Option.bind_eq_some_iff]
  refine exists_congr fun p3 => and_congr_right fun _ => ?_
  by_cases hp3 : p3 ≥ 0x400000000
  · rw [if_pos hp3]
    exact iff_of_false (by simp) fun h => h.1 hp3
  rw [if_neg hp3, and_iff_right hp3]
  refine Option.bind_eq_some_iff.trans ?_
  constructor
  · rintro ⟨e, he, heq⟩
    obtain ⟨rfl, rfl⟩ := Prod.mk.inj (Option.some.inj heq)
    exact ⟨rfl, he⟩
  · rintro ⟨rfl, he⟩
    exact ⟨entry, he, rfl⟩

/-- The entry the repair finds is read at its address. -/
lemma copyout_of_repairFind (h : repairFind k s va phys = some (a, entry)) :
    k.copyout s.mem a = some entry := by
  obtain ⟨-, -, p3, -, -, -, hread⟩ := repairFind_eq_some_iff.mp h
  exact hread

/-- What is found for a patch: the entry, which does not map the frame and can be written. -/
lemma repairPatch_eq_some_iff : repairPatch k va phys s = some (a, entry) ↔
    repairFind k s va phys = some (a, entry) ∧
      ¬ mapsFrame gpuFrame2mb (cpuPhys phys) entry ∧ k.canWrite a := by
  rw [repairPatch, Option.filter_eq_some_iff, decide_eq_true_iff]

/-- Where the walk finds an entry that maps the frame, nothing is patched. -/
lemma repairPatch_eq_none_of_maps (h : repairFind k s va phys = some (a, entry))
    (hmaps : mapsFrame gpuFrame2mb (cpuPhys phys) entry) : repairPatch k va phys s = none := by
  rw [repairPatch, h, Option.filter_some, if_neg]
  simp [hmaps]

/-- The entry is found again, with its new value, when the walk to it is apart from it. -/
lemma repairFind_write {v : UInt64} (h : repairFind k s va phys = some (a, entry))
    (hapart : repairApart k va s a) : repairFind k (s.write a v) va phys = some (a, v) := by
  obtain ⟨hlayout, hrange, p3, hwalk, hp3, haddr, hread⟩ := repairFind_eq_some_iff.mp h
  refine repairFind_eq_some_iff.mpr ⟨hlayout, hrange, p3, ?_, hp3, haddr, copyout_store hread⟩
  rw [← hwalk]
  exact upperWalk_congr fun p hp => copyout_store_apart (hapart p hp)

/-- A word that was read is written and read back, where the kernel writes at all. -/
lemma writeVerified_of_copyout {v : UInt64} (hread : k.copyout s.mem a = some entry)
    (hwrite : k.canWrite a) : writeVerified k s a v = (paiOk, s.write a v) := by
  rw [writeVerified, KernelRw.setlong, if_pos ⟨hwrite, inSpace_of_copyout hread⟩]
  simp only
  rw [if_pos (copyout_store hread)]
  rfl

/-- A patch is written and verified. -/
lemma repair_of_patch (hmode : s.repairMode = 2) (h : repairPatch k va phys s = some (a, entry)) :
    paiGvmspaceRepair k va phys s =
      (paiOk, s.write a (patchEntry gpuFrame2mb (cpuPhys phys) entry)) := by
  obtain ⟨hfind, hmaps, hwrite⟩ := repairPatch_eq_some_iff.mp h
  unfold paiGvmspaceRepair
  rw [hfind]
  simp only
  rw [if_neg (by omega), if_neg (by omega), if_neg hmaps,
    writeVerified_of_copyout (copyout_of_repairFind hfind) hwrite]

/-- Without a patch nothing is written in mode 2. -/
lemma repair_of_no_patch (hmode : s.repairMode = 2) (h : repairPatch k va phys s = none) :
    (paiGvmspaceRepair k va phys s).2 = s := by
  unfold paiGvmspaceRepair
  cases hfind : repairFind k s va phys with
  | none => rfl
  | some x =>
    obtain ⟨a, e⟩ := x
    simp only [hmode]
    by_cases hmaps : mapsFrame gpuFrame2mb (cpuPhys phys) e
    · simp [hmaps]
    · have hwrite : k.canWrite a = false := by
        by_contra hne
        have hsome := repairPatch_eq_some_iff.mpr ⟨hfind, hmaps, by simpa using hne⟩
        rw [h] at hsome
        exact absurd hsome (by simp)
      simp [hmaps, writeVerified, KernelRw.setlong, hwrite]

/-- The repair changes the frame and the valid bit of the entry it finds, and nothing else. -/
lemma repair_frameOnly (hmode : s.repairMode = 2) :
    FrameOnly ((repairFind k s va phys).map Prod.fst) s.mem (paiGvmspaceRepair k va phys s).2.mem := by
  cases h : repairPatch k va phys s with
  | none =>
    rw [repair_of_no_patch hmode h]
    exact FrameOnly.refl _ _
  | some x =>
    obtain ⟨a, e⟩ := x
    have hfind := (repairPatch_eq_some_iff.mp h).1
    rw [repair_of_patch hmode h, hfind]
    refine (frameOnly_write_iff (copyout_of_repairFind hfind)).mpr ?_
    have hmask : gpuFrame2mb &&& ~~~(gpuFrame2mb ||| gpuValid) = 0 := by decide
    rw [hmask, UInt64.and_zero]

/-- After a patch apart from the walk to it there is nothing left to patch. -/
lemma repairPatch_write_of_apart (h : repairPatch k va phys s = some (a, entry))
    (hapart : repairApart k va s a) :
    repairPatch k va phys (s.write a (patchEntry gpuFrame2mb (cpuPhys phys) entry)) = none :=
  repairPatch_eq_none_of_maps (repairFind_write (repairPatch_eq_some_iff.mp h).1 hapart)
    (mapsFrame_patchEntry (by decide))

/-- In mode 2 a repair leaves the state alone exactly when there is nothing to patch. -/
lemma repair_eq_self_iff (hmode : s.repairMode = 2) :
    (paiGvmspaceRepair k va phys s).2 = s ↔ repairPatch k va phys s = none := by
  refine ⟨fun heq => ?_, repair_of_no_patch hmode⟩
  cases h : repairPatch k va phys s with
  | none => rfl
  | some x =>
    obtain ⟨a, e⟩ := x
    obtain ⟨hfind, hmaps, -⟩ := repairPatch_eq_some_iff.mp h
    rw [repair_of_patch hmode h] at heq
    exact absurd heq (write_ne (copyout_of_repairFind hfind) (patchEntry_ne (by decide) hmaps))

/-- A second repair changes nothing exactly when a patch leaves nothing to patch; where the patched
entry is apart from the walk to it, it always does. -/
lemma repair_settles_iff (hmode : s.repairMode = 2) :
    ((paiGvmspaceRepair k va phys s).1 = paiOk →
        (paiGvmspaceRepair k va phys (paiGvmspaceRepair k va phys s).2).2 =
          (paiGvmspaceRepair k va phys s).2) ↔
      ∀ a entry, repairPatch k va phys s = some (a, entry) → ¬ repairApart k va s a →
        repairPatch k va phys (s.write a (patchEntry gpuFrame2mb (cpuPhys phys) entry)) = none := by
  constructor
  · intro hsettles a entry h _
    have hagain := hsettles (by rw [repair_of_patch hmode h])
    rw [repair_of_patch hmode h] at hagain
    exact (repair_eq_self_iff (s := s.write a _) hmode).mp hagain
  · intro hcond _
    cases h : repairPatch k va phys s with
    | none => rw [repair_of_no_patch hmode h, repair_of_no_patch hmode h]
    | some x =>
      obtain ⟨a, e⟩ := x
      rw [repair_of_patch hmode h]
      refine (repair_eq_self_iff (s := s.write a _) hmode).mpr ?_
      by_cases hapart : repairApart k va s a
      · exact repairPatch_write_of_apart h hapart
      · exact hcond a e h hapart

/-! ## Fix -/

/-- The physical address and value of the entry `pai_gvmspace_fix` rewrites, once its search is
over. -/
def fixPatch (k : KernelRw) (gpuVa phys : UInt64) (s : Gvm) : Option (UInt64 × UInt64) :=
  (fixFind k s gpuVa).filter fun x =>
    ¬ mapsFrame gpuPhysMask2mb phys x.2 ∧ k.canWrite (s.ctx.dmapBase + x.1)

/-- The upper entries of the walk to `a` and the entry at `a` share no byte. -/
def fixApart (k : KernelRw) (gpuVa : UInt64) (s : Gvm) (a : UInt64) : Prop :=
  ∀ p ∈ upperEntries gpuWalkAddrMask (paiGvmReadPhys k s.mem s.ctx) s.ctx.pageDirPhys gpuVa,
    ¬ Overlaps (s.ctx.dmapBase + p) (s.ctx.dmapBase + a)

/-- The diagnostic only derives the layout. -/
lemma diag_keeps (k : KernelRw) (s : Gvm) :
    (paiGvmspaceDiag k s).2.mem = s.mem ∧ (paiGvmspaceDiag k s).2.dumped = s.dumped := by
  unfold paiGvmspaceDiag
  dsimp only
  split_ifs <;> exact ⟨rfl, rfl⟩

/-- The search changes no memory. -/
lemma fixPrepare_mem : (fixPrepare k va s).mem = s.mem := by
  unfold fixPrepare
  dsimp only
  split_ifs with hdumped hfound hfound
  · rfl
  · rfl
  · exact (diag_keeps k _).1
  · exact (diag_keeps k _).1

/-- After the search the diagnostic has run. -/
lemma fixPrepare_dumped : (fixPrepare k va s).dumped = true := by
  unfold fixPrepare
  dsimp only
  split_ifs with hdumped hfound hfound
  · exact hdumped
  · exact hdumped
  · exact (diag_keeps k _).2
  · exact (diag_keeps k _).2

/-- Once the diagnostic has run and an entry is found, the search does nothing. -/
lemma fixPrepare_of_found (hdumped : s.dumped = true) (hfound : s.ctx.found = true) :
    fixPrepare k va s = s := by
  unfold fixPrepare
  rw [if_pos hdumped]
  exact if_pos hfound

/-- What the fix finds: the search found an address space with the address in it, and the walk ends
at a readable entry. -/
lemma fixFind_eq_some_iff : fixFind k s va = some (a, entry) ↔
    s.ctx.found = true ∧ ¬ (va < s.ctx.startVa ∨ va ≥ s.ctx.startVa + s.ctx.size) ∧
      ∃ p3, upperWalk gpuWalkAddrMask (paiGvmReadPhys k s.mem s.ctx) s.ctx.pageDirPhys va =
          some p3 ∧ p3 + idx2 va * 8 = a ∧ paiGvmReadPhys k s.mem s.ctx a = some entry := by
  unfold fixFind
  by_cases hfound : s.ctx.found = false
  · rw [if_pos hfound]
    exact iff_of_false (by simp) fun h => by simp [hfound] at h
  rw [if_neg hfound, and_iff_right (Bool.eq_true_of_not_eq_false hfound)]
  by_cases hrange : va < s.ctx.startVa ∨ va ≥ s.ctx.startVa + s.ctx.size
  · rw [if_pos hrange]
    exact iff_of_false (by simp) fun h => h.1 hrange
  rw [if_neg hrange, and_iff_right hrange, paiGvmWalk]
  refine Option.bind_eq_some_iff.trans (exists_congr fun p3 => and_congr_right fun _ => ?_)
  refine Option.bind_eq_some_iff.trans ?_
  constructor
  · rintro ⟨e, he, heq⟩
    obtain ⟨rfl, rfl⟩ := Prod.mk.inj (Option.some.inj heq)
    exact ⟨rfl, he⟩
  · rintro ⟨rfl, he⟩
    exact ⟨entry, he, rfl⟩

/-- A physical read goes through the direct map. -/
lemma readPhys_eq_some_iff {g : GvmspaceCtx} {p e : UInt64} :
    paiGvmReadPhys k mem g p = some e ↔ g.dmapBase ≠ 0 ∧ k.copyout mem (g.dmapBase + p) = some e := by
  rw [paiGvmReadPhys]
  by_cases hzero : g.dmapBase = 0
  · rw [if_pos hzero]
    exact iff_of_false (by simp) fun h => h.1 hzero
  · rw [if_neg hzero, and_iff_right hzero]

/-- The entry the fix finds is read through the direct map. -/
lemma readPhys_of_fixFind (h : fixFind k s va = some (a, entry)) :
    s.ctx.dmapBase ≠ 0 ∧ k.copyout s.mem (s.ctx.dmapBase + a) = some entry := by
  obtain ⟨-, -, p3, -, -, hread⟩ := fixFind_eq_some_iff.mp h
  exact readPhys_eq_some_iff.mp hread

/-- What is found for a patch: the entry, which does not map the frame and can be written. -/
lemma fixPatch_eq_some_iff : fixPatch k va phys s = some (a, entry) ↔
    fixFind k s va = some (a, entry) ∧
      ¬ mapsFrame gpuPhysMask2mb phys entry ∧ k.canWrite (s.ctx.dmapBase + a) := by
  rw [fixPatch, Option.filter_eq_some_iff, decide_eq_true_iff]

/-- The entry is found again, with its new value, when the walk to it is apart from it. -/
lemma fixFind_write {v : UInt64} (h : fixFind k s va = some (a, entry))
    (hapart : fixApart k va s a) :
    fixFind k (s.write (s.ctx.dmapBase + a) v) va = some (a, v) := by
  obtain ⟨hfound, hrange, p3, hwalk, haddr, hread⟩ := fixFind_eq_some_iff.mp h
  obtain ⟨hdmap, hcopy⟩ := readPhys_eq_some_iff.mp hread
  refine fixFind_eq_some_iff.mpr ⟨hfound, hrange, p3, ?_, haddr,
    readPhys_eq_some_iff.mpr ⟨hdmap, copyout_store hcopy⟩⟩
  rw [← hwalk]
  refine upperWalk_congr fun p hp => ?_
  simp only [Gvm.write, paiGvmReadPhys, copyout_store_apart (hapart p hp)]

/-- A patch is written through the direct map. -/
lemma fix_of_patch {size : UInt64}
    (h : fixPatch k va phys (fixPrepare k va s) = some (a, entry)) :
    paiGvmspaceFix k va phys size s =
      (paiOk, (fixPrepare k va s).write ((fixPrepare k va s).ctx.dmapBase + a)
        (patchEntry gpuPhysMask2mb phys entry)) := by
  obtain ⟨hfind, hmaps, hwrite⟩ := fixPatch_eq_some_iff.mp h
  obtain ⟨hdmap, hread⟩ := readPhys_of_fixFind hfind
  unfold paiGvmspaceFix
  simp only [hfind]
  rw [if_neg hmaps, paiGvmWritePhys, if_neg hdmap, KernelRw.setlong,
    if_pos ⟨hwrite, inSpace_of_copyout hread⟩]
  rfl

/-- Without a patch nothing is written. -/
lemma fix_of_no_patch {size : UInt64} (h : fixPatch k va phys (fixPrepare k va s) = none) :
    (paiGvmspaceFix k va phys size s).2 = fixPrepare k va s := by
  unfold paiGvmspaceFix
  simp only
  cases hfind : fixFind k (fixPrepare k va s) va with
  | none => rfl
  | some x =>
    obtain ⟨a, e⟩ := x
    simp only
    by_cases hmaps : mapsFrame gpuPhysMask2mb phys e
    · rw [if_pos hmaps]
    · have hwrite : k.canWrite ((fixPrepare k va s).ctx.dmapBase + a) = false := by
        by_contra hne
        have hsome := fixPatch_eq_some_iff.mpr ⟨hfind, hmaps, by simpa using hne⟩
        rw [h] at hsome
        exact absurd hsome (by simp)
      have hdmap := (readPhys_of_fixFind hfind).1
      rw [if_neg hmaps, paiGvmWritePhys, if_neg hdmap, KernelRw.setlong, if_neg (by simp [hwrite])]

/-- Success means that the search found an address space. -/
lemma found_of_fix {size : UInt64} (h : (paiGvmspaceFix k va phys size s).1 = paiOk) :
    (fixPrepare k va s).ctx.found = true := by
  unfold paiGvmspaceFix at h
  simp only at h
  cases hfind : fixFind k (fixPrepare k va s) va with
  | none =>
    rw [hfind] at h
    have hstatus : paiErrCapability = paiOk := h
    exact absurd hstatus (by decide)
  | some x => exact (fixFind_eq_some_iff.mp hfind).1

/-- The fix changes the frame and the valid bit of the entry it finds, and nothing else, exactly when
an entry it patches has the bits 63..46 of the physical address. -/
lemma fix_frameOnly_iff {size : UInt64} :
    FrameOnly ((fixFind k (fixPrepare k va s) va).map fun x =>
        (fixPrepare k va s).ctx.dmapBase + x.1) s.mem (paiGvmspaceFix k va phys size s).2.mem ↔
      ∀ a entry, fixPatch k va phys (fixPrepare k va s) = some (a, entry) →
        (entry ^^^ phys) &&& 0xFFFFC00000000000 = 0 := by
  cases h : fixPatch k va phys (fixPrepare k va s) with
  | none =>
    rw [fix_of_no_patch h, fixPrepare_mem]
    exact iff_of_true (FrameOnly.refl _ _) (by simp)
  | some x =>
    obtain ⟨a, e⟩ := x
    have hfind := (fixPatch_eq_some_iff.mp h).1
    rw [fix_of_patch h, hfind]
    have hread := (readPhys_of_fixFind hfind).2
    have hmask : gpuPhysMask2mb &&& ~~~(gpuFrame2mb ||| gpuValid) = 0xFFFFC00000000000 := by decide
    have hmem : (fixPrepare k va s).mem = s.mem := fixPrepare_mem
    rw [Option.map_some, ← hmem]
    refine (frameOnly_write_iff hread).trans ?_
    rw [hmask]
    constructor
    · rintro hbits a' e' heq
      obtain ⟨rfl, rfl⟩ := Prod.mk.inj (Option.some.inj heq)
      exact hbits
    · exact fun hcond => hcond a e rfl

/-- After a patch apart from the walk to it there is nothing left to patch. -/
lemma fixPatch_write_of_apart (h : fixPatch k va phys s = some (a, entry))
    (hapart : fixApart k va s a) :
    fixPatch k va phys
      (s.write (s.ctx.dmapBase + a) (patchEntry gpuPhysMask2mb phys entry)) = none := by
  rw [fixPatch, fixFind_write (fixPatch_eq_some_iff.mp h).1 hapart, Option.filter_some, if_neg]
  have hmaps : mapsFrame gpuPhysMask2mb phys (patchEntry gpuPhysMask2mb phys entry) :=
    mapsFrame_patchEntry (by decide)
  simp [hmaps]

/-- Once the search is over, a fix leaves the state alone exactly when there is nothing to patch. -/
lemma fix_eq_self_iff {size : UInt64} (hprep : fixPrepare k va s = s) :
    (paiGvmspaceFix k va phys size s).2 = s ↔ fixPatch k va phys s = none := by
  constructor
  · intro heq
    cases h : fixPatch k va phys s with
    | none => rfl
    | some x =>
      obtain ⟨a, e⟩ := x
      obtain ⟨hfind, hmaps, -⟩ := fixPatch_eq_some_iff.mp h
      rw [fix_of_patch (by rw [hprep]; exact h), hprep] at heq
      exact absurd heq (write_ne (readPhys_of_fixFind hfind).2 (patchEntry_ne (by decide) hmaps))
  · intro h
    rw [fix_of_no_patch (by rw [hprep]; exact h), hprep]

/-- A second fix changes nothing exactly when a patch leaves nothing to patch; where the patched
entry is apart from the walk to it, it always does. -/
lemma fix_settles_iff {size : UInt64} :
    ((paiGvmspaceFix k va phys size s).1 = paiOk →
        (paiGvmspaceFix k va phys size (paiGvmspaceFix k va phys size s).2).2 =
          (paiGvmspaceFix k va phys size s).2) ↔
      ∀ a entry, fixPatch k va phys (fixPrepare k va s) = some (a, entry) →
        ¬ fixApart k va (fixPrepare k va s) a →
        fixPatch k va phys ((fixPrepare k va s).write ((fixPrepare k va s).ctx.dmapBase + a)
          (patchEntry gpuPhysMask2mb phys entry)) = none := by
  have hprep : ∀ a v : UInt64, (fixPrepare k va s).ctx.found = true →
      fixPrepare k va ((fixPrepare k va s).write a v) = (fixPrepare k va s).write a v :=
    fun _ _ hfound => fixPrepare_of_found fixPrepare_dumped hfound
  constructor
  · intro hsettles a entry h _
    have hfound := (fixFind_eq_some_iff.mp (fixPatch_eq_some_iff.mp h).1).1
    have hagain := hsettles (by rw [fix_of_patch h])
    rw [fix_of_patch h] at hagain
    exact (fix_eq_self_iff (hprep _ _ hfound)).mp hagain
  · intro hcond hok
    have hfound := found_of_fix hok
    cases h : fixPatch k va phys (fixPrepare k va s) with
    | none =>
      rw [fix_of_no_patch h]
      exact (fix_eq_self_iff (fixPrepare_of_found fixPrepare_dumped hfound)).mpr h
    | some x =>
      obtain ⟨a, e⟩ := x
      rw [fix_of_patch h]
      refine (fix_eq_self_iff (hprep _ _ hfound)).mpr ?_
      by_cases hapart : fixApart k va (fixPrepare k va s) a
      · exact fixPatch_write_of_apart h hapart
      · exact hcond a e h hapart

/-! ## Probe -/

/-- The entry of the root the probe takes first, read as the third level. -/
def probeRootEntry (k : KernelRw) (s : Gvm) (pml4Phys va dmapBase : UInt64) : UInt64 :=
  (k.copyout s.mem (dmapBase + pml4Phys + idx3 va * 8)).getD 0

/-- The probe stays inside its arrays exactly when the indices it uses are below 16: that of the
third level, and that of the second or the fourth by whether the entry found is valid. -/
lemma probe_inside_iff {pml4Phys dmapBase : UInt64} :
    (paiGvmspaceProbe k pml4Phys va dmapBase s).isSome ↔
      idx3 va < 16 ∧ (IsValid (probeRootEntry k s pml4Phys va dmapBase) → idx2 va < 16) ∧
        (¬ IsValid (probeRootEntry k s pml4Phys va dmapBase) → idx4 va < 16) := by
  unfold paiGvmspaceProbe
  simp only [localAt, Option.bind_eq_bind]
  by_cases h3 : (idx3 va).toNat < 16
  · have hroot : copyoutArray k s.mem 16 (dmapBase + pml4Phys) ⟨(idx3 va).toNat, h3⟩ =
        probeRootEntry k s pml4Phys va dmapBase := by
      rw [copyoutArray, probeRootEntry, UInt64.ofNat_toNat]
    have h3' : idx3 va < 16 := UInt64.lt_iff_toNat_lt.mpr h3
    rw [dif_pos h3, Option.bind_some, hroot, and_iff_right h3']
    by_cases hvalid : IsValid (probeRootEntry k s pml4Phys va dmapBase)
    · rw [if_pos hvalid]
      by_cases h2 : (idx2 va).toNat < 16
      · simp [h2, hvalid, UInt64.lt_iff_toNat_lt]
      · simp [h2, hvalid, UInt64.lt_iff_toNat_lt]
    · rw [if_neg hvalid]
      by_cases h4 : (idx4 va).toNat < 16
      · simp [h4, hvalid, UInt64.lt_iff_toNat_lt]
      · simp [h4, hvalid, UInt64.lt_iff_toNat_lt]
  · rw [dif_neg h3]
    exact iff_of_false (by simp) fun h => h3 (UInt64.lt_iff_toNat_lt.mp h.1)

/-! ## When all of it holds -/

/-- A patch for `gpuVa` changes at most the entry its walk finds, and there bits 45..21 and the valid
bit only; after success a second identical call changes nothing; and the probe indexes its local
arrays inside their bounds. -/
structure PatchesFrameOnly (k : KernelRw) (s : Gvm) (gpuVa phys size pml4Phys dmapBase : UInt64) :
    Prop where
  repair_frame : s.repairMode = 2 → FrameOnly ((repairFind k s gpuVa phys).map Prod.fst) s.mem
    (paiGvmspaceRepair k gpuVa phys s).2.mem
  repair_again : s.repairMode = 2 → (paiGvmspaceRepair k gpuVa phys s).1 = paiOk →
    (paiGvmspaceRepair k gpuVa phys (paiGvmspaceRepair k gpuVa phys s).2).2 =
      (paiGvmspaceRepair k gpuVa phys s).2
  fix_frame : FrameOnly ((fixFind k (fixPrepare k gpuVa s) gpuVa).map fun x =>
    (fixPrepare k gpuVa s).ctx.dmapBase + x.1) s.mem (paiGvmspaceFix k gpuVa phys size s).2.mem
  fix_again : (paiGvmspaceFix k gpuVa phys size s).1 = paiOk →
    (paiGvmspaceFix k gpuVa phys size (paiGvmspaceFix k gpuVa phys size s).2).2 =
      (paiGvmspaceFix k gpuVa phys size s).2
  probe_inside : (paiGvmspaceProbe k pml4Phys gpuVa dmapBase s).isSome

/-- An entry the fix would patch agrees with the physical address in bits 63..46; an entry either
would patch, if the walk to it goes through it, leaves nothing to patch once rewritten; and the
indices the probe takes from `gpuVa` are below 16. -/
structure TablesInOrder (k : KernelRw) (s : Gvm) (gpuVa phys pml4Phys dmapBase : UInt64) : Prop where
  repair_selfMapped : s.repairMode = 2 → ∀ a entry, repairPatch k gpuVa phys s = some (a, entry) →
    ¬ repairApart k gpuVa s a →
      repairPatch k gpuVa phys (s.write a (patchEntry gpuFrame2mb (cpuPhys phys) entry)) = none
  fix_flags : ∀ a entry, fixPatch k gpuVa phys (fixPrepare k gpuVa s) = some (a, entry) →
    (entry ^^^ phys) &&& 0xFFFFC00000000000 = 0
  fix_selfMapped : ∀ a entry, fixPatch k gpuVa phys (fixPrepare k gpuVa s) = some (a, entry) →
    ¬ fixApart k gpuVa (fixPrepare k gpuVa s) a →
      fixPatch k gpuVa phys ((fixPrepare k gpuVa s).write ((fixPrepare k gpuVa s).ctx.dmapBase + a)
        (patchEntry gpuPhysMask2mb phys entry)) = none
  probe_index : idx3 gpuVa < 16 ∧
    (IsValid (probeRootEntry k s pml4Phys gpuVa dmapBase) → idx2 gpuVa < 16) ∧
    (¬ IsValid (probeRootEntry k s pml4Phys gpuVa dmapBase) → idx4 gpuVa < 16)

/-- A kernel that reads and writes everywhere and whose `proc` cannot be resolved. -/
def openKernel : KernelRw where
  canRead := fun _ => true
  canWrite := fun _ => true
  getlong := fun _ _ => 0
  proc := 0
  offsetVmspace := 0x200
  dataBase := 0xFFFFFFFF80000000

/-- Kernel memory with one address space, `[0x100000000, 0x104000000)`, at the start of kernel data,
and its tables in the direct map.  The entry of `0x102000000` has the flags `0xF0…067`. -/
def flaggedTables : Gvm where
  mem := [((0xFFFFFFFF80000008 : UInt64), (0x100000000 : UInt64)), (0xFFFFFFFF80000010, 0x4000000),
    (0xFFFFFFFF80000038, 0x1000), (0xFFFFFF8000001000, 0x2001), (0xFFFFFF8000002020, 0x3001),
    (0xFFFFFF8000003080, 0x00F0000022400067)].foldl
      (fun mem x => store mem x.1.toNat 8 x.2.toNat) fun _ => 0
  diagPml4Phys := 0
  diagDmap := 0
  haveLayout := false
  refPde := 0
  repairMode := 0
  ctx := ⟨false, 0, 0, 0, 0, 0⟩
  dumped := false

end Prospero
