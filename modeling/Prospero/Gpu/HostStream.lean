import Prospero.Gpu.HostRef
import Prospero.Gpu.Pm4Stream
import Prospero.Lib.Machine

/-!
# Reading the packets of the builder

The packets that the builder writes, laid out in memory, are read by the interpreter as the actions of their
calls (`Pm4Call.Writes.fetchAction_eq`), behind a header that gives opcode and size (`hostFetch_packet`).

Two packets of the builder have no case in the interpreter, `ACQUIRE_MEM` and `WAIT_REG_MEM`, and a NOP of
more than 16385 dwords is not the packet its size field says (`Pm4Call.Supported`).
-/

namespace Prospero

open ByteString Footprint

/-! ## Dwords in memory -/

/-- The bytes of some dwords. -/
def dwordBytes (words : List UInt32) : List UInt8 := words.flatMap fun w => leBytes 4 w.toNat

/-- The dword at an address. -/
def HostMemory.dword (mem : HostMemory) (addr : ℕ) : UInt32 :=
  UInt32.ofNat (leNat (mem.bytes addr 4))

/-- The dwords stand at an address. -/
def HostMemory.Holds (mem : HostMemory) (addr : ℕ) (words : List UInt32) : Prop :=
  mem.bytes addr (4 * words.length) = dwordBytes words

section Memory

variable {mem : HostMemory} {addr : ℕ} {words : List UInt32}

@[simp] lemma HostMemory.length_bytes (len : ℕ) : (mem.bytes addr len).length = len := by
  simp [HostMemory.bytes]

lemma length_dwordBytes (words : List UInt32) : (dwordBytes words).length = 4 * words.length := by
  induction words with
  | nil => rfl
  | cons w words ih =>
    rw [dwordBytes, List.flatMap_cons, List.length_append, length_leBytes]
    change 4 + (dwordBytes words).length = _
    rw [ih, List.length_cons]
    omega

/-- Bytes one behind the other. -/
lemma HostMemory.bytes_add (m n : ℕ) :
    mem.bytes addr (m + n) = mem.bytes addr m ++ mem.bytes (addr + m) n := by
  unfold HostMemory.bytes
  rw [List.range_add, List.map_append, List.map_map]
  congr 1
  exact List.map_congr_left fun i _ => by simp [Nat.add_assoc]

lemma HostMemory.holds_cons {w : UInt32} :
    mem.Holds addr (w :: words) ↔ mem.bytes addr 4 = leBytes 4 w.toNat ∧ mem.Holds (addr + 4) words := by
  have hlen : 4 * (w :: words).length = 4 + 4 * words.length := by
    rw [List.length_cons]
    omega
  unfold HostMemory.Holds
  rw [hlen, HostMemory.bytes_add, dwordBytes, List.flatMap_cons]
  refine ⟨fun h => List.append_inj h (by simp), fun h => ?_⟩
  rw [h.1, h.2]
  rfl

lemma HostMemory.holds_append {words' : List UInt32} :
    mem.Holds addr (words ++ words') ↔
      mem.Holds addr words ∧ mem.Holds (addr + 4 * words.length) words' := by
  induction words generalizing addr with
  | nil =>
    have hnil : mem.Holds addr [] := rfl
    simp [hnil]
  | cons w words ih =>
    rw [List.cons_append, HostMemory.holds_cons, HostMemory.holds_cons, ih, and_assoc,
      List.length_cons]
    have haddr : addr + 4 + 4 * words.length = addr + 4 * (words.length + 1) := by omega
    rw [haddr]

/-- Four bytes read back as the dword they are. -/
lemma ofNat_leNat_leBytes (w : UInt32) : UInt32.ofNat (leNat (leBytes 4 w.toNat)) = w := by
  rw [leNat_leBytes_of_lt w.toNat_lt, UInt32.ofNat_toNat]

/-- The dwords from the `j`-th on. -/
lemma HostMemory.Holds.drop (h : mem.Holds addr words) (j : ℕ) (hj : j ≤ words.length) :
    mem.Holds (addr + 4 * j) (words.drop j) := by
  induction j generalizing addr words with
  | zero => exact h
  | succ j ih =>
    cases words with
    | nil => exact absurd hj (by simp)
    | cons w words =>
      have hrest := ih (HostMemory.holds_cons.mp h).2 (Nat.le_of_succ_le_succ hj)
      rw [List.drop_succ_cons]
      rwa [show addr + 4 * (j + 1) = addr + 4 + 4 * j by omega]

/-- A dword of the stream. -/
lemma HostMemory.Holds.dword (h : mem.Holds addr words) {j : ℕ} (hj : j < words.length) :
    mem.dword (addr + 4 * j) = words.getD j 0 := by
  have hdrop := h.drop j hj.le
  rw [List.drop_eq_getElem_cons hj] at hdrop
  unfold HostMemory.dword
  rw [(HostMemory.holds_cons.mp hdrop).1, ofNat_leNat_leBytes, List.getD_eq_getElem _ _ hj]

/-- The bytes of dwords, read as dwords. -/
lemma dwordsOf_dwordBytes (words : List UInt32) :
    dwordsOf (dwordBytes words) words.length = words := by
  induction words with
  | nil => rfl
  | cons w words ih =>
    have hbytes : dwordBytes (w :: words) = leBytes 4 w.toNat ++ dwordBytes words := rfl
    unfold dwordsOf at ih ⊢
    rw [List.length_cons, List.range_succ_eq_map, List.map_cons, List.map_map, hbytes]
    refine congrArg₂ List.cons ?_ ?_
    · rw [Nat.mul_zero, List.drop_zero, List.take_left' (length_leBytes 4 _), ofNat_leNat_leBytes]
    · refine Eq.trans (List.map_congr_left fun j _ => ?_) ih
      have hdrop : (leBytes 4 w.toNat ++ dwordBytes words).drop (4 * (j + 1)) =
          (dwordBytes words).drop (4 * j) := by
        rw [show 4 * (j + 1) = 4 + 4 * j by omega, ← List.drop_drop,
          List.drop_left' (length_leBytes 4 _)]
      simp only [Function.comp, Nat.succ_eq_add_one, hdrop]

end Memory

/-! ## Reading -/

/-- The dword `i` of the stream of an activation. -/
def HostRef.word (ref : HostRef) (f : HostFrame) (i : UInt32) : UInt32 :=
  ref.mem.dword (f.pm4.toNat + 4 * i.toNat)

section Fetching

variable {α : Type} {ref : HostRef} {f : HostFrame}

lemma HostRef.stream_bytes (addr len : ℕ) :
    Memory.bytes (ref.stream f) () addr len = ref.mem.bytes (f.pm4.toNat + addr) len := by
  unfold Memory.bytes HostMemory.bytes HostRef.stream
  exact List.map_congr_left fun i _ => by rw [Nat.add_assoc]

/-- Reading a dword and going on. -/
lemma run_pm4At (i : UInt32) (next : UInt32 → Fetch α) :
    ((pm4At i >>= next).run (ref.stream f)).1 = ((next (ref.word f i)).run (ref.stream f)).1 := by
  change ((next (UInt32.ofNat (leNat (Memory.bytes (ref.stream f) () (4 * i.toNat) 4)))).run _).1 = _
  rw [HostRef.stream_bytes]
  rfl

/-- Copying from the stream and going on. -/
lemma run_pm4From (i : UInt32) (len : ℕ) (next : List UInt8 → Fetch α) :
    ((pm4From i len >>= next).run (ref.stream f)).1 =
      ((next (ref.mem.bytes (f.pm4.toNat + 4 * i.toNat) len)).run (ref.stream f)).1 := by
  change ((next (Memory.bytes (ref.stream f) () (4 * i.toNat) len)).run _).1 = _
  rw [HostRef.stream_bytes]

lemma run_pure (a : α) : ((pure a : Fetch α).run (ref.stream f)).1 = .ok a := rfl

end Fetching

/-- The activation stands in front of a packet in memory, and the stream has room for it. -/
structure OnPacket (ref : HostRef) (f : HostFrame) (packet : List UInt32) : Prop where
  /-- The packet is in memory. -/
  holds : ref.mem.Holds (f.pm4.toNat + 4 * f.i.toNat) packet
  /-- It ends in the stream. -/
  fits : f.i.toNat + packet.length ≤ f.dwords.toNat

lemma OnPacket.toNat_add {ref : HostRef} {f : HostFrame} {packet : List UInt32}
    (h : OnPacket ref f packet) {j : UInt32} (hj : j.toNat ≤ packet.length) :
    (f.i + j).toNat = f.i.toNat + j.toNat := by
  have hfits := h.fits
  have hlt := f.dwords.toNat_lt
  rw [UInt32.toNat_add, Nat.mod_eq_of_lt (by omega)]

/-- The dwords of the packet. -/
lemma OnPacket.word {ref : HostRef} {f : HostFrame} {packet : List UInt32}
    (h : OnPacket ref f packet) (j : UInt32) (hj : j.toNat < packet.length) :
    ref.word f (f.i + j) = packet.getD j.toNat 0 := by
  rw [HostRef.word, h.toNat_add hj.le, Nat.mul_add, ← Nat.add_assoc, h.holds.dword hj]

/-- The dwords of a packet of a known length. -/
lemma OnPacket.word_of_length {ref : HostRef} {f : HostFrame} {packet : List UInt32}
    (h : OnPacket ref f packet) {n : ℕ} (hlen : packet.length = n) (j : UInt32) (hj : j.toNat < n) :
    ref.word f (f.i + j) = packet.getD j.toNat 0 := h.word j (hlen ▸ hj)

/-- The two halves of an address make it up. -/
lemma addrOf_eq {lo hi : UInt32} {addr : UInt64} (hlo : lo.toNat = addr.toNat % 4294967296)
    (hhi : hi.toNat = addr.toNat / 4294967296) : addrOf lo hi = addr := by
  have hhigh : (hi.toUInt64 <<< (32 : UInt64)).toNat = hi.toNat <<< 32 := by
    rw [UInt64.toNat_shiftLeft, UInt32.toNat_toUInt64]
    change hi.toNat <<< 32 % 18446744073709551616 = hi.toNat <<< 32
    have hlt := hi.toNat_lt
    rw [Nat.shiftLeft_eq]
    omega
  rw [← UInt64.toNat_inj, addrOf, UInt64.toNat_or, hhigh, UInt32.toNat_toUInt64, Nat.lor_comm,
    ← Nat.shiftLeft_add_eq_or_of_lt lo.toNat_lt, Nat.shiftLeft_eq, hlo, hhi]
  omega

/-! ## Packets of the builder -/

/-- A successful call writes the packet behind what is in the buffer. -/
def Pm4Call.Writes (call : Pm4Call) (packet : List UInt32) : Prop :=
  ∃ (b b' : Pm4Builder) (p : ℕ), b.WellFormed ∧ call.run b = (b', some p) ∧
    b'.words = b.words ++ packet

/-- What is stored into a reserved packet is the packet. -/
lemma eq_of_store {b b₁ : Pm4Builder} {dwords : UInt32} {p : ℕ} {words packet : List UInt32}
    (h : b.WellFormed) (hemit : paiPm4Emit b dwords = (b₁, some p)) (hlen : words.length = dwords.toNat)
    (hwords : (b₁.store p words).words = b.words ++ packet) : packet = words := by
  unfold paiPm4Emit at hemit
  split_ifs at hemit with hbad
  · cases hemit
  obtain ⟨rfl, hp⟩ := Prod.mk.inj hemit
  obtain rfl := Option.some.inj hp
  rw [not_or, UInt32.not_lt] at hbad
  have hpos : 0 < dwords.toNat := Nat.pos_of_ne_zero fun hz => hbad.1 (UInt32.toNat_inj.mp hz)
  obtain ⟨-, hsum, -⟩ := paiPm4Emit_fits h hpos hbad.2
  rw [Pm4Builder.words_store (hlen ▸ hsum)] at hwords
  exact (List.append_cancel_left hwords).symm

/-- The packet of a call that reserves and fills. -/
lemma eq_of_packet {b b' : Pm4Builder} {dwords : UInt32} {p : ℕ} {words packet : List UInt32}
    (h : b.WellFormed) (hrun : b.packet dwords words = (b', some p)) (hlen : words.length = dwords.toNat)
    (hwords : b'.words = b.words ++ packet) : packet = words := by
  unfold Pm4Builder.packet at hrun
  split at hrun
  · cases hrun
  · next b₁ p₁ hemit =>
    obtain ⟨rfl, hp⟩ := Prod.mk.inj hrun
    exact eq_of_store h hemit hlen hwords

/-- The interpreter knows the packet of the call. -/
def Pm4Call.Supported : Pm4Call → Prop
  | .nop dwords => dwords ≤ 16385
  | .acquireMem => False
  | .waitRegMem .. => False
  | _ => True

/-- A NOP that fits its size field, and any other call, writes a packet that carries its arguments and
says its size. -/
lemma Pm4Call.Writes.carries {call : Pm4Call} {packet : List UInt32} (h : call.Writes packet)
    (hnop : ∀ dwords, call = .nop dwords → dwords ≤ 16385) :
    call.Carries packet ∧ Packets.Sized pm4PacketSize packet := by
  obtain ⟨b, b', p, hwf, hrun, hwords⟩ := h
  have hsafe : call.Safe b := by
    cases call with
    | nop dwords => exact Or.inl (hnop dwords rfl)
    | dmaData src dst size =>
      refine Or.inl (UInt32.not_lt.mp fun hlarge => ?_)
      simp only [Pm4Call.run, paiPm4DmaData, if_pos hlarge] at hrun
      split at hrun <;> cases hrun
    | indirectBuffer ibAddr ibSizeDwords =>
      refine Or.inl (UInt32.not_lt.mp fun hlarge => ?_)
      simp only [Pm4Call.run, paiPm4IndirectBuffer, if_pos hlarge] at hrun
      split at hrun <;> cases hrun
    | waitRegMem compareFunction operation cachePolicy address reference mask pollCycles =>
      by_cases hbad : 7 < compareFunction ∨ 4 < operation ∨ 3 < cachePolicy
      · simp only [Pm4Call.run, paiPm4WaitRegMem, if_pos hbad] at hrun
        split at hrun <;> cases hrun
      · simp only [not_or, UInt32.not_lt] at hbad
        exact Or.inl hbad
    | _ => trivial
  have hstep := Pm4Call.step_of_safe hwf hsafe
  rw [hrun] at hstep
  cases hstep with
  | appended b' p packet' hcarries hsized hwords' hwf' =>
    obtain rfl := List.append_cancel_left (hwords.symm.trans hwords')
    exact ⟨hcarries, hsized⟩

/-- A four-byte aligned address below `2 ^ 48`. -/
def HostAligned (addr : UInt64) : Prop := addr.toNat % 4 = 0 ∧ addr.toNat < 281474976710656

/-- The registers are those of the bank and the addresses aligned. -/
def Pm4Call.InDomain : Pm4Call → Prop
  | .setShRegCompute regOffset count _ =>
    0x200 ≤ regOffset.toNat ∧ regOffset.toNat + count.toNat ≤ 0x300
  | .releaseMemEop _ _ addr _ => HostAligned addr
  | .releaseMemEopFence addr _ => HostAligned addr
  | .writeData addr _ _ => HostAligned addr
  | .dmaData src dst _ => HostAligned src ∧ HostAligned dst
  | .indirectBuffer ibAddr _ => HostAligned ibAddr
  | .waitRegMem _ _ _ address _ _ _ => HostAligned address
  | _ => True

/-! ## How a packet is read -/

/-- The action that the interpreter reads the packet of a call as. -/
def Pm4Call.action : Pm4Call → HostAction
  | .setShRegCompute regOffset count (some values) =>
    .setRegs (regOffset.toNat - 0x200) ((List.range count.toNat).map values)
  | .dispatchDirect groupX _ _ _ => .dispatch groupX
  | .releaseMemEop _ _ addr value => .store addr (leBytes 4 value.toNat)
  | .releaseMemEopFence addr value => .store addr (leBytes 4 value.toNat)
  | .writeData addr (some data) dwords =>
    .store addr (dwordBytes ((List.range dwords.toNat).map data))
  | .dmaData src dst size => .move dst src size
  | .indirectBuffer ibAddr ibSizeDwords => .call ibAddr ibSizeDwords
  | _ => .skip

section Fetches

variable {ref : HostRef} {f : HostFrame} {packet : List UInt32}

/-- The three dwords of a release, wherever they stand. -/
lemma run_fetchRelease {a b c : UInt32} {addr : UInt64} {value : UInt32}
    (hlo : (ref.word f a).toNat = addr.toNat % 4294967296)
    (hhi : (ref.word f b).toNat = addr.toNat / 4294967296) (hvalue : ref.word f c = value) :
    ((fetchRelease a b c).run (ref.stream f)).1 = .ok (.store addr (leBytes 4 value.toNat)) := by
  rw [fetchRelease, run_pm4At, run_pm4At, run_pm4At, run_pure, addrOf_eq hlo hhi, hvalue]

/-- Clearing the low two bits of an aligned dword. -/
lemma toNat_align {addr : UInt64} (h : addr.toNat % 4 = 0) :
    (addr.toUInt32 &&& 0xFFFFFFFC).toNat = addr.toNat % 4294967296 := by
  have hdiv := toNat_align_div addr.toUInt32
  have hmod := @Nat.and_mod_two_pow addr.toUInt32.toNat 0xFFFFFFFC 2
  have hlow : (addr.toUInt32 &&& 0xFFFFFFFC).toNat % 4 = 0 := by
    rw [UInt32.toNat_and]
    refine hmod.trans ?_
    rw [show 0xFFFFFFFC % 2 ^ 2 = 0 by decide, Nat.and_zero]
  rw [UInt64.toNat_toUInt32] at hdiv
  omega

lemma fetch_setShReg {regOffset count : UInt32} {values : ℕ → UInt32} {n : UInt32}
    (hpacket : packet = (paiPm4Header3 paiPm4OpSetShReg (count + 2) ||| 1) :: (regOffset &&& 0xFFFF) ::
      (List.range count.toNat).map values) (h : OnPacket ref f packet)
    (hn : n.toNat = count.toNat + 2) (hlow : 0x200 ≤ regOffset.toNat)
    (hhigh : regOffset.toNat + count.toNat ≤ 0x300) :
    ((fetchSetShReg f.i n).run (ref.stream f)).1 =
      .ok (.setRegs (regOffset.toNat - 0x200) ((List.range count.toNat).map values)) := by
  have hlen : packet.length = count.toNat + 2 := by simp [hpacket]
  have hword : ref.word f (f.i + 1) = regOffset &&& 0xFFFF := by
    rw [h.word 1 (by rw [hlen]; exact Nat.lt_add_left _ (by decide)), hpacket]
    rfl
  have hreg : (regOffset &&& 0xFFFF) &&& 0xFFFF = regOffset := by
    rw [← UInt32.toNat_inj, toNat_and_mask 16 rfl, toNat_and_mask 16 rfl]
    omega
  have hcount : n - 2 = count := by
    rw [← UInt32.toNat_inj, UInt32.toNat_sub_of_le _ _ (UInt32.le_iff_toNat_le.mpr (by
      change 2 ≤ n.toNat
      omega)), hn]
    rfl
  have hsum : (regOffset + count).toNat = regOffset.toNat + count.toNat := by
    rw [UInt32.toNat_add]
    omega
  have hgood : ¬ (regOffset < paiHostRegShBase ∨
      paiHostRegShBase + paiHostRegShCount < regOffset + count) := by
    rw [UInt32.lt_iff_toNat_lt, UInt32.lt_iff_toNat_lt, hsum]
    change ¬ (regOffset.toNat < 512 ∨ 768 < _)
    omega
  have hbytes : ref.mem.bytes (f.pm4.toNat + 4 * (f.i + 2).toNat) (count.toNat * 4) =
      dwordBytes ((List.range count.toNat).map values) := by
    have hdrop := h.holds.drop 2 (by rw [hlen]; omega)
    rw [hpacket, List.drop_succ_cons, List.drop_succ_cons, List.drop_zero] at hdrop
    unfold HostMemory.Holds at hdrop
    rw [List.length_map, List.length_range] at hdrop
    rw [h.toNat_add (by rw [hlen]; exact Nat.le_add_left _ _), Nat.mul_add, ← Nat.add_assoc,
      Nat.mul_comm count.toNat 4]
    exact hdrop
  have hstart : (regOffset - paiHostRegShBase).toNat = regOffset.toNat - 0x200 :=
    UInt32.toNat_sub_of_le _ _ (UInt32.le_iff_toNat_le.mpr hlow)
  rw [fetchSetShReg, run_pm4At, hword]
  simp only [hreg, hcount, if_neg hgood]
  rw [run_pm4From, hbytes, run_pure, hstart]
  have hdwords := dwordsOf_dwordBytes ((List.range count.toNat).map values)
  rw [List.length_map, List.length_range] at hdwords
  rw [hdwords]

lemma fetch_releaseMemEop {eventType eventIndex : UInt32} {addr : UInt64} {value n : UInt32}
    (hpacket : packet = [paiPm4Header3 paiPm4OpReleaseMem 8,
      (eventType &&& 0x3F) ||| ((eventIndex &&& 0x0F) <<< (8 : UInt32)),
      (addr &&& 0xFFFFFFFF).toUInt32, (addr >>> (32 : UInt64)).toUInt32, value, 0, 0, 0])
    (h : OnPacket ref f packet) :
    ((fetchReleaseMem f.i n).run (ref.stream f)).1 = .ok (.store addr (leBytes 4 value.toNat)) := by
  have hlen : packet.length = 8 := by rw [hpacket]; rfl
  have hw := h.word_of_length hlen
  have hrelease : ((fetchRelease (f.i + 2) (f.i + 3) (f.i + 4)).run (ref.stream f)).1 =
      .ok (.store addr (leBytes 4 value.toNat)) := by
    refine run_fetchRelease ?_ ?_ ?_
    · rw [hw 2 (by decide), hpacket]
      exact toNat_low addr
    · rw [hw 3 (by decide), hpacket]
      exact toNat_high addr
    · rw [hw 4 (by decide), hpacket]
      rfl
  unfold fetchReleaseMem
  split_ifs with hlong
  · -- the event word has nothing above its twelfth bit, where the other layout has `0x703`
    have hword : ref.word f (f.i + 1) =
        (eventType &&& 0x3F) ||| ((eventIndex &&& 0x0F) <<< (8 : UInt32)) := by
      rw [hw 1 (by decide), hpacket]
      rfl
    have hlegacy : ¬ ref.word f (f.i + 1) &&& 0xFFF000 = 0x703000 := by
      intro heq
      have hnat := congrArg UInt32.toNat heq
      have hevent := toNat_eventWord eventType eventIndex
      rw [← hword] at hevent
      have hle : (ref.word f (f.i + 1) &&& 0xFFF000).toNat ≤ (ref.word f (f.i + 1)).toNat := by
        rw [UInt32.toNat_and]
        exact Nat.and_le_left
      rw [hnat] at hle
      change 7352320 ≤ _ at hle
      omega
    rw [run_pm4At, if_neg hlegacy, hrelease]
  · exact hrelease

lemma fetch_releaseMemEopFence {addr : UInt64} {value n : UInt32} (haddr : HostAligned addr)
    (hn : 8 ≤ n)
    (hpacket : packet = [paiPm4Header3 paiPm4OpReleaseMem 8,
      (paiGfx1013EopCacheFlushEvent &&& 0x3F) ||| (paiGfx1013EopEventIndex <<< (8 : UInt32)) |||
        ((paiGfx1013EopGcrControl &&& 0xFFF) <<< (12 : UInt32)) |||
        ((paiGfx1013EopCachePolicy &&& 0x3) <<< (25 : UInt32)),
      ((0 : UInt32) <<< (16 : UInt32)) ||| ((0 : UInt32) <<< (24 : UInt32)) |||
        (paiGfx1013EopDataSel32b <<< (29 : UInt32)),
      addr.toUInt32 &&& 0xFFFFFFFC, (addr >>> (32 : UInt64)).toUInt32, value, 0, 0])
    (h : OnPacket ref f packet) :
    ((fetchReleaseMem f.i n).run (ref.stream f)).1 = .ok (.store addr (leBytes 4 value.toNat)) := by
  have hlen : packet.length = 8 := by rw [hpacket]; rfl
  have hw := h.word_of_length hlen
  have hfence : ref.word f (f.i + 1) &&& 0xFFF000 = 0x703000 := by
    rw [hw 1 (by decide), hpacket]
    change ((paiGfx1013EopCacheFlushEvent &&& 0x3F) ||| (paiGfx1013EopEventIndex <<< (8 : UInt32)) |||
      ((paiGfx1013EopGcrControl &&& 0xFFF) <<< (12 : UInt32)) |||
      ((paiGfx1013EopCachePolicy &&& 0x3) <<< (25 : UInt32))) &&& 0xFFF000 = 0x703000
    decide
  rw [fetchReleaseMem, if_pos hn, run_pm4At, if_pos hfence]
  refine run_fetchRelease ?_ ?_ ?_
  · rw [hw 3 (by decide), hpacket]
    exact toNat_align haddr.1
  · rw [hw 4 (by decide), hpacket]
    exact toNat_high addr
  · rw [hw 5 (by decide), hpacket]
    rfl

lemma fetch_writeData {addr : UInt64} {data : ℕ → UInt32} {dwords n : UInt32}
    (haddr : HostAligned addr)
    (hpacket : packet = paiPm4Header3 paiPm4OpWriteData (dwords + 4) :: 0 ::
      (addr.toUInt32 &&& ~~~(0x3 : UInt32)) :: (addr >>> (32 : UInt64)).toUInt32 ::
      (List.range dwords.toNat).map data)
    (h : OnPacket ref f packet) (hn : n.toNat = dwords.toNat + 4) :
    ((fetchWriteData f.i n).run (ref.stream f)).1 =
      .ok (.store addr (dwordBytes ((List.range dwords.toNat).map data))) := by
  have hlen : packet.length = dwords.toNat + 4 := by simp [hpacket]
  have hcount : (n - 4).toNat = dwords.toNat := by
    rw [UInt32.toNat_sub_of_le _ _ (UInt32.le_iff_toNat_le.mpr (by
      change 4 ≤ n.toNat
      omega)), hn]
    exact Nat.add_sub_cancel _ _
  have hlo : (ref.word f (f.i + 2)).toNat = addr.toNat % 4294967296 := by
    rw [h.word 2 (by rw [hlen]; exact Nat.lt_add_left _ (by decide)), hpacket]
    exact toNat_align haddr.1
  have hhi : (ref.word f (f.i + 3)).toNat = addr.toNat / 4294967296 := by
    rw [h.word 3 (by rw [hlen]; exact Nat.lt_add_left _ (by decide)), hpacket]
    exact toNat_high addr
  have hbytes : ref.mem.bytes (f.pm4.toNat + 4 * (f.i + 4).toNat) (dwords.toNat * 4) =
      dwordBytes ((List.range dwords.toNat).map data) := by
    have hdrop := h.holds.drop 4 (by rw [hlen]; omega)
    rw [hpacket, List.drop_succ_cons, List.drop_succ_cons, List.drop_succ_cons, List.drop_succ_cons,
      List.drop_zero] at hdrop
    unfold HostMemory.Holds at hdrop
    rw [List.length_map, List.length_range] at hdrop
    rw [h.toNat_add (by rw [hlen]; exact Nat.le_add_left _ _), Nat.mul_add, ← Nat.add_assoc,
      Nat.mul_comm dwords.toNat 4]
    exact hdrop
  rw [fetchWriteData, run_pm4At, run_pm4At, run_pm4From, run_pure, addrOf_eq hlo hhi, hcount, hbytes]

lemma fetch_dmaData {src dst : UInt64} {size header flags : UInt32} (hsize : size ≤ 0x1FFFFF)
    (hpacket : packet = [header, flags, (src &&& 0xFFFFFFFF).toUInt32,
      (src >>> (32 : UInt64)).toUInt32, (dst &&& 0xFFFFFFFF).toUInt32,
      (dst >>> (32 : UInt64)).toUInt32, size &&& 0x1FFFFF])
    (h : OnPacket ref f packet) :
    ((fetchDmaData f.i).run (ref.stream f)).1 = .ok (.move dst src size) := by
  have hlen : packet.length = 7 := by rw [hpacket]; rfl
  have hmask : (size &&& 0x1FFFFF) &&& 0x1FFFFF = size := by
    have hle : size.toNat ≤ 2097151 := UInt32.le_iff_toNat_le.mp hsize
    rw [← UInt32.toNat_inj, toNat_and_mask 21 rfl, toNat_and_mask 21 rfl]
    omega
  have hw := h.word_of_length hlen
  have hsrc : addrOf (ref.word f (f.i + 2)) (ref.word f (f.i + 3)) = src := by
    rw [hw 2 (by decide), hw 3 (by decide), hpacket]
    exact addrOf_eq (toNat_low src) (toNat_high src)
  have hdst : addrOf (ref.word f (f.i + 4)) (ref.word f (f.i + 5)) = dst := by
    rw [hw 4 (by decide), hw 5 (by decide), hpacket]
    exact addrOf_eq (toNat_low dst) (toNat_high dst)
  have hlast : ref.word f (f.i + 6) = size &&& 0x1FFFFF := by
    rw [hw 6 (by decide), hpacket]
    rfl
  rw [fetchDmaData, run_pm4At, run_pm4At, run_pm4At, run_pm4At, run_pm4At, run_pure, hsrc, hdst, hlast,
    hmask]

lemma fetch_indirectBuffer {ibAddr : UInt64} {ibSizeDwords header : UInt32}
    (haddr : HostAligned ibAddr) (hsize : ibSizeDwords ≤ 0xFFFFF)
    (hpacket : packet = [header, (ibAddr &&& 0xFFFFFFFF).toUInt32,
      (ibAddr >>> (32 : UInt64)).toUInt32 &&& 0xFFFF, ibSizeDwords &&& 0xFFFFF])
    (h : OnPacket ref f packet) :
    ((fetchIndirectBuffer f.i).run (ref.stream f)).1 = .ok (.call ibAddr ibSizeDwords) := by
  have hlen : packet.length = 4 := by rw [hpacket]; rfl
  have hmask : (ibSizeDwords &&& 0xFFFFF) &&& 0xFFFFF = ibSizeDwords := by
    have hle : ibSizeDwords.toNat ≤ 1048575 := UInt32.le_iff_toNat_le.mp hsize
    rw [← UInt32.toNat_inj, toNat_and_mask 20 rfl, toNat_and_mask 20 rfl]
    omega
  have hw := h.word_of_length hlen
  have haddrEq : addrOf (ref.word f (f.i + 1)) (ref.word f (f.i + 2)) = ibAddr := by
    rw [hw 1 (by decide), hw 2 (by decide), hpacket]
    refine addrOf_eq (toNat_low ibAddr) ?_
    change ((ibAddr >>> (32 : UInt64)).toUInt32 &&& 0xFFFF).toNat = _
    have hlt := haddr.2
    rw [toNat_and_mask 16 rfl, toNat_high]
    omega
  have hlast : ref.word f (f.i + 3) = ibSizeDwords &&& 0xFFFFF := by
    rw [hw 3 (by decide), hpacket]
    rfl
  rw [fetchIndirectBuffer, run_pm4At, run_pm4At, run_pm4At, run_pure, haddrEq, hlast, hmask]

/-- A packet of the right size is read as its opcode says. -/
lemma hostFetch_packet {call : Pm4Call} (hcarries : call.Carries packet)
    (hsized : Packets.Sized pm4PacketSize packet) (h : OnPacket ref f packet) :
    ((hostFetch f.i f.dwords).run (ref.stream f)).1 =
      match ((fetchAction call.opcode f.i (UInt32.ofNat packet.length)).run (ref.stream f)).1 with
      | .ok action => .ok (action, f.i + UInt32.ofNat packet.length)
      | .error e => .error e := by
  obtain ⟨w, ws, hw, hsize⟩ := hsized.pos
  have hheader : ref.word f f.i = packet.getD 0 0 := by
    have hword := h.word 0 (by rw [hw]; exact Nat.succ_pos _)
    rwa [show f.i + 0 = f.i by rw [← UInt32.toNat_inj, UInt32.toNat_add]; simp] at hword
  have hlt := f.dwords.toNat_lt
  have hfits := h.fits
  have hcount : ((packet.getD 0 0 >>> (16 : UInt32)) &&& 0x3FFF) + 2 = UInt32.ofNat packet.length := by
    have hsmall : ((packet.getD 0 0 >>> (16 : UInt32)) &&& 0x3FFF).toNat < 16384 := by
      rw [toNat_and_mask 14 rfl]
      exact Nat.mod_lt _ (by decide)
    have hlen : packet.length = ((packet.getD 0 0 >>> (16 : UInt32)) &&& 0x3FFF).toNat + 2 := by
      rw [hw, List.length_cons, ← hsize]
      rfl
    rw [hlen, ← UInt32.toNat_inj, UInt32.toNat_add, UInt32.toNat_ofNat_of_lt' (by
      change _ < 4294967296
      omega)]
    change (_ + 2) % 4294967296 = _
    omega
  have hlenNat : (UInt32.ofNat packet.length).toNat = packet.length :=
    UInt32.toNat_ofNat_of_lt' (by change _ < 4294967296; omega)
  have htype : packet.getD 0 0 >>> (30 : UInt32) = 3 := by
    rw [← UInt32.toNat_inj, UInt32.toNat_shiftRight, Nat.shiftRight_eq_div_pow]
    exact hcarries.type_eq
  have hend : (f.i + UInt32.ofNat packet.length).toNat = f.i.toNat + packet.length := by
    rw [h.toNat_add hlenNat.le, hlenNat]
  have hgood : ¬ (UInt32.ofNat packet.length < 1 ∨
      f.dwords < f.i + UInt32.ofNat packet.length) := by
    rw [UInt32.lt_iff_toNat_lt, UInt32.lt_iff_toNat_lt, hend, hlenNat, hw, List.length_cons]
    rw [hw, List.length_cons] at hfits
    change ¬ (ws.length + 1 < 1 ∨ _)
    omega
  have hopcode : (packet.getD 0 0 >>> (8 : UInt32)) &&& 0xFF = call.opcode := hcarries.opcode_eq
  rw [hostFetch, run_pm4At, hheader]
  simp only [htype, hcount, hopcode, ne_eq, not_true_eq_false, if_false, if_neg hgood]
  change (((fetchAction call.opcode f.i _).bind _).run _).1 = _
  rw [Prog.run_bind]
  rcases (fetchAction call.opcode f.i (UInt32.ofNat packet.length)).run (ref.stream f) with
    ⟨_ | _, _⟩ <;> rfl

/-- Every packet is as long as its call says. -/
lemma Pm4Call.Writes.length_eq {call : Pm4Call} (h : call.Writes packet) :
    packet.length = call.size := by
  by_cases hnop : ∃ dwords, call = .nop dwords
  · obtain ⟨dwords, rfl⟩ := hnop
    obtain ⟨b, b', p, hwf, hrun, hwords⟩ := h
    change paiPm4Nop b dwords = (b', some p) at hrun
    unfold paiPm4Nop at hrun
    split_ifs at hrun with hsmall
    · cases hrun
    have hmin : 2 ≤ dwords.toNat := UInt32.le_iff_toNat_le.mp (UInt32.not_lt.mp hsmall)
    have hlen : (paiPm4Header3 paiPm4OpNop dwords :: List.replicate (dwords.toNat - 1) 0).length =
        dwords.toNat := by
      rw [List.length_cons, List.length_replicate]
      omega
    rw [eq_of_packet hwf hrun hlen hwords, hlen]
    rfl
  · push Not at hnop
    exact (h.carries fun dwords hcall => absurd hcall (hnop dwords)).1.length_eq

/-- The packet of a supported call is read as the action of the call. -/
lemma Pm4Call.Writes.fetchAction_eq {call : Pm4Call} (h : call.Writes packet) (hsup : call.Supported)
    (hdom : call.InDomain) (hon : OnPacket ref f packet) {n : UInt32}
    (hn : n.toNat = call.size) :
    ((fetchAction call.opcode f.i n).run (ref.stream f)).1 = .ok call.action := by
  obtain ⟨b, b', p, hwf, hrun, hwords⟩ := h
  cases call with
  | nop dwords => rfl
  | setShRegCompute regOffset count values =>
    change paiPm4SetShRegCompute b regOffset count values = (b', some p) at hrun
    cases values with
    | none => cases hrun
    | some values =>
      unfold paiPm4SetShRegCompute at hrun
      simp only at hrun
      split_ifs at hrun with hbad
      · cases hrun
      have hlen : ((paiPm4Header3 paiPm4OpSetShReg (count + 2) ||| 1) :: (regOffset &&& 0xFFFF) ::
          (List.range count.toNat).map values).length = (count + 2).toNat := by
        have hhigh := hdom.2
        simp only [List.length_cons, List.length_map, List.length_range, UInt32.toNat_add]
        change count.toNat + 2 = (count.toNat + 2) % 4294967296
        omega
      exact fetch_setShReg (eq_of_packet hwf hrun hlen hwords) hon hn hdom.1 hdom.2
  | dispatchDirect groupX groupY groupZ modifier =>
    have hpacket := eq_of_packet hwf hrun rfl hwords
    have hword : ref.word f (f.i + 1) = groupX := by
      rw [hon.word_of_length (n := 5) (by rw [hpacket]; rfl) 1 (by decide), hpacket]
      rfl
    change ((pm4At (f.i + 1) >>= fun groupX => pure (.dispatch groupX) : Fetch HostAction).run _).1 = _
    rw [run_pm4At, run_pure, hword]
    rfl
  | contextControl loadControl shadowControl => rfl
  | acquireMem => exact absurd hsup id
  | releaseMemEop eventType eventIndex addr data =>
    exact fetch_releaseMemEop (eq_of_packet hwf hrun rfl hwords) hon
  | releaseMemEopFence addr value =>
    exact fetch_releaseMemEopFence hdom (UInt32.le_iff_toNat_le.mpr hn.ge)
      (eq_of_packet hwf hrun rfl hwords) hon
  | writeData addr data dwords =>
    change paiPm4WriteData b addr data dwords = (b', some p) at hrun
    cases data with
    | none => cases hrun
    | some data =>
      unfold paiPm4WriteData at hrun
      simp only at hrun
      split_ifs at hrun with hbad
      · cases hrun
      rw [not_or, UInt32.not_lt] at hbad
      have hmax : dwords.toNat ≤ 16381 := UInt32.le_iff_toNat_le.mp hbad.2
      have hlen : (paiPm4Header3 paiPm4OpWriteData (dwords + 4) :: 0 ::
          (addr.toUInt32 &&& ~~~(0x3 : UInt32)) :: (addr >>> (32 : UInt64)).toUInt32 ::
          (List.range dwords.toNat).map data).length = (dwords + 4).toNat := by
        simp only [List.length_cons, List.length_map, List.length_range, UInt32.toNat_add]
        change dwords.toNat + 4 = (dwords.toNat + 4) % 4294967296
        omega
      exact fetch_writeData hdom (eq_of_packet hwf hrun hlen hwords) hon hn
  | dmaData src dst size =>
    change paiPm4DmaData b src dst size = (b', some p) at hrun
    unfold paiPm4DmaData at hrun
    split at hrun
    · cases hrun
    · next b₁ p₁ hemit =>
      split_ifs at hrun with hlarge
      · cases hrun
      obtain ⟨rfl, hp⟩ := Prod.mk.inj hrun
      exact fetch_dmaData (UInt32.not_lt.mp hlarge) (eq_of_store hwf hemit rfl hwords) hon
  | indirectBuffer ibAddr ibSizeDwords =>
    change paiPm4IndirectBuffer b ibAddr ibSizeDwords = (b', some p) at hrun
    unfold paiPm4IndirectBuffer at hrun
    split at hrun
    · cases hrun
    · next b₁ p₁ hemit =>
      split_ifs at hrun with hlarge
      · cases hrun
      obtain ⟨rfl, hp⟩ := Prod.mk.inj hrun
      exact fetch_indirectBuffer hdom (UInt32.not_lt.mp hlarge) (eq_of_store hwf hemit rfl hwords) hon
  | waitRegMem compareFunction operation cachePolicy address reference mask pollCycles =>
    exact absurd hsup id
  | eventWrite eventType eventIndex => rfl

end Fetches

end Prospero
