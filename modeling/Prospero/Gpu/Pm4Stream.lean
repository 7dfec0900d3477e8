import Prospero.Gpu.Pm4

/-!
# PM4 streams are sequences of packets

Walking the buffer by the size field of each header finds exactly the packets of the calls that returned one,
and a call that returns NULL leaves the buffer as it was, as long as two things do not happen
(`Pm4Call.Safe`): a NOP too long for the 14 bits of the size field, and an argument that
`pai_pm4_dma_data`, `pai_pm4_indirect_buffer` or `pai_pm4_wait_reg_mem` rejects after it has reserved the
packet.  Both directions are proved (`pm4Stream_wellFormed_iff`).

### Outline

* Dwords are read as numbers: the parts of an `|||` that lie above each other add up (`toNat_or_above`).
* `Pm4Call.Step` says what one call may do, and `Pm4Call.step_of_safe` that a safe call does it.
* `Pm4Builder.WellFormed.run_safe` carries this through a sequence of calls, `Packets.split_append` taking
  the packets along.
* Without safety, a rejected call has moved the end of the buffer, or a packet is longer than any that the
  walk can find.
-/

namespace Prospero

/-! ## Dwords as numbers -/

/-- A mask of the low `k` bits. -/
lemma toNat_and_mask {x m : UInt32} (k : ℕ) (hm : m.toNat = 2 ^ k - 1) :
    (x &&& m).toNat = x.toNat % 2 ^ k := by
  rw [UInt32.toNat_and, hm, Nat.and_two_pow_sub_one_eq_mod]

/-- A shift that pushes nothing out. -/
lemma toNat_shiftLeft_fits {b s : UInt32} (k f : ℕ) (hs : s.toNat = k) (hf : 2 ^ k = f) (hk : k < 32)
    (hb : b.toNat * f < 4294967296) : (b <<< s).toNat = b.toNat * f := by
  rw [UInt32.toNat_shiftLeft, hs, Nat.mod_eq_of_lt hk, Nat.shiftLeft_eq, hf, Nat.mod_eq_of_lt hb]

/-- A part above the bits in use is added. -/
lemma toNat_or_above {a c : UInt32} (k q : ℕ) (ha : a.toNat < 2 ^ k) (hc : c.toNat = q * 2 ^ k) :
    (a ||| c).toNat = a.toNat + c.toNat := by
  rw [UInt32.toNat_or, hc, ← Nat.shiftLeft_eq, Nat.lor_comm, ← Nat.shiftLeft_add_eq_or_of_lt ha,
    Nat.add_comm]

/-- Clearing the low two bits keeps the quotient by four. -/
lemma toNat_align_div (x : UInt32) : (x &&& 0xFFFFFFFC).toNat / 4 = x.toNat / 4 := by
  have hlt := x.toNat_lt
  have hdiv := @Nat.and_div_two_pow x.toNat 4294967292 2
  rw [UInt32.toNat_and]
  change (x.toNat &&& 4294967292) / 2 ^ 2 = x.toNat / 4
  rw [hdiv]
  change x.toNat / 4 &&& (2 ^ 30 - 1) = x.toNat / 4
  rw [Nat.and_two_pow_sub_one_eq_mod]
  omega

lemma pm4PacketSize_eq (header : UInt32) :
    pm4PacketSize header = header.toNat / 65536 % 16384 + 2 := by
  rw [pm4PacketSize, toNat_and_mask 14 rfl, UInt32.toNat_shiftRight, Nat.shiftRight_eq_div_pow]
  rfl

lemma toNat_pm4Opcode (header : UInt32) : (pm4Opcode header).toNat = header.toNat / 256 % 256 := by
  rw [pm4Opcode, toNat_and_mask 8 rfl, UInt32.toNat_shiftRight, Nat.shiftRight_eq_div_pow]
  rfl

/-- A header whose size fits its field. -/
lemma toNat_paiPm4Header3 {op count : UInt32} (hop : op.toNat < 256) (hmin : 2 ≤ count.toNat)
    (hmax : count.toNat ≤ 16385) :
    (paiPm4Header3 op count).toNat = 3221225472 + (count.toNat - 2) * 65536 + op.toNat * 256 := by
  have hsub : (count - 2).toNat = count.toNat - 2 :=
    UInt32.toNat_sub_of_le _ _ (UInt32.le_iff_toNat_le.mpr hmin)
  have hcount : ((count - 2) &&& 0x3FFF).toNat = count.toNat - 2 := by
    rw [toNat_and_mask 14 rfl, hsub, Nat.mod_eq_of_lt (by omega)]
  have hop8 : (op <<< (8 : UInt32)).toNat = op.toNat * 256 :=
    toNat_shiftLeft_fits 8 256 rfl rfl (by decide) (by omega)
  have hcount16 : (((count - 2) &&& 0x3FFF) <<< (16 : UInt32)).toNat = (count.toNat - 2) * 65536 := by
    rw [toNat_shiftLeft_fits 16 65536 rfl rfl (by decide) (by rw [hcount]; omega), hcount]
  -- the three parts lie above each other
  have hlow : ((op <<< (8 : UInt32)) ||| (((count - 2) &&& 0x3FFF) <<< (16 : UInt32))).toNat =
      op.toNat * 256 + (count.toNat - 2) * 65536 := by
    rw [toNat_or_above 16 (count.toNat - 2) (by rw [hop8]; omega) hcount16, hop8, hcount16]
  have hor : paiPm4Header3 op count =
      ((op <<< (8 : UInt32)) ||| (((count - 2) &&& 0x3FFF) <<< (16 : UInt32))) ||| 0xC0000000 := by
    rw [paiPm4Header3, UInt32.or_comm _ (op <<< (8 : UInt32)), UInt32.or_comm 0xC0000000,
      ← UInt32.or_assoc]
  rw [hor, toNat_or_above 30 3 (by rw [hlow]; omega) rfl, hlow]
  change op.toNat * 256 + (count.toNat - 2) * 65536 + 3221225472 = _
  omega

/-- The compute bit of a header. -/
lemma toNat_paiPm4Header3_or_one {op count : UInt32} (hop : op.toNat < 256) (hmin : 2 ≤ count.toNat)
    (hmax : count.toNat ≤ 16385) :
    (paiPm4Header3 op count ||| 1).toNat = (paiPm4Header3 op count).toNat + 1 := by
  have hheader := toNat_paiPm4Header3 hop hmin hmax
  have heven : (paiPm4Header3 op count).toNat =
      (12582912 + (count.toNat - 2) * 256 + op.toNat) <<< 8 := by
    rw [hheader, Nat.shiftLeft_eq]
    omega
  rw [UInt32.toNat_or, heven]
  exact (Nat.shiftLeft_add_eq_or_of_lt (by decide : 1 < 2 ^ 8) _).symm

/-! ## Reserving and filling a packet -/

/-- What `pai_pm4_emit` keeps. -/
def Pm4Builder.WellFormed (b : Pm4Builder) : Prop := b.len ≤ b.cap

lemma Pm4Builder.WellFormed.toNat_room {b : Pm4Builder} (h : b.WellFormed) :
    (b.cap - b.len).toNat = b.cap.toNat - b.len.toNat ∧ b.len.toNat ≤ b.cap.toNat :=
  ⟨UInt32.toNat_sub_of_le _ _ h, UInt32.le_iff_toNat_le.mp h⟩

/-- A reservation that fits moves the end by exactly as many dwords. -/
lemma paiPm4Emit_fits {b : Pm4Builder} (h : b.WellFormed) {dwords : UInt32} (hpos : 0 < dwords.toNat)
    (hfits : dwords ≤ b.cap - b.len) :
    paiPm4Emit b dwords = ({ b with len := b.len + dwords }, some b.len.toNat) ∧
      (b.len + dwords).toNat = b.len.toNat + dwords.toNat ∧
      ({ b with len := b.len + dwords } : Pm4Builder).WellFormed := by
  obtain ⟨hroom, hle⟩ := h.toNat_room
  have hfitsNat := UInt32.le_iff_toNat_le.mp hfits
  have hcap := b.cap.toNat_lt
  have hsum : (b.len + dwords).toNat = b.len.toNat + dwords.toNat := by
    rw [UInt32.toNat_add, Nat.mod_eq_of_lt (by omega)]
  refine ⟨if_neg ?_, hsum, UInt32.le_iff_toNat_le.mpr ?_⟩
  · rintro (hz | hlt)
    · rw [hz] at hpos
      exact absurd hpos (lt_irrefl 0)
    · exact absurd hfits (UInt32.not_le.mpr hlt)
  · change (b.len + dwords).toNat ≤ b.cap.toNat
    omega

lemma paiPm4Emit_full {b : Pm4Builder} {dwords : UInt32} (hfull : b.cap - b.len < dwords) :
    paiPm4Emit b dwords = (b, none) := if_pos (Or.inr hfull)

/-- Storing a packet at the end of the reserved part puts it behind what was there. -/
lemma Pm4Builder.words_store {b : Pm4Builder} {len : UInt32} {words : List UInt32}
    (hlen : len.toNat = b.len.toNat + words.length) :
    (({ b with len := len } : Pm4Builder).store b.len.toNat words).words = b.words ++ words := by
  unfold Pm4Builder.words Pm4Builder.store
  simp only
  rw [hlen, List.range_add, List.map_append, List.map_map]
  congr 1
  · refine List.map_congr_left fun i hi => ?_
    rw [if_neg (by have := List.mem_range.mp hi; omega)]
  · apply List.ext_getElem
    · rw [List.length_map, List.length_range]
    · intro i h1 h2
      simp only [List.getElem_map, List.getElem_range, Function.comp_apply]
      rw [if_pos (Nat.le_add_right _ _), Nat.add_sub_cancel_left, List.getD_eq_getElem _ _ h2]

/-- What a packet builder call does: it returns NULL and changes nothing, or it appends one packet of the
call with the size its header says. -/
inductive Pm4Call.Step (call : Pm4Call) (b : Pm4Builder) : Pm4Builder × Option ℕ → Prop where
  /-- The call returns NULL. -/
  | refused : call.Step b (b, none)
  /-- The call returns a packet. -/
  | appended (b' : Pm4Builder) (p : ℕ) (packet : List UInt32) (carries : call.Carries packet)
      (sized : Packets.Sized pm4PacketSize packet) (words_eq : b'.words = b.words ++ packet)
      (wellFormed : b'.WellFormed) : call.Step b (b', some p)

/-- Reserving and filling a packet of the call is a step. -/
lemma Pm4Builder.WellFormed.packet {b : Pm4Builder} (h : b.WellFormed) {call : Pm4Call}
    (dwords : UInt32) {words : List UInt32} (hlen : words.length = dwords.toNat)
    (hcarries : call.Carries words) (hsized : Packets.Sized pm4PacketSize words) :
    call.Step b (b.packet dwords words) := by
  have hpos : 0 < dwords.toNat := by
    obtain ⟨w, ws, rfl, -⟩ := hsized.pos
    rw [← hlen]
    exact Nat.succ_pos _
  unfold Pm4Builder.packet
  by_cases hfits : dwords ≤ b.cap - b.len
  · obtain ⟨hemit, hsum, hwf⟩ := paiPm4Emit_fits h hpos hfits
    rw [hemit]
    exact .appended _ _ words hcarries hsized (words_store (hlen ▸ hsum)) hwf
  · rw [paiPm4Emit_full (UInt32.not_le.mp hfits)]
    exact .refused

/-! ## Packets of the calls -/

/-- The first dword of a packet gives size, type and opcode. -/
lemma Pm4Call.carries_of_header (call : Pm4Call) (header op : UInt32) (rest : List UInt32) (n low : ℕ)
    (hheader : header.toNat = 3221225472 + n * 65536 + op.toNat * 256 + low)
    (hop : call.opcode = op) (hlow : low < 256) (hmax : n ≤ 16383) (hrest : rest.length = n + 1)
    (hsize : call.size = n + 2) (hfields : ∀ field ∈ call.fields, field.HeldBy (header :: rest)) :
    call.Carries (header :: rest) ∧ Packets.Sized pm4PacketSize (header :: rest) := by
  have hlt : op.toNat < 256 := by
    rw [← hop]
    unfold Pm4Call.opcode
    split <;> decide
  refine ⟨⟨?_, ?_, ?_, hfields⟩, ?_⟩
  · rw [List.length_cons, hrest, hsize]
  · rw [List.getD_cons_zero, hheader]
    omega
  · rw [List.getD_cons_zero, hop, ← UInt32.toNat_inj, toNat_pm4Opcode, hheader]
    omega
  · rw [Packets.Sized, List.head?_cons, Option.map_some, List.length_cons, pm4PacketSize_eq, hheader,
      hrest]
    congr 1
    omega

/-- A full dword holds its number. -/
lemma Pm4Field.heldBy_word {packet : List UInt32} {word value : ℕ}
    (h : (packet.getD word 0).toNat = value % 4294967296) :
    (⟨word, 0, 32, value⟩ : Pm4Field).HeldBy packet := by
  change (packet.getD word 0).toNat / 1 % 4294967296 = value % 4294967296
  rw [h]
  omega

/-- The array at the end of a packet. -/
lemma heldBy_pm4Array (front : List UInt32) {values : ℕ → UInt32} {count : ℕ} {field : Pm4Field}
    (h : field ∈ pm4Array front.length (some values) count) :
    field.HeldBy (front ++ (List.range count).map values) := by
  obtain ⟨i, hi, rfl⟩ := List.mem_map.mp h
  have hi := List.mem_range.mp hi
  refine Pm4Field.heldBy_word ?_
  rw [List.getD_append_right _ _ _ _ (Nat.le_add_right _ _), Nat.add_sub_cancel_left,
    List.getD_eq_getElem _ _ (by rw [List.length_map, List.length_range]; exact hi),
    List.getElem_map, List.getElem_range]
  have hlt := (values i).toNat_lt
  omega

/-- A field that is the whole of a masked dword. -/
lemma Pm4Field.heldBy_mask {packet : List UInt32} {word width value : ℕ} {x mask : UInt32}
    (hword : packet.getD word 0 = x &&& mask) (hmask : mask.toNat = 2 ^ width - 1)
    (hx : x.toNat % 2 ^ width = value % 2 ^ width) :
    (⟨word, 0, width, value⟩ : Pm4Field).HeldBy packet := by
  change (packet.getD word 0).toNat / 2 ^ 0 % 2 ^ width = value % 2 ^ width
  rw [hword, toNat_and_mask width hmask, pow_zero, Nat.div_one, Nat.mod_mod, hx]

/-- An address field without its low two bits. -/
lemma Pm4Field.heldBy_align {packet : List UInt32} {word : ℕ} {addr : UInt64}
    (hword : packet.getD word 0 = addr.toUInt32 &&& 0xFFFFFFFC) :
    (⟨word, 2, 30, addr.toNat / 4⟩ : Pm4Field).HeldBy packet := by
  change (packet.getD word 0).toNat / 4 % 1073741824 = addr.toNat / 4 % 1073741824
  rw [hword, toNat_align_div, UInt64.toNat_toUInt32]
  omega

/-- The low half of an address. -/
lemma toNat_low (addr : UInt64) : (addr &&& 0xFFFFFFFF).toUInt32.toNat = addr.toNat % 4294967296 := by
  rw [UInt64.toNat_toUInt32, UInt64.toNat_and]
  change (addr.toNat &&& (2 ^ 32 - 1)) % 4294967296 = _
  rw [Nat.and_two_pow_sub_one_eq_mod]
  exact Nat.mod_mod _ _

/-- The high half of an address. -/
lemma toNat_high (addr : UInt64) :
    (addr >>> (32 : UInt64)).toUInt32.toNat = addr.toNat / 4294967296 := by
  have hlt := addr.toNat_lt
  rw [UInt64.toNat_toUInt32, UInt64.toNat_shiftRight, Nat.shiftRight_eq_div_pow]
  change addr.toNat / 4294967296 % 4294967296 = addr.toNat / 4294967296
  omega

/-- The event word of `pai_pm4_release_mem_eop` and `pai_pm4_event_write`. -/
lemma toNat_eventWord (eventType eventIndex : UInt32) :
    ((eventType &&& 0x3F) ||| ((eventIndex &&& 0x0F) <<< (8 : UInt32))).toNat =
      eventType.toNat % 64 + eventIndex.toNat % 16 * 256 := by
  have htype : (eventType &&& 0x3F).toNat = eventType.toNat % 64 := toNat_and_mask 6 rfl
  have hindex : (eventIndex &&& 0x0F).toNat = eventIndex.toNat % 16 := toNat_and_mask 4 rfl
  have hshift : ((eventIndex &&& 0x0F) <<< (8 : UInt32)).toNat = eventIndex.toNat % 16 * 256 := by
    rw [toNat_shiftLeft_fits 8 256 rfl rfl (by decide) (by rw [hindex]; omega), hindex]
  rw [toNat_or_above 8 (eventIndex.toNat % 16) (by rw [htype]; omega) hshift, htype, hshift]

/-- The fields of the event word. -/
lemma heldBy_eventWord {packet : List UInt32} {eventType eventIndex : UInt32}
    (hword : packet.getD 1 0 =
      (eventType &&& 0x3F) ||| ((eventIndex &&& 0x0F) <<< (8 : UInt32))) :
    (⟨1, 0, 6, eventType.toNat⟩ : Pm4Field).HeldBy packet ∧
      (⟨1, 8, 4, eventIndex.toNat⟩ : Pm4Field).HeldBy packet := by
  have hnat := toNat_eventWord eventType eventIndex
  rw [← hword] at hnat
  constructor
  · change (packet.getD 1 0).toNat / 1 % 64 = eventType.toNat % 64
    omega
  · change (packet.getD 1 0).toNat / 256 % 16 = eventIndex.toNat % 16
    omega

/-- The word of the selectors of `pai_pm4_wait_reg_mem`. -/
lemma toNat_waitWord (compareFunction operation cachePolicy : UInt32) :
    ((0x10 : UInt32) ||| (compareFunction &&& 0x7) ||| ((operation &&& 0x3) <<< (8 : UInt32)) |||
      ((operation &&& 0xC) <<< (4 : UInt32)) ||| ((cachePolicy &&& 0x3) <<< (25 : UInt32))).toNat =
      compareFunction.toNat % 8 + 16 + operation.toNat / 4 % 4 * 64 + operation.toNat % 4 * 256 +
        cachePolicy.toNat % 4 * 33554432 := by
  have hcompare : (compareFunction &&& 0x7).toNat = compareFunction.toNat % 8 := toNat_and_mask 3 rfl
  have hlow : (operation &&& 0x3).toNat = operation.toNat % 4 := toNat_and_mask 2 rfl
  have hcache : (cachePolicy &&& 0x3).toNat = cachePolicy.toNat % 4 := toNat_and_mask 2 rfl
  have hhigh : (operation &&& 0xC).toNat = operation.toNat / 4 % 4 * 4 := by
    have hdiv := @Nat.and_div_two_pow operation.toNat 12 2
    have hmod := @Nat.and_mod_two_pow operation.toNat 12 2
    change (operation.toNat &&& 12) / 4 = operation.toNat / 4 &&& (2 ^ 2 - 1) at hdiv
    change (operation.toNat &&& 12) % 4 = operation.toNat % 4 &&& 0 at hmod
    rw [Nat.and_two_pow_sub_one_eq_mod] at hdiv
    rw [Nat.and_zero] at hmod
    change (operation.toNat &&& 12) = _
    omega
  have hlow8 : ((operation &&& 0x3) <<< (8 : UInt32)).toNat = operation.toNat % 4 * 256 := by
    rw [toNat_shiftLeft_fits 8 256 rfl rfl (by decide) (by rw [hlow]; omega), hlow]
  have hhigh4 : ((operation &&& 0xC) <<< (4 : UInt32)).toNat = operation.toNat / 4 % 4 * 64 := by
    rw [toNat_shiftLeft_fits 4 16 rfl rfl (by decide) (by rw [hhigh]; omega), hhigh]
    omega
  have hcache25 : ((cachePolicy &&& 0x3) <<< (25 : UInt32)).toNat =
      cachePolicy.toNat % 4 * 33554432 := by
    rw [toNat_shiftLeft_fits 25 33554432 rfl rfl (by decide) (by rw [hcache]; omega), hcache]
  -- the parts in the order of their bits
  have hor : ((0x10 : UInt32) ||| (compareFunction &&& 0x7) |||
      ((operation &&& 0x3) <<< (8 : UInt32)) ||| ((operation &&& 0xC) <<< (4 : UInt32)) |||
      ((cachePolicy &&& 0x3) <<< (25 : UInt32))) =
      (compareFunction &&& 0x7) ||| 0x10 ||| ((operation &&& 0xC) <<< (4 : UInt32)) |||
        ((operation &&& 0x3) <<< (8 : UInt32)) ||| ((cachePolicy &&& 0x3) <<< (25 : UInt32)) := by
    rw [UInt32.or_comm 0x10, UInt32.or_assoc _ ((operation &&& 0x3) <<< (8 : UInt32)),
      UInt32.or_comm ((operation &&& 0x3) <<< (8 : UInt32)), ← UInt32.or_assoc]
  have h16 : (0x10 : UInt32).toNat = 16 := rfl
  have h1 : ((compareFunction &&& 0x7) ||| 0x10).toNat = compareFunction.toNat % 8 + 16 := by
    rw [toNat_or_above 4 1 (by rw [hcompare]; omega) h16, hcompare, h16]
  have h2 : ((compareFunction &&& 0x7) ||| 0x10 ||| ((operation &&& 0xC) <<< (4 : UInt32))).toNat =
      compareFunction.toNat % 8 + 16 + operation.toNat / 4 % 4 * 64 := by
    rw [toNat_or_above 6 (operation.toNat / 4 % 4) (by rw [h1]; omega) hhigh4, h1, hhigh4]
  have h3 : ((compareFunction &&& 0x7) ||| 0x10 ||| ((operation &&& 0xC) <<< (4 : UInt32)) |||
      ((operation &&& 0x3) <<< (8 : UInt32))).toNat =
      compareFunction.toNat % 8 + 16 + operation.toNat / 4 % 4 * 64 + operation.toNat % 4 * 256 := by
    rw [toNat_or_above 8 (operation.toNat % 4) (by rw [h2]; omega) hlow8, h2, hlow8]
  rw [hor, toNat_or_above 25 (cachePolicy.toNat % 4) (by rw [h3]; omega) hcache25, h3, hcache25]

/-- The fields of the word of the selectors. -/
lemma heldBy_waitWord {packet : List UInt32} {compareFunction operation cachePolicy : UInt32}
    (hword : packet.getD 1 0 =
      (0x10 : UInt32) ||| (compareFunction &&& 0x7) ||| ((operation &&& 0x3) <<< (8 : UInt32)) |||
        ((operation &&& 0xC) <<< (4 : UInt32)) ||| ((cachePolicy &&& 0x3) <<< (25 : UInt32))) :
    (⟨1, 0, 3, compareFunction.toNat⟩ : Pm4Field).HeldBy packet ∧
      (⟨1, 8, 2, operation.toNat⟩ : Pm4Field).HeldBy packet ∧
      (⟨1, 6, 2, operation.toNat / 4⟩ : Pm4Field).HeldBy packet ∧
      (⟨1, 25, 2, cachePolicy.toNat⟩ : Pm4Field).HeldBy packet := by
  have hnat := toNat_waitWord compareFunction operation cachePolicy
  rw [← hword] at hnat
  have hlow := Nat.mod_lt operation.toNat (by decide : 0 < 4)
  have hhigh := Nat.mod_lt (operation.toNat / 4) (by decide : 0 < 4)
  have hcache := Nat.mod_lt cachePolicy.toNat (by decide : 0 < 4)
  have hcompare := Nat.mod_lt compareFunction.toNat (by decide : 0 < 8)
  refine ⟨?_, ?_, ?_, ?_⟩
  · change (packet.getD 1 0).toNat / 1 % 8 = compareFunction.toNat % 8
    omega
  · change (packet.getD 1 0).toNat / 256 % 4 = operation.toNat % 4
    generalize operation.toNat % 4 = low at *
    omega
  · change (packet.getD 1 0).toNat / 64 % 4 = operation.toNat / 4 % 4
    omega
  · change (packet.getD 1 0).toNat / 33554432 % 4 = cachePolicy.toNat % 4
    generalize operation.toNat % 4 = low, operation.toNat / 4 % 4 = high, cachePolicy.toNat % 4 = cache,
      compareFunction.toNat % 8 = compare at *
    omega

/-- The poll interval is in units of sixteen cycles and saturates. -/
lemma heldBy_pollCycles {packet : List UInt32} {pollCycles : UInt32}
    (hword : packet.getD 6 0 =
      if 0xFFFF0 < pollCycles then 0xFFFF else pollCycles >>> (4 : UInt32)) :
    (⟨6, 0, 16, min (pollCycles.toNat / 16) 65535⟩ : Pm4Field).HeldBy packet := by
  change (packet.getD 6 0).toNat / 1 % 65536 = min (pollCycles.toNat / 16) 65535 % 65536
  rw [hword]
  by_cases hlarge : 0xFFFF0 < pollCycles
  · have hnat : 1048560 < pollCycles.toNat := UInt32.lt_iff_toNat_lt.mp hlarge
    rw [if_pos hlarge]
    change 65535 / 1 % 65536 = _
    omega
  · have hnat : pollCycles.toNat ≤ 1048560 := UInt32.le_iff_toNat_le.mp (UInt32.not_lt.mp hlarge)
    rw [if_neg hlarge, UInt32.toNat_shiftRight, Nat.shiftRight_eq_div_pow]
    change pollCycles.toNat / 16 / 1 % 65536 = _
    omega

/-- The modifier bits of a dispatch, `0xA038`, and the initiator, `0x41`, are different bits. -/
lemma heldBy_modifier {packet : List UInt32} {modifier : UInt32}
    (hword : packet.getD 4 0 = (modifier &&& 0xA038) ||| paiPm4DispatchInitiator) {shift width : ℕ}
    (hbits : ∀ i < width, Nat.testBit 0xA038 (shift + i) = true ∧ Nat.testBit 0x41 (shift + i) = false) :
    (⟨4, shift, width, modifier.toNat / 2 ^ shift⟩ : Pm4Field).HeldBy packet := by
  change (packet.getD 4 0).toNat / 2 ^ shift % 2 ^ width = modifier.toNat / 2 ^ shift % 2 ^ width
  have hnat : (packet.getD 4 0).toNat = (modifier.toNat &&& 0xA038) ||| 0x41 := by
    rw [hword, UInt32.toNat_or, UInt32.toNat_and]
    rfl
  rw [hnat]
  apply Nat.eq_of_testBit_eq
  intro i
  rw [Nat.testBit_mod_two_pow, Nat.testBit_mod_two_pow, Nat.testBit_div_two_pow,
    Nat.testBit_div_two_pow, Nat.testBit_or, Nat.testBit_and]
  by_cases hi : i < width
  · obtain ⟨hmask, hinit⟩ := hbits i hi
    rw [Nat.add_comm] at hmask hinit
    rw [hmask, hinit, Bool.and_true, Bool.or_false]
  · simp only [hi, decide_false, Bool.false_and]

/-- A packet without data. -/
lemma nop_packet {dwords : UInt32} (hmin : 2 ≤ dwords.toNat) (hmax : dwords.toNat ≤ 16385) :
    (Pm4Call.nop dwords).Carries
        (paiPm4Header3 paiPm4OpNop dwords :: List.replicate (dwords.toNat - 1) 0) ∧
      Packets.Sized pm4PacketSize
        (paiPm4Header3 paiPm4OpNop dwords :: List.replicate (dwords.toNat - 1) 0) := by
  have hlen : (List.replicate (dwords.toNat - 1) (0 : UInt32)).length = dwords.toNat - 2 + 1 := by
    rw [List.length_replicate]
    omega
  have hsize : (Pm4Call.nop dwords).size = dwords.toNat - 2 + 2 := (Nat.sub_add_cancel hmin).symm
  exact Pm4Call.carries_of_header _ _ paiPm4OpNop _ (dwords.toNat - 2) 0
    (by rw [toNat_paiPm4Header3 (by decide) hmin hmax, Nat.add_zero]) rfl (by decide) (by omega) hlen
    hsize fun field hmem => absurd hmem List.not_mem_nil

lemma setShRegCompute_packet {regOffset count : UInt32} {values : ℕ → UInt32}
    (hmin : 0 < count.toNat) (hmax : count.toNat ≤ 16382) :
    (Pm4Call.setShRegCompute regOffset count (some values)).Carries
        ((paiPm4Header3 paiPm4OpSetShReg (count + 2) ||| 1) :: (regOffset &&& 0xFFFF) ::
          (List.range count.toNat).map values) ∧
      Packets.Sized pm4PacketSize
        ((paiPm4Header3 paiPm4OpSetShReg (count + 2) ||| 1) :: (regOffset &&& 0xFFFF) ::
          (List.range count.toNat).map values) := by
  have hsum : (count + 2).toNat = count.toNat + 2 := by
    rw [UInt32.toNat_add]
    change (count.toNat + 2) % 4294967296 = _
    omega
  have hlen : ((regOffset &&& 0xFFFF) :: (List.range count.toNat).map values).length =
      count.toNat + 1 := by
    rw [List.length_cons, List.length_map, List.length_range]
  have hheader : (paiPm4Header3 paiPm4OpSetShReg (count + 2) ||| 1).toNat =
      3221225472 + count.toNat * 65536 + paiPm4OpSetShReg.toNat * 256 + 1 := by
    rw [toNat_paiPm4Header3_or_one (by decide) (by omega) (by omega),
      toNat_paiPm4Header3 (by decide) (by omega) (by omega), hsum, Nat.add_sub_cancel]
  refine Pm4Call.carries_of_header _ _ paiPm4OpSetShReg _ count.toNat 1 hheader rfl (by decide)
    (by omega) hlen rfl ?_
  intro field hmem
  rcases List.mem_cons.mp hmem with rfl | hmem
  · exact Pm4Field.heldBy_mask rfl rfl rfl
  · exact heldBy_pm4Array
      [paiPm4Header3 paiPm4OpSetShReg (count + 2) ||| 1, regOffset &&& 0xFFFF] hmem

lemma writeData_packet {addr : UInt64} {data : ℕ → UInt32} {dwords : UInt32}
    (hmax : dwords.toNat ≤ 16381) :
    (Pm4Call.writeData addr (some data) dwords).Carries
        (paiPm4Header3 paiPm4OpWriteData (dwords + 4) :: 0 ::
          (addr.toUInt32 &&& ~~~(0x3 : UInt32)) :: (addr >>> (32 : UInt64)).toUInt32 ::
          (List.range dwords.toNat).map data) ∧
      Packets.Sized pm4PacketSize
        (paiPm4Header3 paiPm4OpWriteData (dwords + 4) :: 0 ::
          (addr.toUInt32 &&& ~~~(0x3 : UInt32)) :: (addr >>> (32 : UInt64)).toUInt32 ::
          (List.range dwords.toNat).map data) := by
  have hsum : (dwords + 4).toNat = dwords.toNat + 4 := by
    rw [UInt32.toNat_add]
    change (dwords.toNat + 4) % 4294967296 = _
    omega
  have hheader := @toNat_paiPm4Header3 paiPm4OpWriteData (dwords + 4) (by decide) (by omega)
    (by omega)
  rw [hsum, show dwords.toNat + 4 - 2 = dwords.toNat + 2 by omega] at hheader
  refine Pm4Call.carries_of_header _ _ paiPm4OpWriteData _ (dwords.toNat + 2) 0
    (hheader.trans (Nat.add_zero _).symm) rfl (by decide) (by omega) ?_ rfl ?_
  · simp only [List.length_cons, List.length_map, List.length_range]
  · intro field hmem
    rcases List.mem_append.mp hmem with hmem | hmem
    · simp only [List.mem_cons, List.not_mem_nil, or_false] at hmem
      rcases hmem with rfl | rfl
      · exact Pm4Field.heldBy_align rfl
      · exact Pm4Field.heldBy_word ((toNat_high addr).trans (by have := addr.toNat_lt; omega))
    · exact heldBy_pm4Array
        [paiPm4Header3 paiPm4OpWriteData (dwords + 4), 0,
          addr.toUInt32 &&& ~~~(0x3 : UInt32), (addr >>> (32 : UInt64)).toUInt32] hmem

/-- A dword argument. -/
lemma Pm4Field.heldBy_dword {packet : List UInt32} {word : ℕ} {value : UInt32}
    (h : packet.getD word 0 = value) : (⟨word, 0, 32, value.toNat⟩ : Pm4Field).HeldBy packet := by
  refine Pm4Field.heldBy_word ?_
  have hlt := value.toNat_lt
  rw [h]
  omega

/-- The two halves of an address. -/
lemma Pm4Field.heldBy_low {packet : List UInt32} {word : ℕ} {addr : UInt64}
    (h : packet.getD word 0 = (addr &&& 0xFFFFFFFF).toUInt32) :
    (⟨word, 0, 32, addr.toNat⟩ : Pm4Field).HeldBy packet :=
  Pm4Field.heldBy_word (by rw [h, toNat_low])

lemma Pm4Field.heldBy_high {packet : List UInt32} {word : ℕ} {addr : UInt64}
    (h : packet.getD word 0 = (addr >>> (32 : UInt64)).toUInt32) :
    (⟨word, 0, 32, addr.toNat / 4294967296⟩ : Pm4Field).HeldBy packet := by
  have hlt := addr.toNat_lt
  refine Pm4Field.heldBy_word ?_
  rw [h, toNat_high]
  omega

/-! ## The calls -/

/-- The condition on a call and the builder before it: a NOP that is written fits the count field, and the
three calls that check after reserving do not come to reject a packet they have room for. -/
def Pm4Call.Safe (b : Pm4Builder) : Pm4Call → Prop
  | .nop dwords => dwords ≤ 16385 ∨ b.cap - b.len < dwords
  | .dmaData _ _ size => size ≤ 0x1FFFFF ∨ b.cap - b.len < 7
  | .indirectBuffer _ ibSizeDwords => ibSizeDwords ≤ 0xFFFFF ∨ b.cap - b.len < 4
  | .waitRegMem compareFunction operation cachePolicy _ _ _ _ =>
    (compareFunction ≤ 7 ∧ operation ≤ 4 ∧ cachePolicy ≤ 3) ∨ b.cap - b.len < 7
  | _ => True

lemma Pm4Call.step_of_safe {b : Pm4Builder} (h : b.WellFormed) {call : Pm4Call}
    (hsafe : call.Safe b) : call.Step b (call.run b) := by
  cases call with
  | nop dwords =>
    change Pm4Call.Step _ b (paiPm4Nop b dwords)
    unfold paiPm4Nop
    split_ifs with hsmall
    · exact .refused
    · have hmin : 2 ≤ dwords.toNat := UInt32.le_iff_toNat_le.mp (UInt32.not_lt.mp hsmall)
      rcases hsafe with hmax | hfull
      · obtain ⟨hcarries, hsized⟩ := nop_packet hmin (UInt32.le_iff_toNat_le.mp hmax)
        refine h.packet _ ?_ hcarries hsized
        rw [List.length_cons, List.length_replicate]
        omega
      · rw [Pm4Builder.packet, paiPm4Emit_full hfull]
        exact .refused
  | setShRegCompute regOffset count values =>
    change Pm4Call.Step _ b (paiPm4SetShRegCompute b regOffset count values)
    cases values with
    | none => exact .refused
    | some values =>
      unfold paiPm4SetShRegCompute
      simp only
      split_ifs with hbad
      · exact .refused
      · rw [not_or, UInt32.not_lt] at hbad
        have hmax : count.toNat ≤ 16382 := UInt32.le_iff_toNat_le.mp hbad.2
        have hmin : count.toNat ≠ 0 := fun hz => hbad.1 (UInt32.toNat_inj.mp hz)
        obtain ⟨hcarries, hsized⟩ := @setShRegCompute_packet regOffset count values (by omega) hmax
        refine h.packet _ ?_ hcarries hsized
        simp only [List.length_cons, List.length_map, List.length_range, UInt32.toNat_add]
        change count.toNat + 2 = (count.toNat + 2) % 4294967296
        omega
  | dispatchDirect groupX groupY groupZ modifier =>
    obtain ⟨hcarries, hsized⟩ := Pm4Call.carries_of_header
      (.dispatchDirect groupX groupY groupZ modifier) (paiPm4Header3 paiPm4OpDispatchDirect 5 ||| 1)
      paiPm4OpDispatchDirect
      [groupX, groupY, groupZ, (modifier &&& 0xA038) ||| paiPm4DispatchInitiator] 3 1 (by decide) rfl
      (by decide) (by decide) rfl rfl (by
        intro field hmem
        simp only [Pm4Call.fields, List.mem_cons, List.not_mem_nil, or_false] at hmem
        rcases hmem with rfl | rfl | rfl | rfl | rfl | rfl
        · exact Pm4Field.heldBy_dword rfl
        · exact Pm4Field.heldBy_dword rfl
        · exact Pm4Field.heldBy_dword rfl
        · exact @heldBy_modifier _ modifier rfl 3 3 (by decide)
        · exact @heldBy_modifier _ modifier rfl 13 1 (by decide)
        · exact @heldBy_modifier _ modifier rfl 15 1 (by decide))
    exact h.packet _ rfl hcarries hsized
  | contextControl loadControl shadowControl =>
    obtain ⟨hcarries, hsized⟩ := Pm4Call.carries_of_header (.contextControl loadControl shadowControl)
      (paiPm4Header3 paiPm4OpContextControl 3) paiPm4OpContextControl [loadControl, shadowControl] 1 0
      (by decide) rfl (by decide) (by decide) rfl rfl (by
        intro field hmem
        simp only [Pm4Call.fields, List.mem_cons, List.not_mem_nil, or_false] at hmem
        rcases hmem with rfl | rfl
        · exact Pm4Field.heldBy_dword rfl
        · exact Pm4Field.heldBy_dword rfl)
    exact h.packet _ rfl hcarries hsized
  | acquireMem =>
    obtain ⟨hcarries, hsized⟩ := Pm4Call.carries_of_header .acquireMem
      (paiPm4Header3 paiPm4OpAcquireMem 8) paiPm4OpAcquireMem
      [0, 0xFFFFFFFF, 0x00FFFFFF, 0, 0, 0x0A, 0xC3B1] 6 0 (by decide) rfl (by decide) (by decide) rfl
      rfl fun field hmem => absurd hmem List.not_mem_nil
    exact h.packet _ rfl hcarries hsized
  | releaseMemEop eventType eventIndex addr data =>
    obtain ⟨hcarries, hsized⟩ := Pm4Call.carries_of_header
      (.releaseMemEop eventType eventIndex addr data) (paiPm4Header3 paiPm4OpReleaseMem 8)
      paiPm4OpReleaseMem
      [(eventType &&& 0x3F) ||| ((eventIndex &&& 0x0F) <<< (8 : UInt32)),
        (addr &&& 0xFFFFFFFF).toUInt32, (addr >>> (32 : UInt64)).toUInt32, data, 0, 0, 0] 6 0
      (by decide) rfl (by decide) (by decide) rfl rfl (by
        intro field hmem
        simp only [Pm4Call.fields, List.mem_cons, List.not_mem_nil, or_false] at hmem
        rcases hmem with rfl | rfl | rfl | rfl | rfl
        · exact (@heldBy_eventWord _ eventType eventIndex rfl).1
        · exact (@heldBy_eventWord _ eventType eventIndex rfl).2
        · exact Pm4Field.heldBy_low rfl
        · exact Pm4Field.heldBy_high rfl
        · exact Pm4Field.heldBy_dword rfl)
    exact h.packet _ rfl hcarries hsized
  | releaseMemEopFence addr value =>
    obtain ⟨hcarries, hsized⟩ := Pm4Call.carries_of_header (.releaseMemEopFence addr value)
      (paiPm4Header3 paiPm4OpReleaseMem 8) paiPm4OpReleaseMem
      [(paiGfx1013EopCacheFlushEvent &&& 0x3F) ||| (paiGfx1013EopEventIndex <<< (8 : UInt32)) |||
          ((paiGfx1013EopGcrControl &&& 0xFFF) <<< (12 : UInt32)) |||
          ((paiGfx1013EopCachePolicy &&& 0x3) <<< (25 : UInt32)),
        ((0 : UInt32) <<< (16 : UInt32)) ||| ((0 : UInt32) <<< (24 : UInt32)) |||
          (paiGfx1013EopDataSel32b <<< (29 : UInt32)),
        addr.toUInt32 &&& 0xFFFFFFFC, (addr >>> (32 : UInt64)).toUInt32, value, 0, 0] 6 0 (by decide)
      rfl (by decide) (by decide) rfl rfl (by
        intro field hmem
        simp only [Pm4Call.fields, List.mem_cons, List.not_mem_nil, or_false] at hmem
        rcases hmem with rfl | rfl | rfl
        · exact Pm4Field.heldBy_align rfl
        · exact Pm4Field.heldBy_high rfl
        · exact Pm4Field.heldBy_dword rfl)
    exact h.packet _ rfl hcarries hsized
  | writeData addr data dwords =>
    change Pm4Call.Step _ b (paiPm4WriteData b addr data dwords)
    cases data with
    | none => exact .refused
    | some data =>
      unfold paiPm4WriteData
      simp only
      split_ifs with hbad
      · exact .refused
      · rw [not_or, UInt32.not_lt] at hbad
        have hmax : dwords.toNat ≤ 16381 := UInt32.le_iff_toNat_le.mp hbad.2
        obtain ⟨hcarries, hsized⟩ := @writeData_packet addr data dwords hmax
        refine h.packet _ ?_ hcarries hsized
        simp only [List.length_cons, List.length_map, List.length_range, UInt32.toNat_add]
        change dwords.toNat + 4 = (dwords.toNat + 4) % 4294967296
        omega
  | dmaData src dst size =>
    change Pm4Call.Step _ b (paiPm4DmaData b src dst size)
    rcases hsafe with hsize | hfull
    · obtain ⟨hcarries, hsized⟩ := Pm4Call.carries_of_header (.dmaData src dst size)
        (((3 : UInt32) <<< (30 : UInt32)) ||| ((1 : UInt32) <<< (1 : UInt32)) |||
          (paiPm4OpDmaData <<< (8 : UInt32)) ||| ((5 : UInt32) <<< (16 : UInt32))) paiPm4OpDmaData
        [((2 : UInt32) <<< (13 : UInt32)) ||| ((1 : UInt32) <<< (15 : UInt32)) |||
            ((2 : UInt32) <<< (25 : UInt32)) ||| ((1 : UInt32) <<< (27 : UInt32)) |||
            ((1 : UInt32) <<< (31 : UInt32)),
          (src &&& 0xFFFFFFFF).toUInt32, (src >>> (32 : UInt64)).toUInt32,
          (dst &&& 0xFFFFFFFF).toUInt32, (dst >>> (32 : UInt64)).toUInt32, size &&& 0x1FFFFF] 5 2
        (by decide) rfl (by decide) (by decide) rfl rfl (by
          intro field hmem
          simp only [Pm4Call.fields, List.mem_cons, List.not_mem_nil, or_false] at hmem
          rcases hmem with rfl | rfl | rfl | rfl | rfl
          · exact Pm4Field.heldBy_low rfl
          · exact Pm4Field.heldBy_high rfl
          · exact Pm4Field.heldBy_low rfl
          · exact Pm4Field.heldBy_high rfl
          · exact Pm4Field.heldBy_mask rfl rfl rfl)
      have hstep := h.packet 7 rfl hcarries hsized
      unfold paiPm4DmaData
      simp only [if_neg (UInt32.not_lt.mpr hsize)]
      exact hstep
    · unfold paiPm4DmaData
      rw [paiPm4Emit_full hfull]
      exact .refused
  | indirectBuffer ibAddr ibSizeDwords =>
    change Pm4Call.Step _ b (paiPm4IndirectBuffer b ibAddr ibSizeDwords)
    rcases hsafe with hsize | hfull
    · obtain ⟨hcarries, hsized⟩ := Pm4Call.carries_of_header (.indirectBuffer ibAddr ibSizeDwords)
        (paiPm4Header3 paiPm4OpIndirectBuffer 4) paiPm4OpIndirectBuffer
        [(ibAddr &&& 0xFFFFFFFF).toUInt32, (ibAddr >>> (32 : UInt64)).toUInt32 &&& 0xFFFF,
          ibSizeDwords &&& 0xFFFFF] 2 0 (by decide) rfl (by decide) (by decide) rfl rfl (by
          intro field hmem
          simp only [Pm4Call.fields, List.mem_cons, List.not_mem_nil, or_false] at hmem
          rcases hmem with rfl | rfl | rfl
          · exact Pm4Field.heldBy_low rfl
          · exact Pm4Field.heldBy_mask rfl rfl (by rw [toNat_high])
          · exact Pm4Field.heldBy_mask rfl rfl rfl)
      have hstep := h.packet 4 rfl hcarries hsized
      unfold paiPm4IndirectBuffer
      simp only [if_neg (UInt32.not_lt.mpr hsize)]
      exact hstep
    · unfold paiPm4IndirectBuffer
      rw [paiPm4Emit_full hfull]
      exact .refused
  | waitRegMem compareFunction operation cachePolicy address reference mask pollCycles =>
    change Pm4Call.Step _ b (paiPm4WaitRegMem b compareFunction operation cachePolicy address reference
      mask pollCycles)
    rcases hsafe with ⟨hcompare, hoperation, hcache⟩ | hfull
    · obtain ⟨hcarries, hsized⟩ := Pm4Call.carries_of_header
        (.waitRegMem compareFunction operation cachePolicy address reference mask pollCycles)
        (paiPm4Header3 paiPm4OpWaitRegMem 7) paiPm4OpWaitRegMem
        [(0x10 : UInt32) ||| (compareFunction &&& 0x7) ||| ((operation &&& 0x3) <<< (8 : UInt32)) |||
            ((operation &&& 0xC) <<< (4 : UInt32)) ||| ((cachePolicy &&& 0x3) <<< (25 : UInt32)),
          address.toUInt32 &&& ~~~(0x3 : UInt32), (address >>> (32 : UInt64)).toUInt32 &&& 0x3FFFF,
          reference, mask, if 0xFFFF0 < pollCycles then 0xFFFF else pollCycles >>> (4 : UInt32)] 5 0
        (by decide) rfl (by decide) (by decide) rfl rfl (by
          intro field hmem
          simp only [Pm4Call.fields, List.mem_cons, List.not_mem_nil, or_false] at hmem
          obtain ⟨h1, h2, h3, h4⟩ := @heldBy_waitWord
            (paiPm4Header3 paiPm4OpWaitRegMem 7 :: [(0x10 : UInt32) ||| (compareFunction &&& 0x7) |||
                ((operation &&& 0x3) <<< (8 : UInt32)) ||| ((operation &&& 0xC) <<< (4 : UInt32)) |||
                ((cachePolicy &&& 0x3) <<< (25 : UInt32)),
              address.toUInt32 &&& ~~~(0x3 : UInt32),
              (address >>> (32 : UInt64)).toUInt32 &&& 0x3FFFF, reference, mask,
              if 0xFFFF0 < pollCycles then 0xFFFF else pollCycles >>> (4 : UInt32)])
            compareFunction operation cachePolicy rfl
          rcases hmem with rfl | rfl | rfl | rfl | rfl | rfl | rfl | rfl | rfl
          · exact h1
          · exact h2
          · exact h3
          · exact h4
          · exact Pm4Field.heldBy_align rfl
          · exact Pm4Field.heldBy_mask rfl rfl (by rw [toNat_high])
          · exact Pm4Field.heldBy_dword rfl
          · exact Pm4Field.heldBy_dword rfl
          · exact heldBy_pollCycles rfl)
      have hstep := h.packet 7 rfl hcarries hsized
      have hgood : ¬ (7 < compareFunction ∨ 4 < operation ∨ 3 < cachePolicy) := by
        rintro (hlt | hlt | hlt)
        · exact absurd hlt (UInt32.not_lt.mpr hcompare)
        · exact absurd hlt (UInt32.not_lt.mpr hoperation)
        · exact absurd hlt (UInt32.not_lt.mpr hcache)
      unfold paiPm4WaitRegMem
      simp only [if_neg hgood]
      exact hstep
    · unfold paiPm4WaitRegMem
      rw [paiPm4Emit_full hfull]
      exact .refused
  | eventWrite eventType eventIndex =>
    obtain ⟨hcarries, hsized⟩ := Pm4Call.carries_of_header (.eventWrite eventType eventIndex)
      (paiPm4Header3 paiPm4OpEventWrite 2) paiPm4OpEventWrite
      [(eventType &&& 0x3F) ||| ((eventIndex &&& 0x0F) <<< (8 : UInt32))] 0 0 (by decide) rfl
      (by decide) (by decide) rfl rfl (by
        intro field hmem
        simp only [Pm4Call.fields, List.mem_cons, List.not_mem_nil, or_false] at hmem
        rcases hmem with rfl | rfl
        · exact (@heldBy_eventWord _ eventType eventIndex rfl).1
        · exact (@heldBy_eventWord _ eventType eventIndex rfl).2)
    exact h.packet _ rfl hcarries hsized

/-! ## Sequences of calls -/

/-- The buffer is the packets of the calls. -/
def Pm4Builder.Splits (b : Pm4Builder) (calls : List Pm4Call) : Prop :=
  ∃ packets, Packets.split pm4PacketSize b.words = some packets ∧
    List.Forall₂ Pm4Call.Carries calls packets

/-- A safe call that returns NULL changes nothing. -/
lemma Pm4Call.Step.eq_of_none {call : Pm4Call} {b : Pm4Builder} {r : Pm4Builder × Option ℕ}
    (h : call.Step b r) (hnone : r.2 = none) : r.1 = b := by
  cases h with
  | refused => rfl
  | appended => cases hnone

/-- Safe calls append their packets. -/
lemma Pm4Builder.WellFormed.run_safe {b : Pm4Builder} (h : b.WellFormed) {packets : List (List UInt32)}
    (hsplit : Packets.split pm4PacketSize b.words = some packets) (calls : List Pm4Call)
    (hsafe : ∀ pre call post, calls = pre ++ call :: post → call.Safe (b.runAll pre)) :
    (∃ new, Packets.split pm4PacketSize (b.runAll calls).words = some (packets ++ new) ∧
      List.Forall₂ Pm4Call.Carries (b.accepted calls) new) ∧
    ∀ pre call post, calls = pre ++ call :: post →
      call.Step (b.runAll pre) (call.run (b.runAll pre)) := by
  induction calls generalizing b packets with
  | nil =>
    refine ⟨⟨[], by rw [List.append_nil]; exact hsplit, .nil⟩, fun pre call post heq => ?_⟩
    exact absurd heq.symm (List.append_ne_nil_of_right_ne_nil _ (List.cons_ne_nil _ _))
  | cons first calls ih =>
    have hstep := Pm4Call.step_of_safe h (hsafe [] first calls rfl)
    have hrest : ∀ pre call post, calls = pre ++ call :: post →
        call.Safe ((first.run b).1.runAll pre) :=
      fun pre call post heq => hsafe (first :: pre) call post (congrArg (first :: ·) heq)
    -- the first call, and with it the calls behind it
    have hall : (∃ new, Packets.split pm4PacketSize ((first.run b).1.runAll calls).words =
          some (packets ++ new) ∧ List.Forall₂ Pm4Call.Carries (b.accepted (first :: calls)) new) ∧
        ∀ pre call post, calls = pre ++ call :: post →
          call.Step ((first.run b).1.runAll pre) (call.run ((first.run b).1.runAll pre)) := by
      rw [Pm4Builder.accepted]
      revert hstep hrest
      generalize first.run b = r
      intro hstep hrest
      cases hstep with
      | refused => exact ih h hsplit hrest
      | appended b' p packet hcarries hsized hwords hwf =>
        obtain ⟨⟨new, hnew, hcarry⟩, hsteps⟩ :=
          ih hwf (by rw [hwords]; exact Packets.split_append hsplit hsized) hrest
        rw [List.append_assoc] at hnew
        exact ⟨⟨packet :: new, hnew, .cons hcarries hcarry⟩, hsteps⟩
    refine ⟨hall.1, fun pre call post heq => ?_⟩
    cases pre with
    | nil =>
      obtain ⟨rfl, rfl⟩ := List.cons.inj heq
      exact hstep
    | cons c pre =>
      have hinj := List.cons.inj heq
      rw [← hinj.1]
      exact hall.2 pre call post hinj.2

/-! ## Calls that are not safe -/

lemma Pm4Builder.WellFormed.emit {b : Pm4Builder} (h : b.WellFormed) (dwords : UInt32) :
    (paiPm4Emit b dwords).1.WellFormed := by
  unfold paiPm4Emit
  split_ifs with hbad
  · exact h
  · rw [not_or, UInt32.not_lt] at hbad
    have hpos : 0 < dwords.toNat := by
      have hne : dwords.toNat ≠ 0 := fun hz => hbad.1 (UInt32.toNat_inj.mp hz)
      omega
    exact (paiPm4Emit_fits h hpos hbad.2).2.2

lemma Pm4Builder.WellFormed.packet_fst {b : Pm4Builder} (h : b.WellFormed) (dwords : UInt32)
    (words : List UInt32) : (b.packet dwords words).1.WellFormed := by
  have hemit := h.emit dwords
  unfold Pm4Builder.packet
  split
  · next heq => rwa [heq] at hemit
  · next heq => rwa [heq] at hemit

/-- No call, safe or not, reserves more than the buffer has. -/
lemma Pm4Builder.WellFormed.run {b : Pm4Builder} (h : b.WellFormed) (call : Pm4Call) :
    (call.run b).1.WellFormed := by
  cases call with
  | nop dwords =>
    change (paiPm4Nop b dwords).1.WellFormed
    unfold paiPm4Nop
    split_ifs
    · exact h
    · exact h.packet_fst _ _
  | setShRegCompute regOffset count values =>
    change (paiPm4SetShRegCompute b regOffset count values).1.WellFormed
    unfold paiPm4SetShRegCompute
    split
    · exact h
    · split_ifs
      · exact h
      · exact h.packet_fst _ _
  | dispatchDirect groupX groupY groupZ modifier => exact h.packet_fst _ _
  | contextControl loadControl shadowControl => exact h.packet_fst _ _
  | acquireMem => exact h.packet_fst _ _
  | releaseMemEop eventType eventIndex addr data => exact h.packet_fst _ _
  | releaseMemEopFence addr value => exact h.packet_fst _ _
  | writeData addr data dwords =>
    change (paiPm4WriteData b addr data dwords).1.WellFormed
    unfold paiPm4WriteData
    split
    · exact h
    · split_ifs
      · exact h
      · exact h.packet_fst _ _
  | dmaData src dst size =>
    change (paiPm4DmaData b src dst size).1.WellFormed
    have hemit := h.emit 7
    unfold paiPm4DmaData
    split
    · next heq => rwa [heq] at hemit
    · next heq =>
      rw [heq] at hemit
      split_ifs <;> exact hemit
  | indirectBuffer ibAddr ibSizeDwords =>
    change (paiPm4IndirectBuffer b ibAddr ibSizeDwords).1.WellFormed
    have hemit := h.emit 4
    unfold paiPm4IndirectBuffer
    split
    · next heq => rwa [heq] at hemit
    · next heq =>
      rw [heq] at hemit
      split_ifs <;> exact hemit
  | waitRegMem compareFunction operation cachePolicy address reference mask pollCycles =>
    change (paiPm4WaitRegMem b compareFunction operation cachePolicy address reference mask
      pollCycles).1.WellFormed
    have hemit := h.emit 7
    unfold paiPm4WaitRegMem
    split
    · next heq => rwa [heq] at hemit
    · next heq =>
      rw [heq] at hemit
      split_ifs <;> exact hemit
  | eventWrite eventType eventIndex => exact h.packet_fst _ _

lemma Pm4Builder.WellFormed.runAll {b : Pm4Builder} (h : b.WellFormed) (calls : List Pm4Call) :
    (b.runAll calls).WellFormed := by
  induction calls generalizing b with
  | nil => exact h
  | cons call calls ih => exact ih (h.run call)

/-- A call of the sequence that returned a packet is among the accepted ones. -/
lemma Pm4Builder.mem_accepted (b : Pm4Builder) (pre : List Pm4Call) (call : Pm4Call)
    (post : List Pm4Call) (hsome : (call.run (b.runAll pre)).2.isSome) :
    call ∈ b.accepted (pre ++ call :: post) := by
  induction pre generalizing b with
  | nil =>
    have hsome : (call.run b).2.isSome := hsome
    rw [List.nil_append, Pm4Builder.accepted, if_pos hsome]
    exact List.mem_cons_self
  | cons c pre ih =>
    have hrest := ih (c.run b).1 hsome
    rw [List.cons_append, Pm4Builder.accepted]
    split_ifs
    · exact List.mem_cons_of_mem c hrest
    · exact hrest

lemma exists_packet_of_mem {calls : List Pm4Call} {packets : List (List UInt32)}
    (h : List.Forall₂ Pm4Call.Carries calls packets) {call : Pm4Call} (hmem : call ∈ calls) :
    ∃ packet ∈ packets, call.Carries packet := by
  induction h with
  | nil => exact absurd hmem List.not_mem_nil
  | cons hcarries _ ih =>
    rcases List.mem_cons.mp hmem with rfl | hmem
    · exact ⟨_, List.mem_cons_self, hcarries⟩
    · obtain ⟨packet, hin, hpacket⟩ := ih hmem
      exact ⟨packet, List.mem_cons_of_mem _ hin, hpacket⟩

/-- The walk finds no packet above the range of the size field. -/
lemma length_le_of_sized {packet : List UInt32} (h : Packets.Sized pm4PacketSize packet) :
    packet.length ≤ 16385 := by
  obtain ⟨w, ws, rfl, hsize⟩ := h.pos
  rw [pm4PacketSize_eq] at hsize
  rw [List.length_cons]
  omega

/-- A call that rejects its arguments after reserving has moved the end. -/
lemma Pm4Builder.WellFormed.len_reserved {b : Pm4Builder} (h : b.WellFormed) {dwords : UInt32}
    (hpos : 0 < dwords.toNat) (hfits : dwords ≤ b.cap - b.len) : b.len + dwords ≠ b.len := by
  obtain ⟨-, hsum, -⟩ := paiPm4Emit_fits h hpos hfits
  intro heq
  rw [heq] at hsum
  omega

/-- What the stream must satisfy at one call for the call to be safe. -/
lemma Pm4Call.safe_of_stream {b : Pm4Builder} (h : b.WellFormed) {call : Pm4Call}
    (hkept : (call.run b).2 = none → (call.run b).1.len = b.len)
    (hshort : (call.run b).2.isSome → call.size ≤ 16385) : call.Safe b := by
  cases call with
  | nop dwords =>
    change dwords ≤ 16385 ∨ b.cap - b.len < dwords
    rw [or_iff_not_imp_right, UInt32.not_lt]
    intro hfits
    by_cases hsmall : dwords < 2
    · exact UInt32.le_of_lt (UInt32.lt_of_lt_of_le hsmall (by decide))
    · have hmin : 2 ≤ dwords.toNat := UInt32.le_iff_toNat_le.mp (UInt32.not_lt.mp hsmall)
      obtain ⟨hemit, -, -⟩ := paiPm4Emit_fits h (by omega) hfits
      refine UInt32.le_iff_toNat_le.mpr (hshort ?_)
      change (paiPm4Nop b dwords).2.isSome
      rw [paiPm4Nop, if_neg hsmall, Pm4Builder.packet, hemit]
      rfl
  | dmaData src dst size =>
    change size ≤ 0x1FFFFF ∨ b.cap - b.len < 7
    by_contra hbad
    rw [not_or, UInt32.not_le, UInt32.not_lt] at hbad
    obtain ⟨hemit, -, -⟩ := paiPm4Emit_fits h (by decide) hbad.2
    have hrun : (Pm4Call.dmaData src dst size).run b = ({ b with len := b.len + 7 }, none) := by
      change paiPm4DmaData b src dst size = _
      rw [paiPm4DmaData, hemit]
      exact if_pos hbad.1
    rw [hrun] at hkept
    exact h.len_reserved (by decide) hbad.2 (hkept rfl)
  | indirectBuffer ibAddr ibSizeDwords =>
    change ibSizeDwords ≤ 0xFFFFF ∨ b.cap - b.len < 4
    by_contra hbad
    rw [not_or, UInt32.not_le, UInt32.not_lt] at hbad
    obtain ⟨hemit, -, -⟩ := paiPm4Emit_fits h (by decide) hbad.2
    have hrun : (Pm4Call.indirectBuffer ibAddr ibSizeDwords).run b =
        ({ b with len := b.len + 4 }, none) := by
      change paiPm4IndirectBuffer b ibAddr ibSizeDwords = _
      rw [paiPm4IndirectBuffer, hemit]
      exact if_pos hbad.1
    rw [hrun] at hkept
    exact h.len_reserved (by decide) hbad.2 (hkept rfl)
  | waitRegMem compareFunction operation cachePolicy address reference mask pollCycles =>
    change (compareFunction ≤ 7 ∧ operation ≤ 4 ∧ cachePolicy ≤ 3) ∨ b.cap - b.len < 7
    by_contra hbad
    rw [not_or, UInt32.not_lt] at hbad
    obtain ⟨hemit, -, -⟩ := paiPm4Emit_fits h (by decide) hbad.2
    have hreject : 7 < compareFunction ∨ 4 < operation ∨ 3 < cachePolicy := by
      by_contra hgood
      simp only [not_or, UInt32.not_lt] at hgood
      exact hbad.1 hgood
    have hrun : (Pm4Call.waitRegMem compareFunction operation cachePolicy address reference mask
        pollCycles).run b = ({ b with len := b.len + 7 }, none) := by
      change paiPm4WaitRegMem b compareFunction operation cachePolicy address reference mask
        pollCycles = _
      rw [paiPm4WaitRegMem, hemit]
      exact if_pos hreject
    rw [hrun] at hkept
    exact h.len_reserved (by decide) hbad.2 (hkept rfl)
  | setShRegCompute => trivial
  | dispatchDirect => trivial
  | contextControl => trivial
  | acquireMem => trivial
  | releaseMemEop => trivial
  | releaseMemEopFence => trivial
  | writeData => trivial
  | eventWrite => trivial

/-! ## Streams -/

/-- For every capacity and every sequence of calls: the buffer splits into the packets of the calls that
returned one and calls that return NULL leave it as it was, exactly when every call is safe where it is
made. -/
theorem pm4Stream_wellFormed_iff (buf : ℕ → UInt32) (cap : UInt32) (calls : List Pm4Call) :
    (((paiPm4BuilderInit buf cap).runAll calls).Splits ((paiPm4BuilderInit buf cap).accepted calls) ∧
      ∀ pre call post, calls = pre ++ call :: post →
        (call.run ((paiPm4BuilderInit buf cap).runAll pre)).2 = none →
        (call.run ((paiPm4BuilderInit buf cap).runAll pre)).1.len =
            ((paiPm4BuilderInit buf cap).runAll pre).len ∧
          (call.run ((paiPm4BuilderInit buf cap).runAll pre)).1.words =
            ((paiPm4BuilderInit buf cap).runAll pre).words) ↔
    ∀ pre call post, calls = pre ++ call :: post →
      call.Safe ((paiPm4BuilderInit buf cap).runAll pre) := by
  have hinit : (paiPm4BuilderInit buf cap).WellFormed :=
    UInt32.le_iff_toNat_le.mpr (Nat.zero_le _)
  constructor
  · rintro ⟨⟨packets, hsplit, hcarry⟩, hkept⟩ pre call post rfl
    refine Pm4Call.safe_of_stream (hinit.runAll pre) (fun hnone => (hkept pre call post rfl hnone).1) ?_
    intro hsome
    obtain ⟨packet, hmem, hpacket⟩ := exists_packet_of_mem hcarry
      (Pm4Builder.mem_accepted _ pre call post hsome)
    rw [← hpacket.length_eq]
    exact length_le_of_sized ((Packets.split_eq_some_iff.mp hsplit).2 packet hmem)
  · intro hsafe
    have hempty : Packets.split pm4PacketSize (paiPm4BuilderInit buf cap).words = some [] :=
      Packets.split_nil
    obtain ⟨⟨new, hsplit, hcarry⟩, hsteps⟩ := hinit.run_safe hempty calls hsafe
    refine ⟨⟨new, hsplit, hcarry⟩, fun pre call post heq hnone => ?_⟩
    rw [(hsteps pre call post heq).eq_of_none hnone]
    exact ⟨rfl, rfl⟩

/-- A DMA copy of 2 MiB into an empty buffer of eight dwords returns NULL and leaves seven dwords
reserved. -/
theorem oversizedDma_not_wellFormed :
    ¬ (((paiPm4BuilderInit (fun _ => 0) 8).runAll [.dmaData 0 0 0x200000]).Splits
        ((paiPm4BuilderInit (fun _ => 0) 8).accepted [.dmaData 0 0 0x200000]) ∧
      ∀ pre call post, [Pm4Call.dmaData 0 0 0x200000] = pre ++ call :: post →
        (call.run ((paiPm4BuilderInit (fun _ => 0) 8).runAll pre)).2 = none →
        (call.run ((paiPm4BuilderInit (fun _ => 0) 8).runAll pre)).1.len =
            ((paiPm4BuilderInit (fun _ => 0) 8).runAll pre).len ∧
          (call.run ((paiPm4BuilderInit (fun _ => 0) 8).runAll pre)).1.words =
            ((paiPm4BuilderInit (fun _ => 0) 8).runAll pre).words) := by
  rintro ⟨-, hkept⟩
  have hlen := (hkept [] (.dmaData 0 0 0x200000) [] rfl (by decide)).1
  exact absurd hlen (by decide)

end Prospero
