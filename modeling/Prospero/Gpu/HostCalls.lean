import Prospero.Gpu.HostStream

/-!
# What the interpreter does with the builder's packets

`Pm4Call.effect` says what a call is for, over registers and memory, and `Performs` what a stream of calls
does, with the streams it calls.  One lemma for the packet of a call (`Pm4Call.Writes.step_eq`), and an
induction over a stream and the streams it calls: supported calls are performed in order (`Performs.run`),
and a stream that gets to another one ends there (`Performs.stop`).
-/

namespace Prospero

open ByteString Footprint Machine

/-! ## What a call is for -/

/-- What a call does to registers and memory, `none` for a dispatch without a kernel that succeeds.  The
stream that an indirect buffer runs is not part of it. -/
def Pm4Call.effect (ref : HostRef) : Pm4Call → Option HostRef
  | .setShRegCompute regOffset count values =>
    values.map fun values =>
      { ref with
        shRegs := fun r =>
          if regOffset.toNat ≤ 0x200 + r ∧ 0x200 + r < regOffset.toNat + count.toNat then
            values (0x200 + r - regOffset.toNat)
          else ref.shRegs r }
  | .dispatchDirect groupX _ _ _ =>
    let r := ref.dispatch groupX
    if r.1 = paiOk then some r.2 else none
  | .releaseMemEop _ _ addr value =>
    some { ref with mem := ref.mem.put addr.toNat (leBytes 4 value.toNat) }
  | .releaseMemEopFence addr value =>
    some { ref with mem := ref.mem.put addr.toNat (leBytes 4 value.toNat) }
  | .writeData addr data dwords =>
    data.map fun data =>
      { ref with
        mem := ref.mem.put addr.toNat (dwordBytes ((List.range dwords.toNat).map data)) }
  | .dmaData src dst size =>
    some { ref with mem := ref.mem.put dst.toNat (ref.mem.bytes src.toNat size.toNat) }
  | _ => some ref

/-! ## One packet -/

/-- The activation behind a number of dwords. -/
def HostFrame.advance (f : HostFrame) (n : ℕ) : HostFrame := { f with i := f.i + UInt32.ofNat n }

lemma HostFrame.advance_zero (f : HostFrame) : f.advance 0 = f := by
  rw [HostFrame.advance, show f.i + UInt32.ofNat 0 = f.i by rw [← UInt32.toNat_inj, UInt32.toNat_add]; simp]

lemma HostFrame.advance_advance (f : HostFrame) (m n : ℕ) :
    (f.advance m).advance n = f.advance (m + n) := by
  rw [HostFrame.advance, HostFrame.advance, HostFrame.advance]
  simp only [HostFrame.mk.injEq, true_and]
  rw [UInt32.add_assoc, ← UInt32.ofNat_add]

section Steps

variable {ref ref' : HostRef} {f : HostFrame} {callers : List HostFrame} {packet : List UInt32}
  {call : Pm4Call}

/-- An activation in front of a packet reads it. -/
lemma step_on_packet (hdepth : callers.length ≤ 4) (hon : OnPacket ref f packet)
    (hpos : 0 < packet.length) :
    HostMachine.step ⟨ref, f :: callers, none⟩ =
      match ((hostFetch f.i f.dwords).run (ref.stream f)).1 with
      | .error e => ⟨ref, f :: callers, some e⟩
      | .ok (action, next) =>
        HostMachine.perform ⟨ref, { f with i := next } :: callers, none⟩ action := by
  have hlt : f.i < f.dwords := by
    have hfits := hon.fits
    rw [UInt32.lt_iff_toNat_lt]
    omega
  unfold HostMachine.step
  simp only [if_neg (Nat.not_lt.mpr hdepth), if_pos hlt]
  rfl

/-- A step over the packet of a supported call performs its action. -/
lemma Pm4Call.Writes.step_eq (h : call.Writes packet) (hsup : call.Supported) (hdom : call.InDomain)
    (hdepth : callers.length ≤ 4) (hon : OnPacket ref f packet) :
    HostMachine.step ⟨ref, f :: callers, none⟩ =
      HostMachine.perform ⟨ref, f.advance call.size :: callers, none⟩ call.action := by
  have hnop : ∀ dwords, call = .nop dwords → dwords ≤ 16385 := by
    rintro dwords rfl
    exact hsup
  obtain ⟨hcarries, hsized⟩ := h.carries hnop
  obtain ⟨w, ws, hw, -⟩ := hsized.pos
  have hfits := hon.fits
  have hlt := f.dwords.toNat_lt
  have hn : (UInt32.ofNat packet.length).toNat = call.size := by
    rw [UInt32.toNat_ofNat_of_lt' (by change _ < 4294967296; omega), hcarries.length_eq]
  rw [step_on_packet hdepth hon (hw ▸ Nat.succ_pos _), hostFetch_packet hcarries hsized hon,
    h.fetchAction_eq hsup hdom hon hn, hcarries.length_eq]
  rfl

/-- Performing the action of a call has its effect. -/
lemma Pm4Call.perform_action (frames : List HostFrame) (heffect : call.effect ref = some ref')
    (hdom : call.InDomain) (hib : ∀ ibAddr n, call ≠ .indirectBuffer ibAddr n) :
    HostMachine.perform ⟨ref, frames, none⟩ call.action = ⟨ref', frames, none⟩ := by
  cases call with
  | setShRegCompute regOffset count values =>
    cases values with
    | none => cases heffect
    | some values =>
      obtain rfl := Option.some.inj heffect
      refine congrArg (fun regs => (⟨{ ref with shRegs := regs }, frames, none⟩ : HostMachine))
        (funext fun r => ?_)
      have hlow : 0x200 ≤ regOffset.toNat := hdom.1
      by_cases hin : regOffset.toNat ≤ 0x200 + r ∧ 0x200 + r < regOffset.toNat + count.toNat
      · have hlen : r - (regOffset.toNat - 0x200) < ((List.range count.toNat).map values).length := by
          rw [List.length_map, List.length_range]
          omega
        rw [if_pos (by omega), if_pos hin, List.getD_eq_getElem _ _ hlen, List.getElem_map,
          List.getElem_range]
        exact congrArg values (by omega)
      · rw [if_neg hin]
        split_ifs with hle
        · exact List.getD_eq_default _ _ (by rw [List.length_map, List.length_range]; omega)
        · rfl
  | dispatchDirect groupX groupY groupZ modifier =>
    change (if (ref.dispatch groupX).1 = paiOk then some (ref.dispatch groupX).2 else none) = some ref'
      at heffect
    split_ifs at heffect with hok
    obtain rfl := Option.some.inj heffect
    change (if (ref.dispatch groupX).1 ≠ paiOk then _ else _) = _
    rw [if_neg (not_not.mpr hok)]
  | writeData addr data dwords =>
    cases data with
    | none => cases heffect
    | some data =>
      obtain rfl := Option.some.inj heffect
      rfl
  | indirectBuffer ibAddr ibSizeDwords => exact absurd rfl (hib ibAddr ibSizeDwords)
  | _ =>
    obtain rfl := Option.some.inj heffect
    rfl

/-- An activation at the end of its stream returns. -/
lemma step_return (hdepth : callers.length ≤ 4) (hend : f.i = f.dwords) :
    HostMachine.step ⟨ref, f :: callers, none⟩ = ⟨ref, callers, none⟩ := by
  have hnot : ¬ f.i < f.dwords := by
    rw [hend]
    exact UInt32.lt_irrefl _
  unfold HostMachine.step
  simp only [if_neg (Nat.not_lt.mpr hdepth), if_neg hnot]

/-- A NOP too long for its size field is read as a shorter one, and then as a dword that is no header. -/
lemma Pm4Call.Writes.stop_nop {dwords : UInt32} (h : (Pm4Call.nop dwords).Writes packet)
    (hlarge : 16385 < dwords.toNat) (hdepth : callers.length ≤ 4) (hon : OnPacket ref f packet) :
    ∃ m, Reaches HostMachine.step ⟨ref, f :: callers, none⟩ m ∧ m.status = some paiErrUnsupported := by
  obtain ⟨b, b', p, hwf, hrun, hwords⟩ := h
  change paiPm4Nop b dwords = (b', some p) at hrun
  unfold paiPm4Nop at hrun
  split_ifs at hrun with hsmall
  · cases hrun
  have hpacket := eq_of_packet hwf hrun (by
    rw [List.length_cons, List.length_replicate]
    omega) hwords
  -- the packet begins with that of a shorter NOP, and goes on with zeros
  set c := (dwords.toNat - 2) % 16384 + 2 with hc
  have hcNat : (UInt32.ofNat c).toNat = c :=
    UInt32.toNat_ofNat_of_lt' (by change _ < 4294967296; omega)
  have hheader : paiPm4Header3 paiPm4OpNop dwords = paiPm4Header3 paiPm4OpNop (UInt32.ofNat c) := by
    have hmask : (dwords - 2) &&& 0x3FFF = (UInt32.ofNat c - 2) &&& 0x3FFF := by
      have h1 : (dwords - 2).toNat = dwords.toNat - 2 :=
        UInt32.toNat_sub_of_le _ _ (UInt32.not_lt.mp hsmall)
      have h2 : (UInt32.ofNat c - 2).toNat = c - 2 := by
        rw [UInt32.toNat_sub_of_le _ _ (UInt32.le_iff_toNat_le.mpr (by
          rw [hcNat]
          exact Nat.le_add_left 2 _)), hcNat]
        rfl
      rw [← UInt32.toNat_inj, toNat_and_mask 14 rfl, toNat_and_mask 14 rfl, h1, h2]
      omega
    rw [paiPm4Header3, hmask, paiPm4Header3]
  have hsplit : packet =
      (paiPm4Header3 paiPm4OpNop (UInt32.ofNat c) :: List.replicate ((UInt32.ofNat c).toNat - 1) 0) ++
        List.replicate (dwords.toNat - c) 0 := by
    rw [hpacket, hheader, List.cons_append, List.replicate_append_replicate, hcNat]
    congr 2
    omega
  obtain ⟨hcarries, hsized⟩ := @nop_packet (UInt32.ofNat c) (by omega) (by omega)
  have hlen := congrArg List.length hpacket
  rw [List.length_cons, List.length_replicate] at hlen
  have hfits := hon.fits
  have hlt := f.dwords.toNat_lt
  have hholds := hon.holds
  rw [hsplit, HostMemory.holds_append] at hholds
  have hshortLen : (paiPm4Header3 paiPm4OpNop (UInt32.ofNat c) ::
      List.replicate ((UInt32.ofNat c).toNat - 1) (0 : UInt32)).length = c := by
    rw [List.length_cons, List.length_replicate, hcNat]
    omega
  rw [hshortLen] at hholds
  have hshort : OnPacket ref f (paiPm4Header3 paiPm4OpNop (UInt32.ofNat c) ::
      List.replicate ((UInt32.ofNat c).toNat - 1) 0) := ⟨hholds.1, by rw [hshortLen]; omega⟩
  have hi : (f.i + UInt32.ofNat c).toNat = f.i.toNat + c := by
    rw [hshort.toNat_add (hcNat.trans hshortLen.symm).le, hcNat]
  have hzeros : OnPacket ref (f.advance c) (List.replicate (dwords.toNat - c) 0) := by
    refine ⟨?_, ?_⟩
    · change ref.mem.Holds (f.pm4.toNat + 4 * (f.i + UInt32.ofNat c).toNat) _
      rw [hi, Nat.mul_add, ← Nat.add_assoc]
      exact hholds.2
    · change (f.i + UInt32.ofNat c).toNat + _ ≤ f.dwords.toNat
      rw [hi, List.length_replicate]
      omega
  have hfirst : HostMachine.step ⟨ref, f :: callers, none⟩ =
      ⟨ref, f.advance c :: callers, none⟩ := by
    rw [step_on_packet hdepth hshort (Nat.succ_pos _), hostFetch_packet hcarries hsized hshort,
      hshortLen]
    rfl
  have hheader0 : ref.word (f.advance c) (f.advance c).i = 0 := by
    have hpos : UInt32.toNat 0 < (List.replicate (dwords.toNat - c) (0 : UInt32)).length := by
      rw [List.length_replicate]
      exact Nat.sub_pos_of_lt (by omega)
    have hword := hzeros.word 0 hpos
    rw [show (f.advance c).i + 0 = (f.advance c).i by
      rw [← UInt32.toNat_inj, UInt32.toNat_add]; simp] at hword
    rw [hword, List.getD_eq_getElem _ _ hpos, List.getElem_replicate]
  have hsecond : HostMachine.step ⟨ref, f.advance c :: callers, none⟩ =
      ⟨ref, f.advance c :: callers, some paiErrUnsupported⟩ := by
    rw [step_on_packet hdepth hzeros (by rw [List.length_replicate]; omega), hostFetch, run_pm4At,
      hheader0]
    rfl
  exact ⟨_, (Reaches.single hfirst).trans (Reaches.single hsecond), rfl⟩

/-- An activation that has gone over all of its stream returns. -/
lemma step_return_advance (ref : HostRef) (pm4 : UInt64) {n : UInt32} {size : ℕ} (hdepth : callers.length ≤ 4)
    (hsize : size = n.toNat) :
    HostMachine.step ⟨ref, (⟨pm4, n, 0⟩ : HostFrame).advance size :: callers, none⟩ =
      ⟨ref, callers, none⟩ := by
  refine step_return hdepth ?_
  rw [hsize]
  change 0 + UInt32.ofNat n.toNat = n
  rw [UInt32.ofNat_toNat, UInt32.zero_add]

/-- A packet of the builder that the interpreter does not know ends the run. -/
lemma Pm4Call.Writes.stop (h : call.Writes packet) (hsup : ¬ call.Supported)
    (hdepth : callers.length ≤ 4) (hon : OnPacket ref f packet) :
    ∃ m, Reaches HostMachine.step ⟨ref, f :: callers, none⟩ m ∧ m.status = some paiErrUnsupported := by
  -- a packet of the right size with an opcode that has no case
  have hcase (hnop : ∀ dwords, call = .nop dwords → dwords ≤ 16385)
      (hfetch : fetchAction call.opcode f.i (UInt32.ofNat packet.length) =
        .fail paiErrUnsupported) :
      ∃ m, Reaches HostMachine.step ⟨ref, f :: callers, none⟩ m ∧
        m.status = some paiErrUnsupported := by
    obtain ⟨hcarries, hsized⟩ := h.carries hnop
    obtain ⟨w, ws, hw, -⟩ := hsized.pos
    refine ⟨_, Reaches.single (step_on_packet hdepth hon (hw ▸ Nat.succ_pos _)), ?_⟩
    rw [hostFetch_packet hcarries hsized hon, hfetch]
    rfl
  cases call with
  | acquireMem => exact hcase (fun _ hcall => by cases hcall) rfl
  | waitRegMem compareFunction operation cachePolicy address reference mask pollCycles =>
    exact hcase (fun _ hcall => by cases hcall) rfl
  | nop dwords =>
    exact h.stop_nop (UInt32.lt_iff_toNat_lt.mp (UInt32.not_le.mp hsup)) hdepth hon
  | _ => exact absurd trivial hsup

end Steps

/-! ## Streams of calls -/

/-- The dwords of a stream of calls. -/
def pm4StreamSize (calls : List Pm4Call) : ℕ := (calls.map Pm4Call.size).sum

/-- A stream of calls stands at an address when its turn comes, and its effects in order lead from `ref` to
`ref'`.  `executed` lists the calls with those of the streams they run. -/
inductive Performs : ℕ → ℕ → List Pm4Call → List Pm4Call → HostRef → HostRef → Prop
  /-- The empty stream. -/
  | done (depth addr : ℕ) (ref : HostRef) : Performs depth addr [] [] ref ref
  /-- A call that runs no other stream. -/
  | call {depth addr : ℕ} {call : Pm4Call} {packet : List UInt32} {calls executed : List Pm4Call}
    {ref ref' ref'' : HostRef} (writes : call.Writes packet) (holds : ref.mem.Holds addr packet)
    (domain : call.InDomain) (plain : ∀ ibAddr n, call ≠ .indirectBuffer ibAddr n)
    (effect : call.effect ref = some ref')
    (rest : Performs depth (addr + 4 * call.size) calls executed ref' ref'') :
    Performs depth addr (call :: calls) (call :: executed) ref ref''
  /-- An indirect buffer, at most four deep. -/
  | nested {depth addr : ℕ} {ibAddr : UInt64} {n : UInt32} {packet : List UInt32}
    {inner innerExecuted calls executed : List Pm4Call} {ref ref' ref'' : HostRef}
    (writes : (Pm4Call.indirectBuffer ibAddr n).Writes packet) (holds : ref.mem.Holds addr packet)
    (domain : (Pm4Call.indirectBuffer ibAddr n).InDomain) (shallow : depth < paiHostMaxIbDepth)
    (size_eq : pm4StreamSize inner = n.toNat)
    (runs : Performs (depth + 1) ibAddr.toNat inner innerExecuted ref ref')
    (rest : Performs depth (addr + 4 * 4) calls executed ref' ref'') :
    Performs depth addr (.indirectBuffer ibAddr n :: calls)
      (.indirectBuffer ibAddr n :: (innerExecuted ++ executed)) ref ref''

/-- An activation that has a stream of calls ahead of it. -/
structure Ahead (f : HostFrame) (addr : ℕ) (calls : List Pm4Call) : Prop where
  /-- It stands in front of the stream. -/
  addr_eq : f.pm4.toNat + 4 * f.i.toNat = addr
  /-- Its own stream has room for it. -/
  fits : f.i.toNat + pm4StreamSize calls ≤ f.dwords.toNat

section Streams

variable {ref : HostRef} {f : HostFrame} {addr : ℕ} {call : Pm4Call} {calls : List Pm4Call}
  {packet : List UInt32}

lemma pm4StreamSize_cons : pm4StreamSize (call :: calls) = call.size + pm4StreamSize calls := by
  simp [pm4StreamSize]

lemma Ahead.onPacket (h : Ahead f addr (call :: calls)) (hwrites : call.Writes packet)
    (hholds : ref.mem.Holds addr packet) : OnPacket ref f packet := by
  have hfits := h.fits
  rw [pm4StreamSize_cons] at hfits
  exact ⟨h.addr_eq ▸ hholds, by rw [hwrites.length_eq]; omega⟩

lemma Ahead.toNat_advance {n : ℕ} (hfits : f.i.toNat + n ≤ f.dwords.toNat) :
    (f.advance n).i.toNat = f.i.toNat + n := by
  have hlt := f.dwords.toNat_lt
  have hn : (UInt32.ofNat n).toNat = n :=
    UInt32.toNat_ofNat_of_lt' (by change n < 4294967296; omega)
  rw [HostFrame.advance]
  change (f.i + UInt32.ofNat n).toNat = _
  rw [UInt32.toNat_add, hn, Nat.mod_eq_of_lt (by omega)]

lemma Ahead.tail (h : Ahead f addr (call :: calls)) :
    Ahead (f.advance call.size) (addr + 4 * call.size) calls := by
  have hfits := h.fits
  rw [pm4StreamSize_cons] at hfits
  have hi := Ahead.toNat_advance (f := f) (n := call.size) (by omega)
  constructor
  · rw [hi, ← h.addr_eq]
    change f.pm4.toNat + _ = _
    omega
  · rw [hi]
    change _ ≤ f.dwords.toNat
    omega

end Streams

/-- A stream of supported calls is performed. -/
lemma Performs.run {depth addr : ℕ} {calls executed : List Pm4Call} {ref ref' : HostRef}
    (h : Performs depth addr calls executed ref ref') (hsup : ∀ call ∈ executed, call.Supported)
    {f : HostFrame} (callers : List HostFrame) (hdepth : callers.length = depth)
    (hmax : depth ≤ paiHostMaxIbDepth) (hahead : Ahead f addr calls) :
    Reaches HostMachine.step ⟨ref, f :: callers, none⟩
      ⟨ref', f.advance (pm4StreamSize calls) :: callers, none⟩ := by
  induction h generalizing f callers with
  | done depth addr ref =>
    rw [show pm4StreamSize [] = 0 from rfl, HostFrame.advance_zero]
    exact Reaches.refl _
  | @call depth addr call packet calls executed ref ref' ref'' hwrites hholds hdom hplain heffect _ ih =>
    have hstep := hwrites.step_eq (hsup call List.mem_cons_self) hdom (hdepth ▸ hmax)
      (hahead.onPacket hwrites hholds)
    rw [call.perform_action _ heffect hdom hplain] at hstep
    have hrest := ih (fun c hc => hsup c (List.mem_cons_of_mem call hc)) callers hdepth hmax hahead.tail
    rw [HostFrame.advance_advance, ← pm4StreamSize_cons] at hrest
    exact Reaches.head hstep hrest
  | @nested depth addr ibAddr n packet inner innerExecuted calls executed ref ref' ref'' hwrites hholds
      hdom hshallow hsize _ _ ihInner ihRest =>
    have hstep : HostMachine.step ⟨ref, f :: callers, none⟩ = _ :=
      hwrites.step_eq trivial hdom (hdepth ▸ hmax) (hahead.onPacket hwrites hholds)
    have hlen : (f.advance 4 :: callers).length = depth + 1 := by rw [List.length_cons, hdepth]
    have hahead' : Ahead ⟨ibAddr, n, 0⟩ ibAddr.toNat inner :=
      ⟨rfl, by rw [hsize]; exact (Nat.zero_add _).le⟩
    have hinner := ihInner (fun c hc => hsup c (List.mem_cons_of_mem _ (List.mem_append_left _ hc)))
      _ hlen hshallow hahead'
    have hreturn := step_return_advance ref' ibAddr (hlen.le.trans hshallow) hsize
    have hrest := ihRest
      (fun c hc => hsup c (List.mem_cons_of_mem _ (List.mem_append_right _ hc))) callers hdepth hmax
      hahead.tail
    rw [HostFrame.advance_advance, ← pm4StreamSize_cons] at hrest
    exact Reaches.head hstep (hinner.trans (Reaches.head hreturn hrest))

/-- A stream that gets to a packet without a case ends there. -/
lemma Performs.stop {depth addr : ℕ} {calls executed : List Pm4Call} {ref ref' : HostRef}
    (h : Performs depth addr calls executed ref ref') (hsup : ¬ ∀ call ∈ executed, call.Supported)
    {f : HostFrame} (callers : List HostFrame) (hdepth : callers.length = depth)
    (hmax : depth ≤ paiHostMaxIbDepth) (hahead : Ahead f addr calls) :
    ∃ m, Reaches HostMachine.step ⟨ref, f :: callers, none⟩ m ∧ m.status = some paiErrUnsupported := by
  induction h generalizing f callers with
  | done depth addr ref => exact absurd (fun c hc => absurd hc List.not_mem_nil) hsup
  | @call depth addr call packet calls executed ref ref' ref'' hwrites hholds hdom hplain heffect _ ih =>
    by_cases hcall : call.Supported
    · have hstep := hwrites.step_eq hcall hdom (hdepth ▸ hmax) (hahead.onPacket hwrites hholds)
      rw [call.perform_action _ heffect hdom hplain] at hstep
      have hrest : ¬ ∀ c ∈ executed, c.Supported := fun hall =>
        hsup (List.forall_mem_cons.mpr ⟨hcall, hall⟩)
      obtain ⟨m, hm, hstatus⟩ := ih hrest callers hdepth hmax hahead.tail
      exact ⟨m, Reaches.head hstep hm, hstatus⟩
    · exact hwrites.stop hcall (hdepth ▸ hmax) (hahead.onPacket hwrites hholds)
  | @nested depth addr ibAddr n packet inner innerExecuted calls executed ref ref' ref'' hwrites hholds
      hdom hshallow hsize hruns _ ihInner ihRest =>
    have hstep : HostMachine.step ⟨ref, f :: callers, none⟩ = _ :=
      hwrites.step_eq trivial hdom (hdepth ▸ hmax) (hahead.onPacket hwrites hholds)
    have hlen : (f.advance 4 :: callers).length = depth + 1 := by rw [List.length_cons, hdepth]
    have hahead' : Ahead ⟨ibAddr, n, 0⟩ ibAddr.toNat inner :=
      ⟨rfl, by rw [hsize]; exact (Nat.zero_add _).le⟩
    by_cases hinner : ∀ c ∈ innerExecuted, c.Supported
    · have hrest : ¬ ∀ c ∈ executed, c.Supported := fun hall =>
        hsup (List.forall_mem_cons.mpr ⟨trivial, List.forall_mem_append.mpr ⟨hinner, hall⟩⟩)
      have hrun := hruns.run hinner _ hlen hshallow hahead'
      have hreturn := step_return_advance ref' ibAddr (hlen.le.trans hshallow) hsize
      obtain ⟨m, hm, hstatus⟩ := ihRest hrest callers hdepth hmax hahead.tail
      exact ⟨m, Reaches.head hstep (hrun.trans (Reaches.head hreturn hm)), hstatus⟩
    · obtain ⟨m, hm, hstatus⟩ := ihInner hinner _ hlen hshallow hahead'
      exact ⟨m, Reaches.head hstep hm, hstatus⟩

/-! ## Returning -/

/-- The outermost activation returns a status and leaves registers and memory. -/
def HostReturns (m : HostMachine) (status : PaiStatus) (ref : HostRef) : Prop :=
  ∃ m', Reaches HostMachine.step m m' ∧ m'.status = some status ∧ m'.ref = ref

lemma step_of_status {m : HostMachine} (h : ∃ status, m.status = some status) : m.step = m := by
  obtain ⟨status, hstatus⟩ := h
  unfold HostMachine.step
  rw [hstatus]

/-- A stream of calls of the right length returns `PAI_OK` with the effects of the calls exactly when each
call that is executed is one the interpreter knows. -/
lemma Performs.returns_iff {pm4 : UInt64} {dwords : UInt32} {calls executed : List Pm4Call}
    {ref ref' : HostRef} (h : Performs 0 pm4.toNat calls executed ref ref')
    (hsize : pm4StreamSize calls = dwords.toNat) :
    HostReturns (paiHostRunStream ref pm4 dwords) paiOk ref' ↔
      ∀ call ∈ executed, call.Supported := by
  have hahead : Ahead ⟨pm4, dwords, 0⟩ pm4.toNat calls :=
    ⟨rfl, by rw [hsize]; exact (Nat.zero_add _).le⟩
  constructor
  · rintro ⟨m, hm, hstatus, -⟩
    by_contra hsup
    obtain ⟨m', hm', hstatus'⟩ := h.stop hsup [] rfl (Nat.zero_le _) hahead
    obtain rfl : m = m' := hm.unique (fun m => ∃ status, m.status = some status)
      (fun _ => step_of_status) hm' ⟨_, hstatus⟩ ⟨_, hstatus'⟩
    rw [hstatus] at hstatus'
    exact absurd (Option.some.inj hstatus') (by decide)
  · intro hsup
    have hrun := h.run hsup [] rfl (Nat.zero_le _) hahead
    have hreturn : HostMachine.step _ = ⟨ref', [], none⟩ :=
      step_return_advance ref' pm4 (Nat.zero_le _) hsize
    exact ⟨⟨ref', [], some paiOk⟩, hrun.trans (Reaches.head hreturn (Reaches.single rfl)), rfl, rfl⟩

end Prospero
