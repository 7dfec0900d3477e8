import Prospero.Gpu.HostCalls

/-!
# The interpreter on any stream

What the interpreter reads of a stream, what it writes to the register bank, and whether it returns, for any
contents of memory and any length (`StreamSafe`).

The check of a packet compares its own size with the rest of the stream, and the cases of the opcodes read
fixed places, some of them behind the end of a short packet.  `LayoutFits` is the check that would cover
both; where it holds at every packet a run gets to, the run is safe (`streamSafe_of_layoutFits`), and only
there as long as the indices do not wrap (`layoutFits_of_reads`).

### Outline

* `spec_fetchAction` : what a packet reads, and what its action may be.
* `HostMachine.step_cases` : what an iteration may do to the activations.
* `HostMachine.work` : a number that falls with each iteration.  An activation at depth `d` counts its
  remaining dwords `2 ^ 20` times as much as one at depth `d + 1`, so that a call pays for its stream.
-/

namespace Prospero

open Footprint Machine

/-! ## Safety -/

/-- What the next iteration reads of its stream. -/
def HostMachine.reads (m : HostMachine) : List (HostFrame × Access Unit) :=
  match m.fetch? with
  | none => []
  | some (f, fetch) => (fetch.trace (m.ref.stream f)).map fun acc => (f, acc)

/-- What the next iteration does, if it gets to it. -/
def HostMachine.action? (m : HostMachine) : Option HostAction :=
  match m.fetch? with
  | none => none
  | some (f, fetch) =>
    match (fetch.run (m.ref.stream f)).1 with
    | .error _ => none
    | .ok (action, _) => some action

/-- The access is a load of dwords of the stream. -/
def InStream (dwords : UInt32) (acc : Access Unit) : Prop :=
  acc.addr + acc.len ≤ 4 * dwords.toNat ∧ acc.isStore = false

/-- A run reads its streams inside their lengths, writes the register bank inside the array, and returns. -/
structure StreamSafe (m : HostMachine) : Prop where
  /-- Streams are read inside their lengths. -/
  reads : ∀ k f acc, (f, acc) ∈ (HostMachine.step^[k] m).reads → InStream f.dwords acc
  /-- Registers are written inside the bank. -/
  writes : ∀ k start values, (HostMachine.step^[k] m).action? = some (.setRegs start values) →
    start + values.length ≤ paiHostRegShCount.toNat
  /-- The run returns. -/
  returns : ∃ k, ∃ status, (HostMachine.step^[k] m).status = some status

/-- The dwords of a packet that its case reads: those of its size, and those at the fixed places. -/
def pm4Reach (op : UInt32) (size : ℕ) : ℕ :=
  if op = paiPm4OpReleaseMem then max size 5
  else if op = paiPm4OpWriteData then max size 4
  else if op = paiPm4OpDmaData then max size 7
  else if op = paiPm4OpIndirectBuffer then max size 4
  else size

lemma le_pm4Reach (op : UInt32) (size : ℕ) : size ≤ pm4Reach op size := by
  unfold pm4Reach
  split_ifs
  · exact le_max_left _ _
  · exact le_max_left _ _
  · exact le_max_left _ _
  · exact le_max_left _ _
  · exact le_rfl

/-- `count` of a packet. -/
def pm4Count (header : UInt32) : UInt32 := ((header >>> (16 : UInt32)) &&& 0x3FFF) + 2

/-- The header passes the checks of the loop. -/
def HostFrame.Accepts (f : HostFrame) (header : UInt32) : Prop :=
  header >>> (30 : UInt32) = 3 ∧ f.i + pm4Count header ≤ f.dwords

/-- If the next packet passes the checks of the loop, then what its case reads fits in the stream, and a
`WRITE_DATA` has its four dwords. -/
def HostMachine.LayoutFits (m : HostMachine) : Prop :=
  ∀ f fetch, m.fetch? = some (f, fetch) → f.Accepts (m.ref.word f f.i) →
    f.i.toNat + pm4Reach (pm4Opcode (m.ref.word f f.i)) (pm4PacketSize (m.ref.word f f.i)) ≤
        f.dwords.toNat ∧
      (pm4Opcode (m.ref.word f f.i) = paiPm4OpWriteData → 4 ≤ pm4PacketSize (m.ref.word f f.i))

/-! ## What a packet reads -/

lemma toNat_pm4Count (header : UInt32) :
    (pm4Count header).toNat = pm4PacketSize header ∧ 2 ≤ pm4PacketSize header ∧
      pm4PacketSize header ≤ 16385 := by
  have hsmall : ((header >>> (16 : UInt32)) &&& 0x3FFF).toNat < 16384 := by
    rw [toNat_and_mask 14 rfl]
    exact Nat.mod_lt _ (by decide)
  have hsize : pm4PacketSize header = ((header >>> (16 : UInt32)) &&& 0x3FFF).toNat + 2 := rfl
  refine ⟨?_, by omega, by omega⟩
  rw [pm4Count, UInt32.toNat_add, hsize]
  change (_ + 2) % 4294967296 = _
  omega

/-- What an action may be. -/
def HostAction.InBounds : HostAction → Prop
  | .setRegs start values => start + values.length ≤ paiHostRegShCount.toNat
  | .call _ dwords => dwords.toNat ≤ 0xFFFFF
  | _ => True

section Cases

variable {P : Access Unit → Prop} {i count : UInt32}

/-- The access of `pm4[i + j]`. -/
def dwordAccess (i : UInt32) : Access Unit := ⟨(), 4 * i.toNat, 4, false⟩

lemma spec_pm4At {F : PaiStatus → Prop} (h : P (dwordAccess i)) :
    (pm4At i).Spec P F fun _ => True :=
  Prog.Spec.bind (spec_loadBytes h) fun _ _ => spec_pure trivial

lemma spec_fetchRelease {a b c : UInt32} (ha : P (dwordAccess a)) (hb : P (dwordAccess b))
    (hc : P (dwordAccess c)) :
    (fetchRelease a b c).Spec P (fun _ => True) HostAction.InBounds :=
  Prog.Spec.bind (spec_pm4At ha) fun _ _ => Prog.Spec.bind (spec_pm4At hb) fun _ _ =>
    Prog.Spec.bind (spec_pm4At hc) fun _ _ => spec_pure trivial

lemma spec_fetchSetShReg (hmin : 2 ≤ count.toNat) (hmax : count.toNat ≤ 16385)
    (hword : P (dwordAccess (i + 1)))
    (hcopy : P ⟨(), 4 * (i + 2).toNat, (count - 2).toNat * 4, false⟩) :
    (fetchSetShReg i count).Spec P (fun _ => True) HostAction.InBounds := by
  refine Prog.Spec.bind (spec_pm4At hword) fun word _ => ?_
  simp only
  split_ifs with hbad
  · exact spec_fail trivial
  · refine Prog.Spec.bind (spec_loadBytes hcopy) fun bs _ => spec_pure ?_
    have hcount : (count - 2).toNat = count.toNat - 2 :=
      UInt32.toNat_sub_of_le _ _ (UInt32.le_iff_toNat_le.mpr hmin)
    have hreg : (word &&& 0xFFFF).toNat < 65536 := by
      rw [toNat_and_mask 16 rfl]
      exact Nat.mod_lt _ (by decide)
    have hsum : ((word &&& 0xFFFF) + (count - 2)).toNat =
        (word &&& 0xFFFF).toNat + (count.toNat - 2) := by
      rw [UInt32.toNat_add, hcount]
      omega
    rw [not_or, UInt32.not_lt, UInt32.not_lt, UInt32.le_iff_toNat_le, UInt32.le_iff_toNat_le, hsum]
      at hbad
    have hlow : 512 ≤ (word &&& 0xFFFF).toNat := hbad.1
    have hhigh : (word &&& 0xFFFF).toNat + (count.toNat - 2) ≤ 768 := hbad.2
    have hstart : ((word &&& 0xFFFF) - paiHostRegShBase).toNat = (word &&& 0xFFFF).toNat - 512 :=
      UInt32.toNat_sub_of_le _ _ (UInt32.le_iff_toNat_le.mpr hlow)
    change ((word &&& 0xFFFF) - paiHostRegShBase).toNat + (dwordsOf bs (count - 2).toNat).length ≤ 256
    rw [hstart, dwordsOf, List.length_map, List.length_range, hcount]
    omega

/-- The case of an opcode reads the dwords of its reach, and the arrays at the end of `SET_SH_REG` and
`WRITE_DATA`. -/
lemma spec_fetchAction (op : UInt32) (hmin : 2 ≤ count.toNat) (hmax : count.toNat ≤ 16385)
    (hword : ∀ j : UInt32, j.toNat < pm4Reach op count.toNat → P (dwordAccess (i + j)))
    (hset : P ⟨(), 4 * (i + 2).toNat, (count - 2).toNat * 4, false⟩)
    (hwrite : op = paiPm4OpWriteData → P ⟨(), 4 * (i + 4).toNat, (count - 4).toNat * 4, false⟩) :
    (fetchAction op i count).Spec P (fun _ => True) HostAction.InBounds := by
  have hreach := le_pm4Reach op count.toNat
  have hone : P (dwordAccess (i + 1)) := hword 1 (lt_of_lt_of_le hmin hreach)
  unfold fetchAction
  split_ifs with hnop hcontext hsetOp hdispatch hrelease hwriteOp hdma hib hevent
  · exact spec_pure trivial
  · exact spec_pure trivial
  · exact spec_fetchSetShReg hmin hmax hone hset
  · exact Prog.Spec.bind (spec_pm4At hone) fun _ _ => spec_pure trivial
  · have hfive : ∀ j : UInt32, j.toNat < 5 → P (dwordAccess (i + j)) := fun j hj =>
      hword j (by rw [hrelease, pm4Reach, if_pos rfl]; exact lt_max_of_lt_right hj)
    unfold fetchReleaseMem
    split_ifs with hlong
    · have hcount : 8 ≤ count.toNat := UInt32.le_iff_toNat_le.mp hlong
      refine Prog.Spec.bind (spec_pm4At hone) fun word _ => ?_
      split_ifs
      · exact spec_fetchRelease (hfive 3 (by decide)) (hfive 4 (by decide))
          (hword 5 (lt_of_lt_of_le (lt_of_lt_of_le (by decide) hcount) hreach))
      · exact spec_fetchRelease (hfive 2 (by decide)) (hfive 3 (by decide)) (hfive 4 (by decide))
    · exact spec_fetchRelease (hfive 2 (by decide)) (hfive 3 (by decide)) (hfive 4 (by decide))
  · have hfour : ∀ j : UInt32, j.toNat < 4 → P (dwordAccess (i + j)) := fun j hj =>
      hword j (by
        rw [hwriteOp, pm4Reach, if_neg (by decide), if_pos rfl]
        exact lt_max_of_lt_right hj)
    exact Prog.Spec.bind (spec_pm4At (hfour 2 (by decide))) fun _ _ =>
      Prog.Spec.bind (spec_pm4At (hfour 3 (by decide))) fun _ _ =>
        Prog.Spec.bind (spec_loadBytes (hwrite hwriteOp)) fun _ _ => spec_pure trivial
  · have hseven : ∀ j : UInt32, j.toNat < 7 → P (dwordAccess (i + j)) := fun j hj =>
      hword j (by
        rw [hdma, pm4Reach, if_neg (by decide), if_neg (by decide), if_pos rfl]
        exact lt_max_of_lt_right hj)
    exact Prog.Spec.bind (spec_pm4At (hseven 2 (by decide))) fun _ _ =>
      Prog.Spec.bind (spec_pm4At (hseven 3 (by decide))) fun _ _ =>
        Prog.Spec.bind (spec_pm4At (hseven 4 (by decide))) fun _ _ =>
          Prog.Spec.bind (spec_pm4At (hseven 5 (by decide))) fun _ _ =>
            Prog.Spec.bind (spec_pm4At (hseven 6 (by decide))) fun _ _ => spec_pure trivial
  · have hfour : ∀ j : UInt32, j.toNat < 4 → P (dwordAccess (i + j)) := fun j hj =>
      hword j (by
        rw [hib, pm4Reach, if_neg (by decide), if_neg (by decide), if_neg (by decide), if_pos rfl]
        exact lt_max_of_lt_right hj)
    exact Prog.Spec.bind (spec_pm4At (hfour 1 (by decide))) fun _ _ =>
      Prog.Spec.bind (spec_pm4At (hfour 2 (by decide))) fun _ _ =>
        Prog.Spec.bind (spec_pm4At (hfour 3 (by decide))) fun dwords _ => spec_pure (by
          change (dwords &&& 0xFFFFF).toNat ≤ 1048575
          rw [toNat_and_mask 20 rfl]
          have := Nat.mod_lt dwords.toNat (by decide : 0 < 2 ^ 20)
          omega)
  · exact spec_pure trivial
  · exact spec_fail trivial

end Cases

section Iterations

variable {ref : HostRef} {f : HostFrame}

/-- What follows the header of a packet that passes the checks. -/
def HostFrame.fetchRest (f : HostFrame) (header : UInt32) : Fetch HostAction :=
  fetchAction (pm4Opcode header) f.i (pm4Count header)

/-- A packet that passes the checks is fetched by the case of its opcode, any other one is refused behind its
header. -/
lemma hostFetch_cases (ref : HostRef) (f : HostFrame) :
    (f.Accepts (ref.word f f.i) ∧
        (hostFetch f.i f.dwords).trace (ref.stream f) =
          dwordAccess f.i :: (f.fetchRest (ref.word f f.i)).trace (ref.stream f) ∧
        ((hostFetch f.i f.dwords).run (ref.stream f)).1 =
          (((f.fetchRest (ref.word f f.i)).run (ref.stream f)).1.map fun action =>
            (action, f.i + pm4Count (ref.word f f.i)))) ∨
      (¬ f.Accepts (ref.word f f.i) ∧
        (hostFetch f.i f.dwords).trace (ref.stream f) = [dwordAccess f.i] ∧
        ∃ e, ((hostFetch f.i f.dwords).run (ref.stream f)).1 = .error e) := by
  have htrace (next : UInt32 → Fetch (HostAction × UInt32)) :
      (pm4At f.i >>= next).trace (ref.stream f) =
        dwordAccess f.i :: (next (ref.word f f.i)).trace (ref.stream f) := by
    change (⟨(), _, _, _⟩ : Access Unit) ::
      (next (UInt32.ofNat (ByteString.leNat (Memory.bytes (ref.stream f) () _ 4)))).trace _ = _
    rw [HostRef.stream_bytes]
    rfl
  unfold hostFetch
  rw [htrace, run_pm4At]
  by_cases htype : ref.word f f.i >>> (30 : UInt32) = 3
  · by_cases hroom : f.i + pm4Count (ref.word f f.i) ≤ f.dwords
    · left
      have hcount : ¬ (((ref.word f f.i >>> (16 : UInt32)) &&& 0x3FFF) + 2 < 1 ∨
          f.dwords < f.i + (((ref.word f f.i >>> (16 : UInt32)) &&& 0x3FFF) + 2)) := by
        rintro (hlt | hlt)
        · have htwo := (toNat_pm4Count (ref.word f f.i)).2.1
          rw [← (toNat_pm4Count (ref.word f f.i)).1] at htwo
          have hone := UInt32.lt_iff_toNat_lt.mp hlt
          change (pm4Count (ref.word f f.i)).toNat < 1 at hone
          omega
        · exact UInt32.not_lt.mpr hroom hlt
      simp only [htype, ne_eq, not_true_eq_false, if_false, if_neg hcount]
      refine ⟨⟨htype, hroom⟩, ?_, ?_⟩
      · change dwordAccess f.i :: ((f.fetchRest _).bind _).trace _ = _
        rw [Prog.trace_bind]
        rcases (f.fetchRest (ref.word f f.i)).run (ref.stream f) with ⟨_ | _, _⟩
        · rw [List.append_nil]
        · exact congrArg _ (List.append_nil _)
      · change (((f.fetchRest _).bind _).run _).1 = _
        rw [Prog.run_bind]
        rcases (f.fetchRest (ref.word f f.i)).run (ref.stream f) with ⟨_ | _, _⟩ <;> rfl
    · right
      have hcount : ((ref.word f f.i >>> (16 : UInt32)) &&& 0x3FFF) + 2 < 1 ∨
          f.dwords < f.i + (((ref.word f f.i >>> (16 : UInt32)) &&& 0x3FFF) + 2) :=
        Or.inr (UInt32.not_le.mp hroom)
      simp only [htype, ne_eq, not_true_eq_false, if_false, if_pos hcount]
      exact ⟨fun h => hroom h.2, rfl, _, rfl⟩
  · right
    simp only [ne_eq, htype, not_false_eq_true, if_true]
    exact ⟨fun h => htype h.1, rfl, _, rfl⟩

/-- An iteration reads for the innermost activation, at most four deep and not at its end. -/
lemma HostMachine.fetch?_eq_some {m : HostMachine} {f : HostFrame} {fetch : Fetch (HostAction × UInt32)}
    (h : m.fetch? = some (f, fetch)) :
    m.status = none ∧ (∃ callers, m.frames = f :: callers ∧ callers.length ≤ 4) ∧ f.i < f.dwords ∧
      fetch = hostFetch f.i f.dwords := by
  unfold HostMachine.fetch? at h
  split at h
  · next f' callers hstatus hframes =>
    split_ifs at h with hgo
    obtain ⟨rfl, rfl⟩ := Prod.mk.inj (Option.some.inj h)
    exact ⟨hstatus, ⟨callers, hframes, hgo.1⟩, hgo.2, rfl⟩
  · cases h

/-- The index of a dword of the reach of a packet does not wrap. -/
lemma toNat_index {n : ℕ} (hfits : f.i.toNat + n ≤ f.dwords.toNat) {j : UInt32} (hj : j.toNat ≤ n) :
    (f.i + j).toNat = f.i.toNat + j.toNat := by
  have hlt := f.dwords.toNat_lt
  rw [UInt32.toNat_add, Nat.mod_eq_of_lt (by omega)]

/-- Where the layout fits, the case of the opcode reads inside the stream. -/
lemma spec_fetchRest {header : UInt32}
    (hfits : f.i.toNat + pm4Reach (pm4Opcode header) (pm4PacketSize header) ≤ f.dwords.toNat)
    (hwrite : pm4Opcode header = paiPm4OpWriteData → 4 ≤ pm4PacketSize header) :
    (f.fetchRest header).Spec (InStream f.dwords) (fun _ => True) HostAction.InBounds := by
  obtain ⟨hcount, hmin, hmax⟩ := toNat_pm4Count header
  rw [← hcount] at hfits hwrite hmin hmax
  have hroom : f.i.toNat + (pm4Count header).toNat ≤ f.dwords.toNat :=
    le_trans (Nat.add_le_add_left (le_pm4Reach _ _) _) hfits
  -- the rest of the packet behind `j` dwords
  have hcopy (j : UInt32) (hj : j.toNat ≤ (pm4Count header).toNat) :
      InStream f.dwords ⟨(), 4 * (f.i + j).toNat, (pm4Count header - j).toNat * 4, false⟩ := by
    have hsub : (pm4Count header - j).toNat = (pm4Count header).toNat - j.toNat :=
      UInt32.toNat_sub_of_le _ _ (UInt32.le_iff_toNat_le.mpr hj)
    refine ⟨?_, rfl⟩
    change 4 * (f.i + j).toNat + (pm4Count header - j).toNat * 4 ≤ _
    rw [toNat_index hroom hj, hsub]
    omega
  refine spec_fetchAction (pm4Opcode header) hmin hmax (fun j hj => ⟨?_, rfl⟩) (hcopy 2 hmin)
    fun hop => hcopy 4 (hwrite hop)
  change 4 * (f.i + j).toNat + 4 ≤ _
  rw [toNat_index hfits hj.le]
  omega

/-- Where the layout fits, an iteration reads inside its stream. -/
lemma HostMachine.LayoutFits.reads {m : HostMachine} (h : m.LayoutFits) :
    ∀ f acc, (f, acc) ∈ m.reads → InStream f.dwords acc := by
  intro f acc hacc
  unfold HostMachine.reads at hacc
  cases hfetch : m.fetch? with
  | none =>
    rw [hfetch] at hacc
    exact absurd hacc List.not_mem_nil
  | some x =>
    obtain ⟨f', fetch⟩ := x
    rw [hfetch] at hacc
    obtain ⟨acc', hmem, heq⟩ := List.mem_map.mp hacc
    obtain ⟨rfl, rfl⟩ := Prod.mk.inj heq
    have hlayout := h f' fetch hfetch
    obtain ⟨-, -, hgo, rfl⟩ := HostMachine.fetch?_eq_some hfetch
    have hi : f'.i.toNat < f'.dwords.toNat := UInt32.lt_iff_toNat_lt.mp hgo
    have hheader : InStream f'.dwords (dwordAccess f'.i) :=
      ⟨by change 4 * f'.i.toNat + 4 ≤ _; omega, rfl⟩
    obtain ⟨haccepts, htrace, -⟩ | ⟨-, htrace, -⟩ := hostFetch_cases m.ref f'
    · rw [htrace] at hmem
      obtain rfl | hmem := List.mem_cons.mp hmem
      · exact hheader
      · exact (spec_fetchRest (hlayout haccepts).1 (hlayout haccepts).2).trace _ _ hmem
    · rw [htrace] at hmem
      obtain rfl := List.mem_singleton.mp hmem
      exact hheader

/-- What a case asks for is in bounds. -/
lemma fetchRest_inBounds {header : UInt32} {action : HostAction}
    (h : ((f.fetchRest header).run (ref.stream f)).1 = .ok action) : action.InBounds := by
  obtain ⟨hcount, hmin, hmax⟩ := toNat_pm4Count header
  rw [← hcount] at hmin hmax
  have hspec : (f.fetchRest header).Spec (fun _ => True) (fun _ => True) HostAction.InBounds :=
    spec_fetchAction _ hmin hmax (fun _ _ => trivial) trivial fun _ => trivial
  have hrun := hspec.run (ref.stream f)
  rw [h] at hrun
  exact hrun

/-- Registers are written inside the bank. -/
lemma HostMachine.action?_inBounds {m : HostMachine} {action : HostAction}
    (h : m.action? = some action) : action.InBounds := by
  unfold HostMachine.action? at h
  cases hfetch : m.fetch? with
  | none =>
    rw [hfetch] at h
    cases h
  | some x =>
    obtain ⟨f, fetch⟩ := x
    rw [hfetch] at h
    simp only at h
    obtain ⟨-, -, -, rfl⟩ := HostMachine.fetch?_eq_some hfetch
    obtain ⟨-, -, hrest⟩ | ⟨-, -, e, herror⟩ := hostFetch_cases m.ref f
    · rw [hrest] at h
      cases haction : ((f.fetchRest (m.ref.word f f.i)).run (m.ref.stream f)).1 with
      | error e =>
        rw [haction] at h
        cases h
      | ok action' =>
        rw [haction] at h
        obtain rfl := Option.some.inj h
        exact fetchRest_inBounds haction
    · rw [herror] at h
      cases h

/-- An action ends the run, or adds at most one activation to those there are. -/
lemma HostMachine.perform_cases (m : HostMachine) {action : HostAction} (h : action.InBounds) :
    (∃ status, (m.perform action).status = some status) ∨
      (m.perform action).status = m.status ∧ ∃ called, (m.perform action).frames = called ++ m.frames ∧
        (called = [] ∨ ∃ ib n, called = [⟨ib, n, 0⟩] ∧ n.toNat ≤ 0xFFFFF) := by
  cases action with
  | dispatch groupX =>
    unfold HostMachine.perform
    simp only
    split_ifs
    · exact Or.inl ⟨_, rfl⟩
    · exact Or.inr ⟨rfl, [], rfl, Or.inl rfl⟩
  | call ib dwords => exact Or.inr ⟨rfl, [⟨ib, dwords, 0⟩], rfl, Or.inr ⟨ib, dwords, rfl, h⟩⟩
  | _ => exact Or.inr ⟨rfl, [], rfl, Or.inl rfl⟩

/-- What an iteration may do to the activations of a run that goes on. -/
lemma HostMachine.step_cases {m : HostMachine} (hstatus : m.status = none) :
    (∃ status, m.step.status = some status) ∨
      ∃ f callers, m.frames = f :: callers ∧ callers.length ≤ 4 ∧ m.step.status = none ∧
        (m.step.frames = callers ∨
          m.fetch? = some (f, hostFetch f.i f.dwords) ∧ f.Accepts (m.ref.word f f.i) ∧
            ∃ called, m.step.frames =
                called ++ { f with i := f.i + pm4Count (m.ref.word f f.i) } :: callers ∧
              (called = [] ∨ ∃ ib n, called = [⟨ib, n, 0⟩] ∧ n.toNat ≤ 0xFFFFF)) := by
  obtain ⟨ref, frames, status⟩ := m
  obtain rfl : status = none := hstatus
  cases frames with
  | nil => exact Or.inl ⟨paiOk, rfl⟩
  | cons f callers =>
    by_cases hdeep : paiHostMaxIbDepth < callers.length
    · left
      refine ⟨paiErrInternal, ?_⟩
      simp only [HostMachine.step, if_pos hdeep]
      rfl
    have hdepth : callers.length ≤ 4 := Nat.not_lt.mp hdeep
    by_cases hgo : f.i < f.dwords
    swap
    · right
      refine ⟨f, callers, rfl, hdepth, ?_, Or.inl ?_⟩ <;>
        simp only [HostMachine.step, if_neg hdeep, if_neg hgo]
    have hfetch : HostMachine.fetch? ⟨ref, f :: callers, none⟩ =
        some (f, hostFetch f.i f.dwords) := if_pos ⟨hdepth, hgo⟩
    have hstep : HostMachine.step ⟨ref, f :: callers, none⟩ =
        match ((hostFetch f.i f.dwords).run (ref.stream f)).1 with
        | .error e => ⟨ref, f :: callers, some e⟩
        | .ok (action, next) =>
          HostMachine.perform ⟨ref, { f with i := next } :: callers, none⟩ action := by
      simp only [HostMachine.step, if_neg hdeep, if_pos hgo]
      rfl
    rw [hstep]
    obtain ⟨haccepts, -, hrest⟩ | ⟨-, -, e, herror⟩ := hostFetch_cases ref f
    swap
    · rw [herror]
      exact Or.inl ⟨e, rfl⟩
    rw [hrest]
    cases haction : ((f.fetchRest (ref.word f f.i)).run (ref.stream f)).1 with
    | error e => exact Or.inl ⟨e, rfl⟩
    | ok action =>
      have hbounds := fetchRest_inBounds haction
      change (∃ status, (HostMachine.perform ⟨ref, _, none⟩ action).status = some status) ∨ _
      obtain hends | ⟨hkeeps, called, hframes, hcalled⟩ :=
        HostMachine.perform_cases
          ⟨ref, { f with i := f.i + pm4Count (ref.word f f.i) } :: callers, none⟩ hbounds
      · exact Or.inl hends
      · exact Or.inr ⟨f, callers, rfl, hdepth, hkeeps,
          Or.inr ⟨hfetch, haccepts, called, hframes, hcalled⟩⟩

end Iterations

/-! ## Runs -/

/-- What one remaining dword counts at a depth. -/
def dwordWeight (depth : ℕ) : ℕ := 1048576 ^ (5 - depth)

/-- The remaining dwords of the activations, each with the weight of its depth, and their returns. -/
def framesWork : List HostFrame → ℕ
  | [] => 0
  | f :: callers =>
    (f.dwords.toNat - f.i.toNat) * dwordWeight callers.length + 1 + framesWork callers

/-- A number that falls with every iteration. -/
def HostMachine.work (m : HostMachine) : ℕ :=
  match m.status with
  | some _ => 0
  | none => framesWork m.frames + 1

lemma dwordWeight_pos (depth : ℕ) : 0 < dwordWeight depth := Nat.pow_pos (by decide)

lemma dwordWeight_succ {depth : ℕ} (h : depth ≤ 4) :
    dwordWeight depth = 1048576 * dwordWeight (depth + 1) := by
  unfold dwordWeight
  rw [show 5 - depth = (5 - (depth + 1)) + 1 by omega, pow_succ, Nat.mul_comm]

/-- Where the layout fits, an iteration does some of the work. -/
lemma HostMachine.LayoutFits.work_lt {m : HostMachine} (h : m.LayoutFits) (hstatus : m.status = none) :
    m.step.work < m.work := by
  have hwork : m.work = framesWork m.frames + 1 := by rw [HostMachine.work, hstatus]
  rw [hwork]
  obtain ⟨status, hends⟩ | ⟨f, callers, hframes, hdepth, hgoes, hcases⟩ := m.step_cases hstatus
  · rw [HostMachine.work, hends]
    exact Nat.succ_pos _
  rw [HostMachine.work, hgoes, hframes, framesWork]
  simp only
  obtain hreturn | ⟨hfetch, haccepts, called, hcall, hcalled⟩ := hcases
  · rw [hreturn]
    omega
  -- the packet takes at least two dwords of the stream
  obtain ⟨hcount, hmin, -⟩ := toNat_pm4Count (m.ref.word f f.i)
  have hreach := le_pm4Reach (pm4Opcode (m.ref.word f f.i)) (pm4PacketSize (m.ref.word f f.i))
  have hfits := (h f _ hfetch haccepts).1
  have hnext : (f.i + pm4Count (m.ref.word f f.i)).toNat =
      f.i.toNat + pm4PacketSize (m.ref.word f f.i) := by
    rw [toNat_index hfits (hcount.le.trans hreach), hcount]
  have hrest : (f.dwords.toNat - (f.i + pm4Count (m.ref.word f f.i)).toNat) + 2 ≤
      f.dwords.toNat - f.i.toNat := by
    rw [hnext]
    omega
  have hmul := Nat.mul_le_mul_right (dwordWeight callers.length) hrest
  rw [Nat.add_mul] at hmul
  have hpos := dwordWeight_pos callers.length
  rw [hcall]
  obtain rfl | ⟨ib, n, rfl, hn⟩ := hcalled
  · rw [List.nil_append, framesWork]
    simp only
    omega
  · rw [List.singleton_append, framesWork, framesWork, List.length_cons]
    have hstream : n.toNat * dwordWeight (callers.length + 1) + 1 ≤ dwordWeight callers.length := by
      rw [dwordWeight_succ hdepth]
      have hle := Nat.mul_le_mul_right (dwordWeight (callers.length + 1)) hn
      have hweight := dwordWeight_pos (callers.length + 1)
      omega
    have hzero : (0 : UInt32).toNat = 0 := rfl
    simp only [hzero, Nat.sub_zero]
    omega

/-- Where the layout fits at every packet that the run gets to, the run is safe. -/
lemma streamSafe_of_layoutFits {m : HostMachine}
    (h : ∀ k, (HostMachine.step^[k] m).LayoutFits) : StreamSafe m where
  reads k := (h k).reads
  writes k start values haction := HostMachine.action?_inBounds haction
  returns := by
    refine halts_of_measure (fun m => ∃ status, m.status = some status) HostMachine.work
      fun k hgoes => ?_
    rw [Function.iterate_succ_apply']
    refine (h k).work_lt ?_
    cases hstatus : (HostMachine.step^[k] m).status with
    | none => rfl
    | some status => exact absurd ⟨status, hstatus⟩ hgoes

/-! ## The condition is needed -/

/-- A release reads the last of its three dwords. -/
lemma mem_trace_fetchRelease (a b c : UInt32) (mem : Memory Unit) :
    dwordAccess c ∈ (fetchRelease a b c).trace mem :=
  List.mem_cons_of_mem _ (List.mem_cons_of_mem _ List.mem_cons_self)

/-- A case that reads inside its stream has its layout there, where the indices do not wrap. -/
lemma reach_le_of_reads {f : HostFrame} {header : UInt32} (mem : Memory Unit)
    (hlen : f.i.toNat + 16385 < 4294967296) (haccepts : f.Accepts header)
    (hreads : ∀ acc ∈ (f.fetchRest header).trace mem, InStream f.dwords acc) :
    f.i.toNat + pm4Reach (pm4Opcode header) (pm4PacketSize header) ≤ f.dwords.toNat ∧
      (pm4Opcode header = paiPm4OpWriteData → 4 ≤ pm4PacketSize header) := by
  obtain ⟨hcount, hmin, hmax⟩ := toNat_pm4Count header
  have hsmall (j : UInt32) (hj : j.toNat ≤ 16385) : (f.i + j).toNat = f.i.toNat + j.toNat := by
    rw [UInt32.toNat_add, Nat.mod_eq_of_lt (by omega)]
  have hroom : f.i.toNat + pm4PacketSize header ≤ f.dwords.toNat := by
    have hle := UInt32.le_iff_toNat_le.mp haccepts.2
    rwa [hsmall _ (by omega), hcount] at hle
  -- a dword that is read is inside
  have hdword (j : UInt32) (hj : j.toNat ≤ 16385)
      (hmem : dwordAccess (f.i + j) ∈ (f.fetchRest header).trace mem) :
      f.i.toNat + j.toNat + 1 ≤ f.dwords.toNat := by
    have hle := (hreads _ hmem).1
    change 4 * (f.i + j).toNat + 4 ≤ _ at hle
    rw [hsmall j hj] at hle
    omega
  unfold HostFrame.fetchRest at hdword hreads
  by_cases hwrite : pm4Opcode header = paiPm4OpWriteData
  · rw [hwrite] at hreads ⊢
    have hfour : 4 ≤ pm4PacketSize header := by
      by_contra hshort
      -- the number of dwords wraps, and the copy is longer than any stream
      have hwrap : 4294967294 ≤ (pm4Count header - 4).toNat := by
        rw [UInt32.toNat_sub, hcount]
        change 4294967294 ≤ (4294967296 - 4 + pm4PacketSize header) % 4294967296
        omega
      have hcopy : (⟨(), 4 * (f.i + 4).toNat, (pm4Count header - 4).toNat * 4, false⟩ : Access Unit) ∈
          (fetchAction paiPm4OpWriteData f.i (pm4Count header)).trace mem :=
        List.mem_cons_of_mem _ (List.mem_cons_of_mem _ List.mem_cons_self)
      have hle := (hreads _ hcopy).1
      have hi := hsmall 4 (by decide)
      change 4 * (f.i + 4).toNat + (pm4Count header - 4).toNat * 4 ≤ _ at hle
      change (f.i + 4).toNat = f.i.toNat + 4 at hi
      have hdwords := f.dwords.toNat_lt
      omega
    refine ⟨?_, fun _ => hfour⟩
    rw [pm4Reach, if_neg (by decide), if_pos rfl, max_eq_left hfour]
    exact hroom
  refine ⟨?_, fun h => absurd h hwrite⟩
  unfold pm4Reach
  split_ifs with hrelease hdma hib
  · rw [hrelease] at hdword
    by_cases hlong : 8 ≤ pm4PacketSize header
    · rw [max_eq_left (by omega)]
      exact hroom
    · have hfive := hdword 4 (by decide) (by
        change _ ∈ (fetchReleaseMem f.i (pm4Count header)).trace mem
        rw [fetchReleaseMem, if_neg (by
          rw [UInt32.le_iff_toNat_le, hcount]
          exact hlong)]
        exact mem_trace_fetchRelease _ _ _ _)
      change f.i.toNat + 4 + 1 ≤ _ at hfive
      omega
  · rw [hdma] at hdword
    have hseven := hdword 6 (by decide) (List.mem_cons_of_mem _ (List.mem_cons_of_mem _
      (List.mem_cons_of_mem _ (List.mem_cons_of_mem _ List.mem_cons_self))))
    change f.i.toNat + 6 + 1 ≤ _ at hseven
    omega
  · rw [hib] at hdword
    have hfour := hdword 3 (by decide) (List.mem_cons_of_mem _ (List.mem_cons_of_mem _
      List.mem_cons_self))
    change f.i.toNat + 3 + 1 ≤ _ at hfour
    omega
  · exact hroom

/-- Streams short enough for their indices not to wrap. -/
def HostMachine.Short (m : HostMachine) : Prop :=
  m.status = none → ∀ f ∈ m.frames, f.dwords.toNat ≤ 0xFFFFBFFF

/-- Streams stay short: the length of an indirect buffer has twenty bits. -/
lemma HostMachine.Short.step {m : HostMachine} (h : m.Short) : m.step.Short := by
  cases hstatus : m.status with
  | some status =>
    rw [step_of_status ⟨status, hstatus⟩]
    exact h
  | none =>
    obtain ⟨status, hends⟩ | ⟨f, callers, hframes, -, hgoes, hcases⟩ := m.step_cases hstatus
    · intro hnone
      rw [hends] at hnone
      cases hnone
    intro _ g hg
    have hold := h hstatus
    rw [hframes] at hold
    obtain hreturn | ⟨-, -, called, hcall, hcalled⟩ := hcases
    · rw [hreturn] at hg
      exact hold g (List.mem_cons_of_mem f hg)
    rw [hcall] at hg
    obtain hg | hg := List.mem_append.mp hg
    · obtain rfl | ⟨ib, n, rfl, hn⟩ := hcalled
      · exact absurd hg List.not_mem_nil
      · rw [List.mem_singleton.mp hg]
        exact hn.trans (by decide)
    · obtain rfl | hg := List.mem_cons.mp hg
      · exact hold f List.mem_cons_self
      · exact hold g (List.mem_cons_of_mem f hg)

/-- An iteration that reads inside its stream has its layout there. -/
lemma layoutFits_of_reads {m : HostMachine} (hshort : m.Short)
    (hreads : ∀ f acc, (f, acc) ∈ m.reads → InStream f.dwords acc) : m.LayoutFits := by
  intro f fetch hfetch haccepts
  obtain ⟨hstatus, ⟨callers, hframes, -⟩, hgo, rfl⟩ := HostMachine.fetch?_eq_some hfetch
  have hlen := hshort hstatus f (hframes ▸ List.mem_cons_self)
  have hi := UInt32.lt_iff_toNat_lt.mp hgo
  obtain ⟨-, htrace, -⟩ | ⟨hnot, -, -⟩ := hostFetch_cases m.ref f
  · refine reach_le_of_reads (m.ref.stream f) (by omega) haccepts fun acc hacc => ?_
    refine hreads f acc ?_
    unfold HostMachine.reads
    rw [hfetch]
    exact List.mem_map_of_mem (by rw [htrace]; exact List.mem_cons_of_mem _ hacc)
  · exact absurd haccepts hnot

/-! ## The interpreter and the builder -/

/-- A stream that performs some calls returns `PAI_OK` with their effects exactly when each call that is
executed is one the interpreter knows.  Any stream is run safely when the layout of every packet that the run
gets to fits, and, where the stream is too short for an index to wrap, only then. -/
theorem paiHostRunStream_iff (ref ref' : HostRef) (pm4 : UInt64) (dwords : UInt32)
    (calls executed : List Pm4Call) :
    (Performs 0 pm4.toNat calls executed ref ref' → pm4StreamSize calls = dwords.toNat →
      (HostReturns (paiHostRunStream ref pm4 dwords) paiOk ref' ↔
        ∀ call ∈ executed, call.Supported)) ∧
    ((∀ k, (HostMachine.step^[k] (paiHostRunStream ref pm4 dwords)).LayoutFits) →
      StreamSafe (paiHostRunStream ref pm4 dwords)) ∧
    (dwords ≤ 0xFFFFBFFF → StreamSafe (paiHostRunStream ref pm4 dwords) →
      ∀ k, (HostMachine.step^[k] (paiHostRunStream ref pm4 dwords)).LayoutFits) := by
  refine ⟨fun h hsize => h.returns_iff hsize, streamSafe_of_layoutFits, fun hlen hsafe k => ?_⟩
  have hstart : (paiHostRunStream ref pm4 dwords).Short := by
    intro _ f hf
    rw [List.mem_singleton.mp hf]
    exact UInt32.le_iff_toNat_le.mp hlen
  exact layoutFits_of_reads
    (invariant_iterate (I := HostMachine.Short) (fun _ h => HostMachine.Short.step h) hstart k)
    (hsafe.reads k)

/-- The memory with some dwords at address 4096. -/
def memoryWith (words : List UInt32) : HostMemory :=
  HostMemory.put (fun _ => 0) 4096 (dwordBytes words)

/-- An interpreter without shaders in front of some dwords. -/
def refWith (words : List UInt32) : HostRef := ⟨fun _ => 0, [], memoryWith words⟩

/-- The packet of a fence that writes `0x1234` to address 8192. -/
def sampleFence : List UInt32 := [0xC0064900, 0x06703514, 0x20000000, 8192, 0, 0x1234, 0, 0]

/-- The fence is written, and the run is safe. -/
theorem paiHostRunStream_iff_fence :
    HostReturns (paiHostRunStream (refWith sampleFence) 4096 8) paiOk
        { refWith sampleFence with
          mem := (memoryWith sampleFence).put 8192 (ByteString.leBytes 4 0x1234) } ∧
      StreamSafe (paiHostRunStream (refWith sampleFence) 4096 8) := by
  have hwrites : (Pm4Call.releaseMemEopFence 8192 0x1234).Writes sampleFence :=
    ⟨paiPm4BuilderInit (fun _ => 0) 64, _, _, UInt32.le_iff_toNat_le.mpr (Nat.zero_le _), rfl,
      by decide⟩
  have hholds : (refWith sampleFence).mem.Holds 4096 sampleFence := by
    unfold HostMemory.Holds
    decide +kernel
  have hdomain : (Pm4Call.releaseMemEopFence 8192 0x1234).InDomain := ⟨by decide, by decide⟩
  have hperforms : Performs 0 4096 [.releaseMemEopFence 8192 0x1234] [.releaseMemEopFence 8192 0x1234]
      (refWith sampleFence) _ :=
    .call hwrites hholds hdomain (fun _ _ h => by cases h) rfl (.done _ _ _)
  have hon : OnPacket (refWith sampleFence) ⟨4096, 8, 0⟩ sampleFence := ⟨hholds, by decide⟩
  have hfirst : HostMachine.step ⟨refWith sampleFence, [⟨4096, 8, 0⟩], none⟩ = _ :=
    hwrites.step_eq trivial hdomain (Nat.zero_le _) hon
  rw [Pm4Call.perform_action _ rfl hdomain (fun _ _ h => by cases h)] at hfirst
  have hheader : (refWith sampleFence).word ⟨4096, 8, 0⟩ 0 = 0xC0064900 := by decide +kernel
  -- after the packet nothing is fetched any more
  have hnone {m : HostMachine} (h : m.fetch? = none) : m.LayoutFits := by
    intro f fetch hfetch
    rw [h] at hfetch
    cases hfetch
  refine ⟨((paiHostRunStream_iff _ _ 4096 8 _ _).1 hperforms (by decide)).mpr
      fun call hcall => List.mem_singleton.mp hcall ▸ trivial,
    (paiHostRunStream_iff _ (refWith sampleFence) 4096 8 [] []).2.1 fun k => ?_⟩
  match k with
  | 0 =>
    intro f fetch hfetch _
    obtain rfl : (⟨4096, 8, 0⟩ : HostFrame) = f := congrArg Prod.fst (Option.some.inj hfetch)
    change 0 + pm4Reach (pm4Opcode ((refWith sampleFence).word ⟨4096, 8, 0⟩ 0))
      (pm4PacketSize ((refWith sampleFence).word ⟨4096, 8, 0⟩ 0)) ≤ 8 ∧ _
    change _ ∧ (pm4Opcode ((refWith sampleFence).word ⟨4096, 8, 0⟩ 0) = paiPm4OpWriteData →
      4 ≤ pm4PacketSize ((refWith sampleFence).word ⟨4096, 8, 0⟩ 0))
    rw [hheader]
    exact ⟨by decide, fun h => absurd h (by decide)⟩
  | k + 1 =>
    rw [Function.iterate_succ_apply]
    change (HostMachine.step^[k]
      (HostMachine.step ⟨refWith sampleFence, [⟨4096, 8, 0⟩], none⟩)).LayoutFits
    rw [hfirst]
    match k with
    | 0 => exact hnone rfl
    | 1 => exact hnone rfl
    | k + 2 =>
      rw [Function.iterate_succ_apply, Function.iterate_succ_apply,
        @iterate_halted HostMachine HostMachine.step (fun m => ∃ status, m.status = some status) _
          (fun _ => step_of_status) ⟨paiOk, rfl⟩ k]
      exact hnone rfl

/-- `ACQUIRE_MEM` is a packet of the builder that the interpreter refuses, and a `RELEASE_MEM` of two dwords
makes it read behind the end of the stream. -/
theorem paiHostRunStream_fails :
    (∃ ref pm4 dwords, Performs 0 pm4.toNat [.acquireMem] [.acquireMem] ref ref ∧
        pm4StreamSize [.acquireMem] = dwords.toNat ∧
        ¬ HostReturns (paiHostRunStream ref pm4 dwords) paiOk ref) ∧
      ∃ ref pm4 dwords, ¬ StreamSafe (paiHostRunStream ref pm4 dwords) := by
  constructor
  · have hwrites : Pm4Call.acquireMem.Writes
        [0xC0065800, 0, 0xFFFFFFFF, 0x00FFFFFF, 0, 0, 0x0A, 0xC3B1] :=
      ⟨paiPm4BuilderInit (fun _ => 0) 64, _, _, UInt32.le_iff_toNat_le.mpr (Nat.zero_le _), rfl,
      by decide⟩
    have hholds : (refWith [0xC0065800, 0, 0xFFFFFFFF, 0x00FFFFFF, 0, 0, 0x0A, 0xC3B1]).mem.Holds 4096
        [0xC0065800, 0, 0xFFFFFFFF, 0x00FFFFFF, 0, 0, 0x0A, 0xC3B1] := by
      unfold HostMemory.Holds
      decide +kernel
    have hperforms : Performs 0 4096 [.acquireMem] [.acquireMem]
        (refWith [0xC0065800, 0, 0xFFFFFFFF, 0x00FFFFFF, 0, 0, 0x0A, 0xC3B1]) _ :=
      .call hwrites hholds trivial (fun _ _ h => by cases h) rfl (.done _ _ _)
    refine ⟨_, 4096, 8, hperforms, rfl, fun hreturns => ?_⟩
    exact (@Performs.returns_iff 4096 8 _ _ _ _ hperforms rfl).mp hreturns _ List.mem_cons_self
  · refine ⟨refWith [0xC0004900, 0], 4096, 2, fun hsafe => ?_⟩
    have hshort : (paiHostRunStream (refWith [0xC0004900, 0]) 4096 2).Short := by
      intro _ f hf
      rw [List.mem_singleton.mp hf]
      decide
    have hheader : (refWith [0xC0004900, 0]).word ⟨4096, 2, 0⟩ 0 = 0xC0004900 := by decide +kernel
    have haccepts : (⟨4096, 2, 0⟩ : HostFrame).Accepts
        ((refWith [0xC0004900, 0]).word ⟨4096, 2, 0⟩ 0) := by
      rw [hheader]
      exact ⟨by decide, by decide⟩
    have hfits : 0 + pm4Reach (pm4Opcode ((refWith [0xC0004900, 0]).word ⟨4096, 2, 0⟩ 0))
        (pm4PacketSize ((refWith [0xC0004900, 0]).word ⟨4096, 2, 0⟩ 0)) ≤ 2 :=
      (layoutFits_of_reads hshort (hsafe.reads 0) ⟨4096, 2, 0⟩ _ rfl haccepts).1
    rw [hheader] at hfits
    exact absurd hfits (by decide)

end Prospero
