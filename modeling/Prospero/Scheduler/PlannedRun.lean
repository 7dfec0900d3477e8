import Prospero.Lib.SharedStore
import Prospero.Scheduler.StepOrder

/-!
# Runs in the planned region

The ops of a schedule, each with any meaning as a function of the contents of its inputs, run in the one region
at the offsets of the memory plan.  Every value that still matters is where a run with private buffers has it
(`Graph.sharing`), so the outputs are the same; and under the persistent plan the values that no op produces
are still there behind the run, for the next one.

### Outline

* `sweepInRange_of_room`: no extension of the region wraps when sizes and alignments are small enough.
* `Graph.sharing`: the lifetimes are long enough and the places apart.
* `ordered_run_outputs`, `ordered_run_keeps`: what the region holds behind a run of the ops by their epochs.
* `planned_run_outputs`, `planned_run_keeps`, `planned_run_agree`: the same for the steps of a schedule.
-/

namespace Prospero

open SharedStore

/-! ## Plans within range -/

/-- Sizes and alignments of all requests together. -/
def roomNeeded (allocs : List MemAlloc) : ℕ := (allocs.map fun a => a.size.toNat + a.align.toNat).sum

/-- An extension of the region moves the cursor by the size and less than the alignment. -/
lemma placeTail_cursor_le {s : Sweep} {a : MemAlloc} {r : Sweep × UInt64} (hpow : paiMemIsPow2 a.align = true)
    (hrange : AlignInRange s.cursor a.align) (h : placeTail s a = some r) :
    r.1.cursor.toNat ≤ s.cursor.toNat + (a.size.toNat + a.align.toNat) := by
  unfold placeTail at h
  simp only at h
  split_ifs at h with hfull
  obtain rfl := Option.some.inj h
  obtain ⟨-, -, hlt⟩ := paiMemAlignUp_of_inRange hpow hrange
  have hmod : (paiMemAlignUp s.cursor a.align + a.size).toNat ≤
      (paiMemAlignUp s.cursor a.align).toNat + a.size.toNat := by
    rw [UInt64.toNat_add]
    exact Nat.mod_le _ _
  dsimp only
  omega

lemma sweepStep_cursor_le {s s' : Sweep} {e : SortEntry} (hpow : paiMemIsPow2 e.alloc.align = true)
    (hrange : AlignInRange s.cursor e.alloc.align) (h : sweepStep s e = some s') :
    s'.cursor.toNat ≤ s.cursor.toNat + (e.alloc.size.toNat + e.alloc.align.toNat) := by
  unfold sweepStep at h
  simp only at h
  split at h
  · obtain ⟨r, hr, rfl⟩ := Option.map_eq_some_iff.mp h
    have hle := placeTail_cursor_le hpow (by exact hrange) hr
    exact hle
  · have hcursor : (releaseExpired (s.tally e.alloc) e.alloc.start).cursor = s.cursor :=
      (releaseFrom_frame _ _ _ _).1
    split at h
    · obtain rfl := Option.some.inj h
      change (releaseExpired (s.tally e.alloc) e.alloc.start).cursor.toNat ≤ _
      rw [hcursor]
      exact Nat.le_add_right _ _
    · obtain ⟨r, hr, rfl⟩ := Option.map_eq_some_iff.mp h
      rw [← hcursor] at hrange ⊢
      exact placeTail_cursor_le hpow hrange hr

/-- A sweep whose requests all fit behind one another extends the region within range. -/
lemma sweepInRange_of_room {s : Sweep} {sorted : List SortEntry}
    (hvalid : ∀ e ∈ sorted, e.alloc.Valid)
    (hroom : s.cursor.toNat + roomNeeded (sorted.map SortEntry.alloc) < 0x10000000000000000) :
    SweepInRange s sorted := by
  induction sorted generalizing s with
  | nil => trivial
  | cons e rest ih =>
    rw [List.forall_mem_cons] at hvalid
    obtain ⟨hsize, hpow, -, -⟩ := hvalid.1
    obtain ⟨k, -, halign⟩ := paiMemIsPow2_iff.mp hpow
    have hpos : 0 < e.alloc.align.toNat := halign ▸ Nat.two_pow_pos k
    rw [List.map_cons, roomNeeded, List.map_cons, List.sum_cons] at hroom
    change _ + (_ + roomNeeded (rest.map SortEntry.alloc)) < _ at hroom
    have hrange : AlignInRange s.cursor e.alloc.align := by
      unfold AlignInRange
      omega
    refine ⟨fun _ => hrange, ?_⟩
    cases hstep : sweepStep s e with
    | none => trivial
    | some s' =>
      refine ih hvalid.2 ?_
      have hcursor := sweepStep_cursor_le hpow hrange hstep
      omega

/-! ## Places -/

/-- Where a plan puts a value. -/
def Graph.placeOf (graph : Graph) (memPlan : GraphMemPlan) (v : ℕ) : Extent :=
  ⟨valuePtr memPlan v, (graph.valueAt v).sizeBytes.toNat⟩

/-- The values fit behind one another with their alignments. -/
def Graph.Roomy (graph : Graph) : Prop :=
  (graph.values.map fun v => v.sizeBytes.toNat + v.align.toNat).sum < 0x10000000000000000

/-- The request for a value. -/
def Graph.request (graph : Graph) (persistent : Bool) (v : ℕ) : MemAlloc :=
  ⟨(graph.valueAt v).sizeBytes, (graph.valueAt v).align, UInt64.ofNat (graph.lifeStart v),
    UInt64.ofNat (graph.lifeStop persistent v), false⟩

section Plan

variable {qsort : Planner → List SortEntry} {graph : Graph} {persistent : Bool} {memPlan : GraphMemPlan}

lemma Graph.valueAt_of_getElem? {i : ℕ} {value : GraphValue} (h : graph.values[i]? = some value) :
    graph.valueAt (i + 1) = value := by
  rw [Graph.valueAt, Graph.value?, if_neg (Nat.succ_ne_zero i), Nat.add_sub_cancel, h]
  rfl

/-- The requests in the planner. -/
lemma Graph.planner_requests {planner : Planner} (h : graph.planner persistent = .ok planner) :
    planner.allocs.length = graph.values.length ∧ (∀ a ∈ planner.allocs, a.Valid) ∧
      roomNeeded planner.allocs = (graph.values.map fun v => v.sizeBytes.toNat + v.align.toNat).sum ∧
      ∀ i < graph.values.length, planner.allocs[i]? = some (graph.request persistent (i + 1)) := by
  obtain ⟨hallocs, -, hvalid⟩ := addRequests_ok h fun a ha => absurd ha List.not_mem_nil
  rw [show paiMemPlannerInit.allocs = [] from rfl, List.nil_append] at hallocs
  refine ⟨?_, hvalid, ?_, fun i hi => ?_⟩
  · rw [hallocs, List.length_map, List.length_zipIdx]
  · have hvalues : graph.values = (graph.values.zipIdx 1).map Prod.fst := (List.zipIdx_map_fst 1 _).symm
    rw [hallocs, roomNeeded, List.map_map]
    conv_rhs => rw [hvalues, List.map_map]
    rfl
  · obtain ⟨value, hvalue⟩ : ∃ value, graph.values[i]? = some value := ⟨_, List.getElem?_eq_getElem hi⟩
    rw [hallocs, List.getElem?_map, List.getElem?_zipIdx, hvalue, Graph.request,
      Graph.valueAt_of_getElem? hvalue]
    simp only [Option.map_some, Nat.add_comm 1 i]
    rfl

/-- When the values fit behind one another, every extension of the sweep is within range. -/
lemma Graph.Roomy.inRange (hroomy : graph.Roomy)
    (hqsort : ∀ planner, graph.planner persistent = .ok planner → IsQsorted planner (qsort planner))
    (planner : Planner) (hplanner : graph.planner persistent = .ok planner) :
    SweepInRange Sweep.init (qsort planner) := by
  obtain ⟨-, hvalid, hneeded, -⟩ := Graph.planner_requests hplanner
  have hsorted := hqsort planner hplanner
  refine sweepInRange_of_room (fun e he => hvalid _ (hsorted.nodup.2 e he)) ?_
  have hperm : ((qsort planner).map SortEntry.alloc).Perm planner.allocs := by
    have hall : (sortEntries planner).map SortEntry.alloc = planner.allocs := by
      rw [sortEntries, List.map_map]
      exact List.zipIdx_map_fst 0 planner.allocs
    rw [← hall]
    exact hsorted.1.map _
  rw [roomNeeded, (hperm.map _).sum_eq]
  change 0 + roomNeeded planner.allocs < _
  rw [Nat.zero_add, hneeded]
  exact hroomy

/-- The offsets of a plan are those of a sweep over the requests. -/
lemma graphMemoryPlanImpl_offsets {graph₀ : Graph}
    (h : graphMemoryPlanImpl qsort graph₀ persistent = (graph, .ok memPlan)) (hops : graph.values ≠ []) :
    ∃ planner s, graph.planner persistent = .ok planner ∧ sweep Sweep.init (qsort planner) = some s ∧
      ∀ i < graph.values.length, memPlan.offsets (i + 1) = s.offsets i := by
  unfold graphMemoryPlanImpl at h
  simp only at h
  split_ifs at h with hst
  · cases h
  obtain ⟨rfl, hplan⟩ := Prod.mk.inj h
  unfold graphPlanSorted at hplan
  split at hplan
  · cases hplan
  next planner hplanner =>
  split at hplan
  · cases hplan
  next base hbase =>
  obtain rfl := Except.ok.inj hplan
  have hlen := (Graph.planner_requests hplanner).1
  unfold paiMemPlanBuild at hbase
  split_ifs at hbase with hempty
  · rw [hempty] at hlen
    exact absurd (List.length_eq_zero_iff.mp hlen.symm) hops
  cases hsweep : sweep Sweep.init (qsort planner) with
  | none =>
    rw [hsweep] at hbase
    cases hbase
  | some s =>
    rw [hsweep] at hbase
    obtain rfl := Except.ok.inj hbase
    refine ⟨planner, s, hplanner, hsweep, fun i hi => ?_⟩
    dsimp only
    rw [if_neg (by omega), Nat.add_sub_cancel]
    rfl

/-- The planner refuses empty lifetimes. -/
lemma Graph.request_life {graph₀ : Graph}
    (h : graphMemoryPlanImpl qsort graph₀ persistent = (graph, .ok memPlan)) {v : ℕ}
    (hv : 1 ≤ v ∧ v ≤ graph.values.length) :
    (UInt64.ofNat (graph.lifeStart v)).toNat < (UInt64.ofNat (graph.lifeStop persistent v)).toNat := by
  obtain ⟨planner, -, hplanner, -⟩ := graphMemoryPlanImpl_offsets h (List.ne_nil_of_length_pos (by omega))
  obtain ⟨-, hvalid, -, hrequest⟩ := Graph.planner_requests hplanner
  have hget := hrequest (v - 1) (by omega)
  rw [show v - 1 + 1 = v by omega] at hget
  exact (hvalid _ (List.mem_of_getElem? hget)).start_lt

/-- Epochs fit a word. -/
lemma Graph.Built.ofNat_epoch (hbuilt : graph.Built) {n : ℕ} (hn : n ≤ graph.ops.length) :
    (UInt64.ofNat n).toNat = n :=
  UInt64.toNat_ofNat_of_lt' (lt_of_le_of_lt (hn.trans hbuilt.ops_le) (by decide))

/-- Two values that are live together have places apart. -/
lemma Graph.places_apart {graph₀ : Graph} (hbuilt : graph.Built) (hfit : graph.EpochsFit)
    (hplan : graphMemoryPlanImpl qsort graph₀ persistent = (graph, .ok memPlan))
    (hqsort : ∀ planner, graph.planner persistent = .ok planner → IsQsorted planner (qsort planner))
    (hrange : ∀ planner, graph.planner persistent = .ok planner → SweepInRange Sweep.init (qsort planner))
    (hops : graph.ops ≠ []) {u v : ℕ} (hne : u ≠ v)
    (hu : 1 ≤ u ∧ u ≤ graph.values.length) (hv : 1 ≤ v ∧ v ≤ graph.values.length)
    (huv : graph.lifeStart u < graph.lifeStop persistent v)
    (hvu : graph.lifeStart v < graph.lifeStop persistent u) :
    (graph.placeOf memPlan u).Apart (graph.placeOf memPlan v) := by
  have hvalues : graph.values ≠ [] := List.ne_nil_of_length_pos (by omega)
  obtain ⟨planner, s, hplanner, hsweep, hoffsets⟩ := graphMemoryPlanImpl_offsets hplan hvalues
  obtain ⟨-, hvalid, -, hrequest⟩ := Graph.planner_requests hplanner
  have hsorted := hqsort planner hplanner
  have hlife (w : ℕ) := hfit.life_le hops persistent w
  have hreq (w : ℕ) (hw : 1 ≤ w ∧ w ≤ graph.values.length) :
      planner.allocs[w - 1]? = some (graph.request persistent w) := by
    have hget := hrequest (w - 1) (by omega)
    rwa [show w - 1 + 1 = w by omega] at hget
  have hplace (w : ℕ) (hw : 1 ≤ w ∧ w ≤ graph.values.length) :
      (graph.request persistent w).extentAt (s.offsets (w - 1)) = graph.placeOf memPlan w := by
    have hoff := hoffsets (w - 1) (by omega)
    have hmax := hbuilt.values_le
    rw [show w - 1 + 1 = w by omega] at hoff
    rw [Graph.placeOf, valuePtr, paiGraphMemPlanOffset, if_neg (by omega), hoff]
    rfl
  have hapart := (sweep_sound hvalid hsorted (hrange planner hplanner) hsweep).2 (u - 1) (v - 1) _ _ (by omega)
    (hreq u hu) (hreq v hv) (Or.inl ⟨?_, ?_⟩)
  · rwa [hplace u hu, hplace v hv] at hapart
  · change (UInt64.ofNat _).toNat < (UInt64.ofNat _).toNat
    rwa [hbuilt.ofNat_epoch (hlife u).1.le, hbuilt.ofNat_epoch (hlife v).2]
  · change (UInt64.ofNat _).toNat < (UInt64.ofNat _).toNat
    rwa [hbuilt.ofNat_epoch (hlife v).1.le, hbuilt.ofNat_epoch (hlife u).2]

end Plan

/-! ## Programs -/

section Programs

variable {ε : Type}

/-- What each op does: its outcome as a function of the contents of its inputs. -/
abbrev OpMeaning (ε : Type) := ℕ → List Content → StepEffect ε

/-- A step of a schedule as a step over buffers. -/
def Graph.bufferStep (graph : Graph) (meaning : OpMeaning ε) (step : SchedStep) : Step ℕ ε :=
  ⟨((graph.op? step.opId).map GraphOp.inputs).getD [], ((graph.op? step.opId).map GraphOp.outputs).getD [],
    meaning step.opId⟩

/-- The steps of a schedule in their order. -/
def SchedPlan.program (plan : SchedPlan) (graph : Graph) (meaning : OpMeaning ε) : List (Step ℕ ε) :=
  plan.steps.map (graph.bufferStep meaning)

/-- Ops, by their ids, as steps over buffers. -/
def Graph.opProgram (graph : Graph) (meaning : OpMeaning ε) (ids : List ℕ) : List (Step ℕ ε) :=
  ids.map fun o => ⟨((graph.op? o).map GraphOp.inputs).getD [], ((graph.op? o).map GraphOp.outputs).getD [],
    meaning o⟩

lemma SchedPlan.program_eq (plan : SchedPlan) (graph : Graph) (meaning : OpMeaning ε) :
    plan.program graph meaning = graph.opProgram meaning (plan.steps.map SchedStep.opId) := by
  rw [SchedPlan.program, Graph.opProgram, List.map_map]
  rfl

/-- The ops of a graph, one for each epoch. -/
structure Graph.InEpochOrder (graph : Graph) (ids : List ℕ) : Prop where
  /-- Every op is listed. -/
  length_eq : ids.length = graph.ops.length
  /-- The op in position `s` has epoch `s`. -/
  epoch : ∀ s o, ids[s]? = some o → ∃ op, graph.op? o = some op ∧ op.epoch = s

/-- The ops by their epochs. -/
def Graph.epochProgram (graph : Graph) (meaning : OpMeaning ε) : List (Step ℕ ε) :=
  graph.opProgram meaning ((List.range graph.ops.length).map graph.opAtEpoch)

lemma Graph.Ordered.inEpochOrder {graph : Graph} (h : graph.Ordered) (hfit : graph.EpochsFit) :
    graph.InEpochOrder ((List.range graph.ops.length).map graph.opAtEpoch) := by
  refine ⟨by rw [List.length_map, List.length_range], fun s o hget => ?_⟩
  rw [List.getElem?_map] at hget
  obtain ⟨t, ht, rfl⟩ := Option.map_eq_some_iff.mp hget
  obtain ⟨hlt, rfl⟩ := List.getElem?_eq_some_iff.mp ht
  rw [List.length_range] at hlt
  rw [List.getElem_range]
  obtain ⟨o, ho, hepoch⟩ := h.exists_epoch hfit hlt
  obtain ⟨op, hop⟩ := Graph.mem_opIds_iff_op?.mp ho
  rw [← hepoch, h.opAtEpoch_epoch ho]
  exact ⟨op, hop, (Graph.epoch_eq hop).symm⟩

/-- The value matters before step `s`: it is there, and its lifetime goes on. -/
def Graph.live (graph : Graph) (persistent : Bool) (s v : ℕ) : Prop :=
  1 ≤ v ∧ v ≤ graph.values.length ∧ (graph.producer v = 0 ∨ graph.lifeStart v < s) ∧
    s ≤ graph.lifeStop persistent v

end Programs

/-! ## Sharing -/

section Sharing

variable {ε : Type} {qsort : Planner → List SortEntry} {graph graph₀ : Graph} {persistent : Bool}
  {memPlan : GraphMemPlan} {ids : List ℕ} {meaning : OpMeaning ε}

lemma Graph.lifeStart_eq_epoch (graph : Graph) (v : ℕ) : graph.lifeStart v = graph.epoch (graph.producer v) :=
  rfl

lemma Graph.le_lastUse {graph : Graph} {op : GraphOp} {v : ℕ} (hop : op ∈ graph.ops) (hv : v ∈ op.inputs) :
    op.epoch ≤ graph.lastUse v := by
  have hmax : ∀ (l : List ℕ) (acc x : ℕ), (x = acc ∨ x ∈ l) → x ≤ l.foldl max acc := by
    intro l
    induction l with
    | nil =>
      rintro acc x (rfl | hx)
      · exact le_rfl
      · exact absurd hx List.not_mem_nil
    | cons y l ih =>
      rintro acc x (rfl | hx)
      · exact (le_max_left _ _).trans (ih _ _ (Or.inl rfl))
      · rcases List.mem_cons.mp hx with rfl | hx
        · exact (le_max_right _ _).trans (ih _ _ (Or.inl rfl))
        · exact ih _ _ (Or.inr hx)
  refine hmax _ _ _ (Or.inr (List.mem_map.mpr ⟨op, List.mem_filter.mpr ⟨hop, ?_⟩, rfl⟩))
  exact List.contains_iff_mem.mpr hv

/-- An input of the op of epoch `s` lives up to that step. -/
lemma Graph.le_lifeStop {graph : Graph} (hfit : graph.EpochsFit) {op : GraphOp} {v : ℕ}
    (hop : op ∈ graph.ops) (hv : v ∈ op.inputs) (persistent : Bool) :
    op.epoch < graph.lifeStop persistent v := by
  have hlt := hfit op hop
  have hlast := Graph.le_lastUse hop hv
  have hused : graph.used v = true := List.any_eq_true.mpr ⟨op, hop, List.contains_iff_mem.mpr hv⟩
  have hend : op.epoch < graph.lifeEnd v := by
    unfold Graph.lifeEnd
    rw [if_pos hused]
    split
    · exact hlt
    · exact Nat.lt_succ_of_le hlast
  unfold Graph.lifeStop
  split_ifs
  · unfold Graph.lifeEndPersistent
    split_ifs
    · exact hlt
    · exact hend
  · exact hend

variable (hbuilt : graph.Built) (hfit : graph.EpochsFit) (hordered : graph.Ordered)
  (hplan : graphMemoryPlanImpl qsort graph₀ persistent = (graph, .ok memPlan))
  (hqsort : ∀ planner, graph.planner persistent = .ok planner → IsQsorted planner (qsort planner))
  (hrange : ∀ planner, graph.planner persistent = .ok planner → SweepInRange Sweep.init (qsort planner))
  (hids : graph.InEpochOrder ids)

include hbuilt hfit hplan in
/-- An output lives from the epoch of its op on, for a step at least. -/
lemma Graph.output_life {o : ℕ} {op : GraphOp} (hop : graph.op? o = some op) {u : ℕ} (hu : u ∈ op.outputs) :
    graph.lifeStart u = op.epoch ∧ op.epoch < graph.lifeStop persistent u := by
  have hops : graph.ops ≠ [] := List.ne_nil_of_mem (Graph.op?_eq_some hop).2.2
  have hexists := (hbuilt.op_wf hop).outputs_exist u hu
  have hbegin : graph.lifeStart u = op.epoch := by
    rw [graph.lifeStart_eq_epoch, hbuilt.producer_of_output o op hop u hu, Graph.epoch_eq hop]
  have hlife := hfit.life_le hops persistent u
  have hlt := Graph.request_life hplan hexists
  rw [hbuilt.ofNat_epoch hlife.1.le, hbuilt.ofNat_epoch hlife.2] at hlt
  exact ⟨hbegin, hbegin ▸ hlt⟩

include hbuilt hfit hplan hqsort hrange in
/-- An output of the op of epoch `s` has a place apart from every value that lives then. -/
lemma Graph.output_apart {o : ℕ} {op : GraphOp} (hop : graph.op? o = some op) {u v : ℕ}
    (hu : u ∈ op.outputs) (hne : v ≠ u) (hv : 1 ≤ v ∧ v ≤ graph.values.length)
    (hstart : graph.lifeStart v ≤ op.epoch) (hstop : op.epoch < graph.lifeStop persistent v) :
    (graph.placeOf memPlan u).Apart (graph.placeOf memPlan v) := by
  have hops : graph.ops ≠ [] := List.ne_nil_of_mem (Graph.op?_eq_some hop).2.2
  have hexists := (hbuilt.op_wf hop).outputs_exist u hu
  obtain ⟨hbegin, hlong⟩ := Graph.output_life hbuilt hfit hplan hop hu
  exact Graph.places_apart hbuilt hfit hplan hqsort hrange hops (Ne.symm hne) hexists hv (by omega) (by omega)

include hbuilt hfit hordered hplan hqsort hrange hids in
/-- The lifetimes cover what the steps need, and places are apart where lifetimes meet. -/
lemma Graph.sharing :
    SharedStore.Sharing (graph.placeOf memPlan) (graph.opProgram meaning ids) (graph.live persistent) := by
  have hstep (s : ℕ) (st : Step ℕ ε) (hst : (graph.opProgram meaning ids)[s]? = some st) :
      ∃ o op, graph.op? o = some op ∧ op.epoch = s ∧ st.ins = op.inputs ∧ st.outs = op.outputs := by
    rw [Graph.opProgram, List.getElem?_map] at hst
    obtain ⟨o, hget, rfl⟩ := Option.map_eq_some_iff.mp hst
    obtain ⟨op, hop, hepoch⟩ := hids.epoch s o hget
    refine ⟨o, op, hop, hepoch, ?_, ?_⟩
    · rw [hop]
      rfl
    · rw [hop]
      rfl
  refine ⟨fun s st hst v hv => ?_, fun s st hst v hlive hout => ?_, fun s st hst u hu v hlive hne => ?_,
    fun st hst => ?_⟩
  · obtain ⟨o, op, hop, rfl, hins, -⟩ := hstep s st hst
    rw [hins] at hv
    obtain ⟨h1, h2⟩ := (hbuilt.op_wf hop).inputs_exist v hv
    refine ⟨h1, h2, or_iff_not_imp_left.mpr fun hproducer => ?_,
      (Graph.le_lifeStop hfit (Graph.op?_eq_some hop).2.2 hv persistent).le⟩
    obtain ⟨producer, hp, hout⟩ := hbuilt.output_of_producer v hproducer
    have hbefore := hordered.before _ _ ⟨producer, op, v, hp, hop, hout, hv⟩
    rwa [Graph.epoch_eq hop] at hbefore
  · obtain ⟨o, op, hop, rfl, -, houts⟩ := hstep s st hst
    rw [houts] at hout
    obtain ⟨h1, h2, hstart, hstop⟩ := hlive
    refine ⟨h1, h2, or_iff_not_imp_left.mpr fun hproducer => ?_, (Nat.le_succ _).trans hstop⟩
    obtain ⟨producer, hp, hmem⟩ := hbuilt.output_of_producer v hproducer
    have hlt : graph.lifeStart v < op.epoch + 1 := hstart.resolve_left hproducer
    refine Nat.lt_of_le_of_ne (Nat.le_of_lt_succ hlt) fun heq => hout ?_
    rw [graph.lifeStart_eq_epoch, ← Graph.epoch_eq hop] at heq
    -- the op of the epoch is the producer
    have ho := hordered.inj _ (Graph.mem_opIds_iff_op?.mpr ⟨producer, hp⟩) _
      (Graph.mem_opIds_iff_op?.mpr ⟨op, hop⟩) heq
    rw [ho, hop] at hp
    exact Option.some.inj hp ▸ hmem
  · obtain ⟨o, op, hop, rfl, -, houts⟩ := hstep s st hst
    rw [houts] at hu
    obtain ⟨h1, h2, hstart, hstop⟩ := hlive
    refine Graph.output_apart hbuilt hfit hplan hqsort hrange hop hu hne ⟨h1, h2⟩ ?_ hstop
    rcases hstart with hzero | hlt
    · rw [graph.lifeStart_eq_epoch, hzero]
      exact Nat.zero_le _
    · exact Nat.le_of_lt_succ hlt
  · obtain ⟨s, hst⟩ := List.mem_iff_getElem?.mp hst
    obtain ⟨o, op, hop, -, -, houts⟩ := hstep s st hst
    rw [houts]
    exact (hbuilt.op_wf hop).outputs_nodup

end Sharing

/-! ## Runs -/

section Runs

variable {ε : Type} {qsort : Planner → List SortEntry} {calls : List GraphCall} {persistent persistent' : Bool}
  {policy : SchedPolicy} {hints : ℕ → UInt8} {graph graph' : Graph} {memPlan : GraphMemPlan}
  {plan : SchedPlan} {ids : List ℕ}

/-- A planned graph that the API builds is sorted. -/
lemma planned_ordered (hplan : graphMemoryPlanImpl qsort (graphBuild calls) persistent = (graph, .ok memPlan)) :
    graph.Built ∧ graph.EpochsFit ∧ graph.Ordered := by
  obtain ⟨hgraph, hsorted, -⟩ := graphMemoryPlanImpl_ok hplan
  refine ⟨hgraph ▸ (graphBuilt_run calls).ensureSorted, ?_, ?_⟩
  · rw [hgraph]
    unfold Graph.ensureSorted
    split_ifs
    · exact graphBuild_epochsFit calls
    · exact (graphBuild_epochsFit calls).topoSort
  · rw [hgraph] at hsorted ⊢
    exact graphBuild_ensureSorted_ordered calls hsorted

/-- A plan and its schedule, for a graph that the API builds. -/
lemma planned_facts (hplan : graphMemoryPlanImpl qsort (graphBuild calls) persistent = (graph, .ok memPlan))
    (hsched : schedBuildImpl graph memPlan policy hints persistent' = (graph', .ok plan)) :
    graph.Built ∧ graph.EpochsFit ∧ graph.Ordered ∧ plan.steps.length = graph.ops.length ∧
      ∀ s step, plan.steps[s]? = some step → ∃ op, graph.op? step.opId = some op ∧ op.epoch = s := by
  obtain ⟨hbuilt, hfit, hordered⟩ := planned_ordered hplan
  obtain ⟨hgraph', hlen, -⟩ := schedBuildImpl_ok hsched
  obtain rfl : graph' = graph := by
    rw [hgraph', Graph.ensureSorted, if_pos (graphMemoryPlanImpl_ok hplan).2.1]
  exact ⟨hbuilt, hfit, hordered, hlen, fun s step hstep => schedBuildImpl_epoch hsched hstep⟩

/-- A schedule has the ops in the order of their epochs. -/
lemma planned_inEpochOrder
    (hplan : graphMemoryPlanImpl qsort (graphBuild calls) persistent = (graph, .ok memPlan))
    (hsched : schedBuildImpl graph memPlan policy hints persistent' = (graph', .ok plan)) :
    graph.InEpochOrder (plan.steps.map SchedStep.opId) := by
  obtain ⟨-, -, -, hlen, hsteps⟩ := planned_facts hplan hsched
  refine ⟨(List.length_map _).trans hlen, fun s o hget => ?_⟩
  rw [List.getElem?_map] at hget
  obtain ⟨step, hstep, rfl⟩ := Option.map_eq_some_iff.mp hget
  exact hsteps s step hstep

/-- A value that an op produces comes from a step; the lifetime of an output lasts to the end. -/
lemma Graph.live_output {graph : Graph} (hfit : graph.EpochsFit) (hbuilt : graph.Built) {v : ℕ}
    {value : GraphValue} (hvalue : graph.value? v = some value) (hout : value.isOutput = true) :
    graph.live persistent graph.ops.length v := by
  obtain ⟨h1, h2, -⟩ := Graph.value?_eq_some hvalue
  have hend : graph.lifeEnd v = graph.ops.length := by
    rw [Graph.lifeEnd, hvalue, Option.any_some, if_pos hout]
  refine ⟨h1, h2, or_iff_not_imp_left.mpr fun hproducer => ?_, ?_⟩
  · obtain ⟨op, hop, -⟩ := hbuilt.output_of_producer v hproducer
    rw [graph.lifeStart_eq_epoch, Graph.epoch_eq hop]
    exact hfit op (Graph.op?_eq_some hop).2.2
  · unfold Graph.lifeStop
    split_ifs
    · unfold Graph.lifeEndPersistent
      split_ifs
      · exact le_rfl
      · exact hend.ge
    · exact hend.ge

/-- The run by the epochs keeps the meaning.  For every graph of the API with a plan, no offset of which wraps,
every order that `qsort` may give, every meaning of the ops as functions of the contents of their inputs, and every
contents of the values that no op produces: the run in the one region ends with the same error as the run with
private buffers, or leaves in every output the same bytes. -/
lemma ordered_run_outputs
    (hplan : graphMemoryPlanImpl qsort (graphBuild calls) persistent = (graph, .ok memPlan))
    (hids : graph.InEpochOrder ids)
    (hqsort : ∀ planner, graph.planner persistent = .ok planner → IsQsorted planner (qsort planner))
    (hrange : ∀ planner, graph.planner persistent = .ok planner → SweepInRange Sweep.init (qsort planner))
    (meaning : OpMeaning ε) (mem : Content) (bufs : ℕ → Content)
    (hmem : ∀ v, 1 ≤ v → v ≤ graph.values.length → graph.producer v = 0 →
      HoldsAt (graph.placeOf memPlan) mem v (bufs v)) :
    (runShared (graph.placeOf memPlan) (graph.opProgram meaning ids) mem).1 =
        (runPrivate (graph.placeOf memPlan) (graph.opProgram meaning ids) bufs).1 ∧
      ((runPrivate (graph.placeOf memPlan) (graph.opProgram meaning ids) bufs).1 = none →
        ∀ v value, graph.value? v = some value → value.isOutput = true →
          HoldsAt (graph.placeOf memPlan)
            (runShared (graph.placeOf memPlan) (graph.opProgram meaning ids) mem).2 v
            ((runPrivate (graph.placeOf memPlan) (graph.opProgram meaning ids) bufs).2 v)) := by
  obtain ⟨hbuilt, hfit, hordered⟩ := planned_ordered hplan
  have hsharing : SharedStore.Sharing (graph.placeOf memPlan) (graph.opProgram meaning ids)
      (graph.live persistent) := Graph.sharing hbuilt hfit hordered hplan hqsort hrange hids
  have hstart (v : ℕ) (hlive : graph.live persistent 0 v) :
      HoldsAt (graph.placeOf memPlan) mem v (bufs v) :=
    hmem v hlive.1 hlive.2.1 (hlive.2.2.1.resolve_right (Nat.not_lt_zero _))
  obtain ⟨herror, hend⟩ := hsharing.run_holds hstart
  refine ⟨herror, fun hnone v value hvalue hout => hend hnone v ?_⟩
  rw [Graph.opProgram, List.length_map, hids.length_eq]
  exact Graph.live_output hfit hbuilt hvalue hout

/-- So does the run of a schedule. -/
lemma planned_run_outputs
    (hplan : graphMemoryPlanImpl qsort (graphBuild calls) persistent = (graph, .ok memPlan))
    (hsched : schedBuildImpl graph memPlan policy hints persistent' = (graph', .ok plan))
    (hqsort : ∀ planner, graph.planner persistent = .ok planner → IsQsorted planner (qsort planner))
    (hrange : ∀ planner, graph.planner persistent = .ok planner → SweepInRange Sweep.init (qsort planner))
    (meaning : OpMeaning ε) (mem : Content) (bufs : ℕ → Content)
    (hmem : ∀ v, 1 ≤ v → v ≤ graph.values.length → graph.producer v = 0 →
      HoldsAt (graph.placeOf memPlan) mem v (bufs v)) :
    (runShared (graph.placeOf memPlan) (plan.program graph meaning) mem).1 =
        (runPrivate (graph.placeOf memPlan) (plan.program graph meaning) bufs).1 ∧
      ((runPrivate (graph.placeOf memPlan) (plan.program graph meaning) bufs).1 = none →
        ∀ v value, graph.value? v = some value → value.isOutput = true →
          HoldsAt (graph.placeOf memPlan)
            (runShared (graph.placeOf memPlan) (plan.program graph meaning) mem).2 v
            ((runPrivate (graph.placeOf memPlan) (plan.program graph meaning) bufs).2 v)) := by
  rw [SchedPlan.program_eq]
  exact ordered_run_outputs hplan (planned_inEpochOrder hplan hsched) hqsort hrange meaning mem bufs hmem

/-- Under the persistent plan a run leaves the values that no op produces alone, whether it ends with an error
or not. -/
lemma ordered_run_keeps
    (hplan : graphMemoryPlanImpl qsort (graphBuild calls) true = (graph, .ok memPlan))
    (hids : graph.InEpochOrder ids)
    (hqsort : ∀ planner, graph.planner true = .ok planner → IsQsorted planner (qsort planner))
    (hrange : ∀ planner, graph.planner true = .ok planner → SweepInRange Sweep.init (qsort planner))
    (meaning : OpMeaning ε) (mem : Content) {v : ℕ} (h1 : 1 ≤ v)
    (h2 : v ≤ graph.values.length) (hproducer : graph.producer v = 0) :
    HoldsAt (graph.placeOf memPlan)
      (runShared (graph.placeOf memPlan) (graph.opProgram meaning ids) mem).2 v
      fun i => mem ((graph.placeOf memPlan v).off + i) := by
  obtain ⟨hbuilt, hfit, -⟩ := planned_ordered hplan
  refine runShared_frame (fun st hst u hu => ?_) fun _ _ => rfl
  obtain ⟨o, ho, rfl⟩ := List.mem_map.mp hst
  obtain ⟨s, hs⟩ := List.mem_iff_getElem?.mp ho
  obtain ⟨op, hop, rfl⟩ := hids.epoch s o hs
  have hout : u ∈ op.outputs := by
    rw [hop] at hu
    exact hu
  have hne : v ≠ u := by
    rintro rfl
    have hpos := hbuilt.producer_of_output _ op hop v hout
    rw [hproducer] at hpos
    exact absurd (Graph.op?_eq_some hop).1 (by omega)
  refine Graph.output_apart hbuilt hfit hplan hqsort hrange hop hout hne ⟨h1, h2⟩ ?_ ?_
  · rw [graph.lifeStart_eq_epoch, hproducer]
    exact Nat.zero_le _
  · unfold Graph.lifeStop Graph.lifeEndPersistent
    rw [if_pos rfl]
    rw [if_pos hproducer]
    exact hfit op (Graph.op?_eq_some hop).2.2

/-- The run of a schedule leaves them alone. -/
lemma planned_run_keeps
    (hplan : graphMemoryPlanImpl qsort (graphBuild calls) true = (graph, .ok memPlan))
    (hsched : schedBuildImpl graph memPlan policy hints persistent' = (graph', .ok plan))
    (hqsort : ∀ planner, graph.planner true = .ok planner → IsQsorted planner (qsort planner))
    (hrange : ∀ planner, graph.planner true = .ok planner → SweepInRange Sweep.init (qsort planner))
    (meaning : OpMeaning ε) (mem : Content) {v : ℕ} (h1 : 1 ≤ v)
    (h2 : v ≤ graph.values.length) (hproducer : graph.producer v = 0) :
    HoldsAt (graph.placeOf memPlan)
      (runShared (graph.placeOf memPlan) (plan.program graph meaning) mem).2 v
      fun i => mem ((graph.placeOf memPlan v).off + i) := by
  rw [SchedPlan.program_eq]
  exact ordered_run_keeps hplan (planned_inEpochOrder hplan hsched) hqsort hrange meaning mem h1 h2 hproducer

/-- Runs from regions with the same values where no op produces any end with the same error, or leave the same
bytes in every output. -/
lemma planned_run_agree
    (hplan : graphMemoryPlanImpl qsort (graphBuild calls) persistent = (graph, .ok memPlan))
    (hsched : schedBuildImpl graph memPlan policy hints persistent' = (graph', .ok plan))
    (hqsort : ∀ planner, graph.planner persistent = .ok planner → IsQsorted planner (qsort planner))
    (hrange : ∀ planner, graph.planner persistent = .ok planner → SweepInRange Sweep.init (qsort planner))
    (meaning : OpMeaning ε) {mem mem' : Content}
    (hmem : ∀ v, 1 ≤ v → v ≤ graph.values.length → graph.producer v = 0 →
      HoldsAt (graph.placeOf memPlan) mem v fun i => mem' ((graph.placeOf memPlan v).off + i)) :
    (runShared (graph.placeOf memPlan) (plan.program graph meaning) mem).1 =
        (runShared (graph.placeOf memPlan) (plan.program graph meaning) mem').1 ∧
      ((runShared (graph.placeOf memPlan) (plan.program graph meaning) mem).1 = none →
        ∀ v value, graph.value? v = some value → value.isOutput = true →
          ∀ i < (graph.placeOf memPlan v).size,
            (runShared (graph.placeOf memPlan) (plan.program graph meaning) mem).2
                ((graph.placeOf memPlan v).off + i) =
              (runShared (graph.placeOf memPlan) (plan.program graph meaning) mem').2
                ((graph.placeOf memPlan v).off + i)) := by
  obtain ⟨hbuilt, hfit, hordered⟩ := planned_ordered hplan
  have hids := planned_inEpochOrder hplan hsched
  have hsharing : SharedStore.Sharing (graph.placeOf memPlan)
      (graph.opProgram meaning (plan.steps.map SchedStep.opId)) (graph.live persistent) :=
    Graph.sharing hbuilt hfit hordered hplan hqsort hrange hids
  rw [SchedPlan.program_eq]
  obtain ⟨herror, hend⟩ := hsharing.run_agree fun v hlive => hmem v hlive.1 hlive.2.1
    (hlive.2.2.1.resolve_right (Nat.not_lt_zero _))
  refine ⟨herror, fun hnone v value hvalue hout => hend hnone v ?_⟩
  rw [Graph.opProgram, List.length_map, hids.length_eq]
  exact Graph.live_output hfit hbuilt hvalue hout

end Runs

end Prospero
