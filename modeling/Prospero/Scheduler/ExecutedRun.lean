import Prospero.Scheduler.RelocatedSteps

/-!
# Executions under a plan

The executor in the planned region refines the run of its ops over buffers: what an op does is what its
kernel does to operands that lie behind one another (`refMeaning`), and an execution does to the region
what the program of these meanings does (`run_paiSchedExecute`).  So reusing storage changes nothing
(`paiSchedExecute_reuse`), and a persistent plan may be executed again and again
(`paiSchedExecute_again`).
-/

namespace Prospero

open Footprint SharedStore

/-! ## What an op does -/

/-- The first byte of a value when the values lie behind one another. -/
def Graph.naiveOffset (graph : Graph) (v : ℕ) : ℕ :=
  ((graph.values.map fun value => value.sizeBytes.toNat).take (v - 1)).sum

/-- The plan in which no two values share storage. -/
def Graph.naivePlan (graph : Graph) : GraphMemPlan :=
  let total := UInt64.ofNat (graph.naiveOffset (graph.values.length + 1))
  ⟨fun v => UInt64.ofNat (graph.naiveOffset v), total, total, total⟩

/-- Memory with contents for some values, behind one another, and zeros elsewhere. -/
def Graph.memoryOf (graph : Graph) (contents : List (ℕ × Content)) : Memory Space := fun _ k =>
  match contents.find? fun x => decide ((graph.placeOf graph.naivePlan x.1).Has k) with
  | some x => x.2 (k - (graph.placeOf graph.naivePlan x.1).off)
  | none => 0

/-- What the kernel of an op computes from the contents of its inputs. -/
def refMeaning (malloc : ℕ → Bool) (graph : Graph) : OpMeaning PaiStatus := fun o ins =>
  let op := graph.opAt o
  let run := (runOp malloc graph graph.naivePlan op).run (graph.memoryOf (op.inputs.zip ins))
  match run.1 with
  | .error e => ⟨some e, fun _ _ => none, fun h => nomatch h⟩
  | .ok _ =>
    ⟨none, fun j i => some (run.2 .region
        ((graph.placeOf graph.naivePlan (op.outputs.getD j 0)).off + i)),
      fun _ _ _ => rfl⟩

section Naive

variable {graph : Graph}

lemma Graph.naiveOffset_succ {v : ℕ} (h1 : 1 ≤ v) (h2 : v ≤ graph.values.length) :
    graph.naiveOffset (v + 1) = graph.naiveOffset v + (graph.valueAt v).sizeBytes.toNat := by
  obtain ⟨value, hvalue⟩ : ∃ value, graph.values[v - 1]? = some value :=
    ⟨_, List.getElem?_eq_getElem (by omega)⟩
  have hat := Graph.valueAt_of_getElem? hvalue
  rw [show v - 1 + 1 = v by omega] at hat
  obtain ⟨hlt, hget⟩ := List.getElem?_eq_some_iff.mp hvalue
  rw [Graph.naiveOffset, Graph.naiveOffset, show v + 1 - 1 = v - 1 + 1 by omega,
    List.sum_take_succ _ _ (by rw [List.length_map]; exact hlt), List.getElem_map, hget, hat]

lemma Graph.naiveOffset_mono {u v : ℕ} (h : u ≤ v) : graph.naiveOffset u ≤ graph.naiveOffset v :=
  List.monotone_sum_take _ (Nat.sub_le_sub_right h 1)

/-- The offsets do not wrap. -/
lemma Graph.valuePtr_naivePlan (hbuilt : graph.Built) (hroomy : graph.Roomy) {v : ℕ} (h1 : 1 ≤ v)
    (h2 : v ≤ graph.values.length) : valuePtr graph.naivePlan v = graph.naiveOffset v := by
  have hmax := hbuilt.values_le
  have htotal : graph.naiveOffset v ≤
      (graph.values.map fun value => value.sizeBytes.toNat + value.align.toNat).sum := by
    calc graph.naiveOffset v ≤ (graph.values.map fun value => value.sizeBytes.toNat).sum := by
          have hmono := List.monotone_sum_take (graph.values.map fun value => value.sizeBytes.toNat)
            (show v - 1 ≤ (graph.values.map fun value => value.sizeBytes.toNat).length by
              rw [List.length_map]; omega)
          dsimp only at hmono
          rwa [List.take_length] at hmono
      _ ≤ _ := List.sum_le_sum fun value _ => Nat.le_add_right _ _
  rw [valuePtr, paiGraphMemPlanOffset, if_neg (by omega)]
  exact UInt64.toNat_ofNat_of_lt' (lt_of_le_of_lt htotal hroomy)

/-- Values behind one another lie apart. -/
lemma Graph.naive_apart (hbuilt : graph.Built) (hroomy : graph.Roomy) {u v : ℕ}
    (hu : 1 ≤ u ∧ u ≤ graph.values.length) (hv : 1 ≤ v ∧ v ≤ graph.values.length) (hne : u ≠ v) :
    (graph.placeOf graph.naivePlan u).Apart (graph.placeOf graph.naivePlan v) := by
  have hbehind {a b : ℕ} (ha : 1 ≤ a ∧ a ≤ graph.values.length) (hb : 1 ≤ b ∧ b ≤ graph.values.length)
      (hlt : a < b) : (graph.placeOf graph.naivePlan a).Apart (graph.placeOf graph.naivePlan b) := by
    apply Extent.apart_of_le
    change valuePtr graph.naivePlan a + _ ≤ valuePtr graph.naivePlan b
    rw [Graph.valuePtr_naivePlan hbuilt hroomy ha.1 ha.2, Graph.valuePtr_naivePlan hbuilt hroomy hb.1
        hb.2]
    exact (Graph.naiveOffset_succ ha.1 ha.2).ge.trans (Graph.naiveOffset_mono hlt)
  rcases Nat.lt_or_gt_of_ne hne with hlt | hgt
  · exact hbehind hu hv hlt
  · exact (hbehind hv hu hgt).symm

lemma Graph.naive_opApart (hbuilt : graph.Built) (hroomy : graph.Roomy) {op : GraphOp}
    (hop : op.WellFormed graph.values.length) : graph.OpApart graph.naivePlan op := by
  intro u hu v hv hne
  refine Graph.naive_apart hbuilt hroomy (hop.outputs_exist u hu) ?_ hne.symm
  rcases List.mem_append.mp hv with hin | hout
  · exact hop.inputs_exist v hin
  · exact hop.outputs_exist v hout

/-- The memory holds the contents of the listed values. -/
lemma Graph.memoryOf_eq (hbuilt : graph.Built) (hroomy : graph.Roomy) {ids : List ℕ}
    (hids : ∀ v ∈ ids, 1 ≤ v ∧ v ≤ graph.values.length) {f : ℕ → Content} {v : ℕ} (hv : v ∈ ids) {i : ℕ}
    (hi : i < (graph.placeOf graph.naivePlan v).size) (space : Space) :
    graph.memoryOf (ids.zip (ids.map f)) space ((graph.placeOf graph.naivePlan v).off + i) = f v i := by
  have hhas : (graph.placeOf graph.naivePlan v).Has ((graph.placeOf graph.naivePlan v).off + i) :=
    ⟨Nat.le_add_right _ _, Nat.add_lt_add_left hi _⟩
  have hzip : ids.zip (ids.map f) = ids.map fun v => (v, f v) := by
    rw [← List.map_prod_left_eq_zip]
  unfold Graph.memoryOf
  rw [hzip]
  split
  · next x hx =>
    obtain ⟨w, hw, rfl⟩ := List.mem_map.mp (List.mem_of_find?_eq_some hx)
    have hfound := List.find?_some hx
    simp only [decide_eq_true_eq] at hfound
    obtain rfl : w = v := by
      by_contra hne
      exact Graph.naive_apart hbuilt hroomy (hids w hw) (hids v hv) hne _ hfound hhas
    rw [Nat.add_sub_cancel_left]
  · next hnone =>
    have hall := List.find?_eq_none.mp hnone _ (List.mem_map_of_mem hv)
    exact absurd (decide_eq_true hhas) hall

end Naive

/-! ## One step -/

section Step

variable {malloc : ℕ → Bool} {graph : Graph} {memPlan : GraphMemPlan} {op : GraphOp} {mem : Memory Space}

/-- A step that fails has done nothing. -/
lemma runOp_error (hbuilt : graph.Built) (hop : op.WellFormed graph.values.length)
    (hwhole : graph.ConvertWhole op) {e : PaiStatus}
    (h : ((runOp malloc graph memPlan op).run mem).1 = .error e) :
    (runOp malloc graph memPlan op).run mem = (.error e, mem) := by
  rcases runOp_cases malloc graph memPlan op with ⟨e', hfail⟩ | ⟨hf32, hrun⟩
  · rw [hfail] at h ⊢
    rw [Prog.run] at h ⊢
    rw [Except.error.inj h]
  · rw [hrun] at h ⊢
    have hfits : ConvertFits graph memPlan op :=
        fun hkind hni hno _ _ => Or.inl (hwhole hkind hni hno hf32).le
    rcases confined_runKind hbuilt hop hf32 hfits with ⟨e', hfail⟩ | hspec
    · rw [hfail] at h ⊢
      rw [Prog.run] at h ⊢
      rw [Except.error.inj h]
    · have hout := hspec.run mem
      rw [h] at hout
      exact absurd hout id

/-- A step of the executor does what its op means: it reads the inputs at their places, and writes the
outputs to theirs and nothing else. -/
lemma run_runOp {o : ℕ} (hbuilt : graph.Built) (hroomy : graph.Roomy) (hop : graph.op? o = some op)
    (hwhole : graph.ConvertWhole op) (hapart : graph.OpApart memPlan op) :
    (runOp malloc graph memPlan op).run mem =
      let e := refMeaning malloc graph o
          (op.inputs.map fun v => Content.read (mem .region) (graph.placeOf memPlan v))
      (e.error.elim (.ok ()) .error, Function.update mem .region
        (writePlaces (graph.placeOf memPlan) e (mem .region) op.outputs.zipIdx)) := by
  have hwf := hbuilt.op_wf hop
  have hopAt : graph.opAt o = op := by rw [Graph.opAt, hop]; rfl
  have hnaive := Graph.naive_opApart hbuilt hroomy hwf
  have htracks : StepTracks hapart hnaive (runOp malloc graph memPlan op) (runOp malloc graph graph.naivePlan op) :=
    tracks_runOp hbuilt hwf hwhole hapart hnaive
  set mem' := graph.memoryOf (op.inputs.zip (op.inputs.map fun v =>
    Content.read (mem .region) (graph.placeOf memPlan v))) with hmem'
  have hagree : (graph.stepRelocation op memPlan graph.naivePlan hapart hnaive).Agree .region
      (graph.inputCells op) mem mem' := by
    rintro ⟨v, i⟩ ⟨hv, hi⟩
    have hread := Graph.memoryOf_eq hbuilt hroomy hwf.inputs_exist
      (f := fun v => Content.read (mem .region) (graph.placeOf memPlan v)) hv hi .region
    refine Eq.trans ?_ hread.symm
    exact (if_pos hi).symm
  have hsub : graph.inputCells op ⊆
      (graph.stepRelocation op memPlan graph.naivePlan hapart hnaive).cells :=
    fun x hx => ⟨List.mem_append_left _ hx.1, hx.2⟩
  obtain ⟨hres, hok⟩ := htracks.run hsub hagree
  have hmeaning : refMeaning malloc graph o
      (op.inputs.map fun v => Content.read (mem .region) (graph.placeOf memPlan v)) =
      match ((runOp malloc graph graph.naivePlan op).run mem').1 with
      | .error e => ⟨some e, fun _ _ => none, fun h => nomatch h⟩
      | .ok _ => ⟨none, fun j i => some (((runOp malloc graph graph.naivePlan op).run mem').2 .region
          ((graph.placeOf graph.naivePlan (op.outputs.getD j 0)).off + i)), fun _ _ _ => rfl⟩ := by
    unfold refMeaning
    simp only [hopAt, ← hmem']
  dsimp only
  rw [hmeaning]
  cases hrun : ((runOp malloc graph graph.naivePlan op).run mem').1 with
  | error e =>
    rw [hrun] at hres
    rw [runOp_error hbuilt hwf hwhole hres]
    simp only
    rw [writePlaces_of_none (fun _ _ => rfl), Function.update_eq_self]
    rfl
  | ok _ =>
    rw [hrun] at hres
    obtain ⟨T, hT, hagreeT⟩ := hok _ hres
    refine Prod.ext hres (funext fun space => funext fun k => ?_)
    simp only
    by_cases hspace : space = .region
    · subst hspace
      rw [Function.update_self]
      by_cases hin : ∃ u ∈ op.outputs, (graph.placeOf memPlan u).Has k
      · obtain ⟨u, hu, hhas⟩ := hin
        obtain ⟨j, hj⟩ := List.mem_iff_getElem?.mp hu
        have hmem : (u, j) ∈ op.outputs.zipIdx := List.mk_mem_zipIdx_iff_getElem?.mpr hj
        have hgetD : op.outputs.getD j 0 = u := by rw [List.getD_eq_getElem?_getD, hj]; rfl
        rw [writePlaces_of_has (by rw [List.zipIdx_map_fst]; exact hwf.outputs_nodup) (fun a ha b hb =>
          hapart a (by rwa [List.zipIdx_map_fst] at ha) b (List.mem_append_right _ (by
            rwa [List.zipIdx_map_fst] at hb))) hmem hhas]
        dsimp only
        rw [hgetD, Option.getD_some]
        have hbyte := hagreeT (u, 0 + (k - (graph.placeOf memPlan u).off)) (hT u hu _ (by
          have hhi := hhas.2
          have hlo := hhas.1
          change k - (graph.placeOf memPlan u).off < (graph.placeOf memPlan u).size
          omega))
        rw [Nat.zero_add] at hbyte
        have haddr : (graph.placeOf memPlan u).off + (k - (graph.placeOf memPlan u).off) = k :=
          Nat.add_sub_cancel' hhas.1
        refine Eq.trans ?_ hbyte
        exact congrArg _ haddr.symm
      · rw [writePlaces_of_not_has fun x hx hhas => hin ⟨x.1, List.fst_mem_of_mem_zipIdx hx, hhas⟩]
        exact htracks.frame fun _ u hu hhas => hin ⟨u, hu, hhas⟩
    · rw [Function.update_of_ne hspace]
      exact htracks.frame fun heq => absurd heq hspace

end Step

/-! ## Executions -/

section Executions

variable {malloc : ℕ → Bool} {graph : Graph} {memPlan : GraphMemPlan} {plan : SchedPlan}

/-- The step loop does what the program of the steps does. -/
lemma run_runSteps (hbuilt : graph.Built) (hroomy : graph.Roomy)
    (hwhole : ∀ op ∈ graph.ops, graph.ConvertWhole op) {steps : List SchedStep}
    (hsteps : ∀ step ∈ steps, ∃ op, graph.op? step.opId = some op ∧ graph.OpApart memPlan op)
    (stats : RunStats) (mem : Memory Space) :
    (runSteps malloc graph memPlan stats steps).run mem =
      let run := runShared (graph.placeOf memPlan)
          (steps.map (graph.bufferStep (refMeaning malloc graph)))
        (mem .region)
      (run.1.elim (.ok ((steps.map SchedStep.device).foldl RunStats.count stats)) .error,
        Function.update mem .region run.2) := by
  induction steps generalizing stats mem with
  | nil =>
    dsimp only
    rw [List.map_nil, runShared, Function.update_eq_self]
    rfl
  | cons step rest ih =>
    rw [List.forall_mem_cons] at hsteps
    obtain ⟨⟨op, hop, hapart⟩, hrest⟩ := hsteps
    have hopAt : graph.opAt step.opId = op := by rw [Graph.opAt, hop]; rfl
    have hbuffer : graph.bufferStep (refMeaning malloc graph) step =
        ⟨op.inputs, op.outputs, refMeaning malloc graph step.opId⟩ := by
      rw [Graph.bufferStep, hop]
      rfl
    rw [runSteps]
    change (Prog.bind _ _).run mem = _
    rw [Prog.run_bind, hopAt, run_runOp hbuilt hroomy hop (hwhole op (Graph.op?_eq_some hop).2.2) hapart,
      List.map_cons, hbuffer, runShared]
    dsimp only
    set e := refMeaning malloc graph step.opId
      (op.inputs.map fun v => Content.read (mem .region) (graph.placeOf memPlan v)) with he
    have hshared : Step.sharedOutcome (graph.placeOf memPlan)
        ⟨op.inputs, op.outputs, refMeaning malloc graph step.opId⟩ (mem .region) = e := rfl
    rw [hshared]
    cases herror : e.error with
    | some x => rfl
    | none =>
      simp only [Option.elim_none]
      rw [ih hrest, Function.update_self]
      dsimp only
      rw [Function.update_idem]
      rfl

variable {qsort : Planner → List SortEntry} {calls : List GraphCall} {persistent persistent' : Bool}
  {policy : SchedPolicy} {hints : ℕ → UInt8} {graph' : Graph}

/-- The outputs of every op of a planned graph lie apart from its other operands. -/
lemma planned_opApart (hbuilt : graph.Built) (hfit : graph.EpochsFit) (hordered : graph.Ordered)
    {graph₀ : Graph} (hplan : graphMemoryPlanImpl qsort graph₀ persistent = (graph, .ok memPlan))
    (hqsort : ∀ planner, graph.planner persistent = .ok planner → IsQsorted planner (qsort planner))
    (hroomy : graph.Roomy) {o : ℕ} {op : GraphOp} (hop : graph.op? o = some op) :
    graph.OpApart memPlan op := by
  intro u hu v hv hne
  have hwf := hbuilt.op_wf hop
  have hmem := (Graph.op?_eq_some hop).2.2
  rcases List.mem_append.mp hv with hin | hout
  · refine Graph.output_apart hbuilt hfit hplan hqsort (hroomy.inRange hqsort) hop hu hne (hwf.inputs_exist v hin) ?_
      (Graph.le_lifeStop hfit hmem hin persistent)
    rw [graph.lifeStart_eq_epoch]
    by_cases hproducer : graph.producer v = 0
    · rw [hproducer]
      exact Nat.zero_le _
    · obtain ⟨producer, hp, hmemOut⟩ := hbuilt.output_of_producer v hproducer
      have hbefore := hordered.before _ _ ⟨producer, op, v, hp, hop, hmemOut, hin⟩
      rw [Graph.epoch_eq hop] at hbefore
      exact hbefore.le
  · obtain ⟨hstart, hstop⟩ := Graph.output_life hbuilt hfit hplan hop hout
    exact Graph.output_apart hbuilt hfit hplan hqsort (hroomy.inRange hqsort) hop hu hne (hwf.outputs_exist v hout)
        hstart.le
      hstop

/-- An execution of a planned graph, under its plan or without reuse. -/
lemma run_paiSchedExecute
    (hplan : graphMemoryPlanImpl qsort (graphBuild calls) persistent = (graph, .ok memPlan))
    (hsched : schedBuildImpl graph memPlan policy hints persistent' = (graph', .ok plan))
    (hroomy : graph.Roomy) (hwhole : ∀ op ∈ graph.ops, graph.ConvertWhole op) {memPlan' : GraphMemPlan}
    (hapart : ∀ o op, graph.op? o = some op → graph.OpApart memPlan' op) (mem : Memory Space) :
    (paiSchedExecute malloc graph memPlan' plan).run mem =
      let run := runShared (graph.placeOf memPlan') (plan.program graph (refMeaning malloc graph))
          (mem .region)
      (run.1.elim (.ok ((plan.steps.map SchedStep.device).foldl RunStats.count ⟨0, 0, 0⟩)) .error,
        Function.update mem .region run.2) := by
  obtain ⟨hbuilt, -, -, hlen, hsteps⟩ := planned_facts hplan hsched
  rw [paiSchedExecute, if_neg (not_not.mpr hlen)]
  refine run_runSteps hbuilt hroomy hwhole (fun step hstep => ?_) _ mem
  obtain ⟨s, hs⟩ := List.mem_iff_getElem?.mp hstep
  obtain ⟨op, hop, -⟩ := hsteps s step hs
  exact ⟨op, hop, hapart _ op hop⟩

/-- The run succeeds when no step fails. -/
lemma elim_eq_ok_iff {ε α : Type} {e : Option ε} {a b : α} :
    (e.elim (.ok a) .error : Except ε α) = .ok b ↔ e = none ∧ a = b := by
  cases e with
  | none =>
    rw [Option.elim_none, Except.ok.injEq]
    exact (and_iff_right rfl).symm
  | some e =>
    constructor
    · intro h
      cases h
    · rintro ⟨h, -⟩
      cases h

/-- Reusing storage changes nothing.  For every graph of the API with a plan and a schedule, every order
that `qsort` may give, and regions that hold the same weights and inputs: the execution in the planned
region, where values take the place of others, returns what the execution returns in a region where every
value has bytes of its own, and when it succeeds every output holds the same bytes. -/
theorem paiSchedExecute_reuse (malloc : ℕ → Bool) (qsort : Planner → List SortEntry)
    (calls : List GraphCall)
    (persistent persistent' : Bool) (policy : SchedPolicy) (hints : ℕ → UInt8) (graph graph' : Graph)
    (memPlan : GraphMemPlan) (plan : SchedPlan)
    (hplan : graphMemoryPlanImpl qsort (graphBuild calls) persistent = (graph, .ok memPlan))
    (hsched : schedBuildImpl graph memPlan policy hints persistent' = (graph', .ok plan))
    (hqsort : ∀ planner, graph.planner persistent = .ok planner → IsQsorted planner (qsort planner))
    (hroomy : graph.Roomy) (hwhole : ∀ op ∈ graph.ops, graph.ConvertWhole op) (mem mem' : Memory Space)
    (hmem : ∀ v, 1 ≤ v → v ≤ graph.values.length → graph.producer v = 0 →
      ∀ i < (graph.valueAt v).sizeBytes.toNat,
        mem .region (valuePtr memPlan v + i) = mem' .region (valuePtr graph.naivePlan v + i)) :
    ((paiSchedExecute malloc graph memPlan plan).run mem).1 =
        ((paiSchedExecute malloc graph graph.naivePlan plan).run mem').1 ∧
      ∀ stats, ((paiSchedExecute malloc graph memPlan plan).run mem).1 = .ok stats →
        ∀ v value, graph.value? v = some value → value.isOutput = true → ∀ i < value.sizeBytes.toNat,
          ((paiSchedExecute malloc graph memPlan plan).run mem).2 .region (valuePtr memPlan v + i) =
            ((paiSchedExecute malloc graph graph.naivePlan plan).run mem').2 .region
              (valuePtr graph.naivePlan v + i) := by
  obtain ⟨hbuilt, hfit, hordered, hlen, hsteps⟩ := planned_facts hplan hsched
  have hapart (o : ℕ) (op : GraphOp) (hop : graph.op? o = some op) : graph.OpApart memPlan op :=
    planned_opApart hbuilt hfit hordered hplan hqsort hroomy hop
  have hnaive (o : ℕ) (op : GraphOp) (hop : graph.op? o = some op) : graph.OpApart graph.naivePlan op :=
    Graph.naive_opApart hbuilt hroomy (hbuilt.op_wf hop)
  set bufs : ℕ → Content := fun v i => mem .region (valuePtr memPlan v + i) with hbufs
  have hshared : SharedStore.Sharing (graph.placeOf memPlan) (plan.program graph (refMeaning malloc graph))
      (graph.live persistent) := by
    rw [SchedPlan.program_eq]
    exact Graph.sharing hbuilt hfit hordered hplan hqsort (hroomy.inRange hqsort)
      (planned_inEpochOrder hplan hsched)
  -- without reuse all places lie apart
  have hsharing : SharedStore.Sharing (graph.placeOf graph.naivePlan)
      (plan.program graph (refMeaning malloc graph)) (graph.live persistent) := by
    refine ⟨hshared.ins_live, hshared.live_before, fun s st hst u hu v hlive hne => ?_, hshared.nodup⟩
    obtain ⟨step, hstep, rfl⟩ := List.mem_map.mp (List.mem_of_getElem? hst)
    obtain ⟨t, ht⟩ := List.mem_iff_getElem?.mp hstep
    obtain ⟨op, hop, -⟩ := hsteps t step ht
    rw [Graph.bufferStep, hop] at hu
    exact Graph.naive_apart hbuilt hroomy ((hbuilt.op_wf hop).outputs_exist u hu) ⟨hlive.1, hlive.2.1⟩
        hne.symm
  obtain ⟨herror, hend⟩ := planned_run_outputs hplan hsched hqsort (hroomy.inRange hqsort) (refMeaning malloc graph)
    (mem .region) bufs fun _ _ _ _ _ _ => rfl
  have hstart (v : ℕ) (hlive : graph.live persistent 0 v) :
      HoldsAt (graph.placeOf graph.naivePlan) (mem' .region) v (bufs v) := fun i hi =>
    (hmem v hlive.1 hlive.2.1 (hlive.2.2.1.resolve_right (Nat.not_lt_zero _)) i hi).symm
  obtain ⟨herror', hend'⟩ := hsharing.run_holds hstart
  have hprivate : runPrivate (graph.placeOf graph.naivePlan)
      (plan.program graph (refMeaning malloc graph)) bufs =
      runPrivate (graph.placeOf memPlan) (plan.program graph (refMeaning malloc graph)) bufs :=
    runPrivate_congr fun _ => rfl
  rw [hprivate] at herror' hend'
  rw [run_paiSchedExecute hplan hsched hroomy hwhole hapart,
    run_paiSchedExecute hplan hsched hroomy hwhole hnaive]
  dsimp only
  refine ⟨by rw [herror, herror'], fun stats hok v value hvalue hout i hi => ?_⟩
  have hnone := (elim_eq_ok_iff.mp hok).1
  rw [herror] at hnone
  have hsize : (graph.valueAt v).sizeBytes.toNat = value.sizeBytes.toNat := by
    rw [Graph.valueAt, hvalue]
    rfl
  have hlive : graph.live persistent (plan.program graph (refMeaning malloc graph)).length v := by
    rw [SchedPlan.program, List.length_map, hlen]
    exact Graph.live_output hfit hbuilt hvalue hout
  rw [Function.update_self, Function.update_self]
  exact (hend hnone v value hvalue hout i (hi.trans_eq hsize.symm)).trans
    (hend' hnone v hlive i (hi.trans_eq hsize.symm)).symm

/-- Two copies behind one another. -/
def twoCopies : List GraphCall :=
  [.addValue .f32 [4] 0, .addValue .f32 [4] 0, .addValue .f32 [4] 0, .addOp .copy [2] [1],
    .addOp .copy [1] [3], .setOutput 3]

/-- The copies, from regions with one byte everywhere. -/
theorem paiSchedExecute_reuse_copies : ∃ graph graph' memPlan plan,
    graphMemoryPlanImpl sortEntries (graphBuild twoCopies) false = (graph, .ok memPlan) ∧
    schedBuildImpl graph memPlan .interactive (fun _ => 0) false = (graph', .ok plan) ∧
    ((paiSchedExecute (fun _ => true) graph memPlan plan).run fun _ _ => 7).1 =
      ((paiSchedExecute (fun _ => true) graph graph.naivePlan plan).run fun _ _ => 7).1 := by
  refine ⟨_, _, _, _, rfl, rfl, ?_⟩
  refine (paiSchedExecute_reuse (fun _ => true) sortEntries twoCopies false false .interactive
    (fun _ => 0) _ _ _ _ rfl rfl ?_ ?_ ?_ (fun _ _ => 7) (fun _ _ => 7) fun _ _ _ _ _ _ => rfl).1
  · intro planner hplanner
    obtain rfl := Except.ok.inj hplanner
    exact ⟨List.Perm.refl _, by decide +kernel⟩
  · unfold Graph.Roomy
    decide +kernel
  · exact fun op hop hkind => absurd hkind
      ((by decide +kernel : ∀ op ∈ _, op.kind ≠ OpKind.convert) op hop)

/-- Memory behind a number of executions. -/
def executeTimes (malloc : ℕ → Bool) (graph : Graph) (memPlan : GraphMemPlan) (plan : SchedPlan) (k : ℕ)
    (mem : Memory Space) : Memory Space :=
  (fun m => ((paiSchedExecute malloc graph memPlan plan).run m).2)^[k] mem

/-- A persistent plan may be executed again and again.  After any number of executions, failed ones
included, the values that no op produces hold what they held before the first one, and so do the other
buffers; the next execution returns what the first one returned and, when it succeeds, leaves the same
bytes in every output. -/
theorem paiSchedExecute_again (malloc : ℕ → Bool) (qsort : Planner → List SortEntry)
    (calls : List GraphCall) (persistent' : Bool) (policy : SchedPolicy) (hints : ℕ → UInt8)
    (graph graph' : Graph) (memPlan : GraphMemPlan) (plan : SchedPlan)
    (hplan : graphMemoryPlanImpl qsort (graphBuild calls) true = (graph, .ok memPlan))
    (hsched : schedBuildImpl graph memPlan policy hints persistent' = (graph', .ok plan))
    (hqsort : ∀ planner, graph.planner true = .ok planner → IsQsorted planner (qsort planner))
    (hroomy : graph.Roomy) (hwhole : ∀ op ∈ graph.ops, graph.ConvertWhole op) (mem : Memory Space) (k : ℕ) :
    (∀ v, 1 ≤ v → v ≤ graph.values.length → graph.producer v = 0 →
      ∀ i < (graph.valueAt v).sizeBytes.toNat,
        executeTimes malloc graph memPlan plan k mem .region (valuePtr memPlan v + i) =
          mem .region (valuePtr memPlan v + i)) ∧
    (∀ space, space ≠ .region → executeTimes malloc graph memPlan plan k mem space = mem space) ∧
    ((paiSchedExecute malloc graph memPlan plan).run (executeTimes malloc graph memPlan plan k mem)).1 =
      ((paiSchedExecute malloc graph memPlan plan).run mem).1 ∧
    ∀ stats,
      ((paiSchedExecute malloc graph memPlan plan).run (executeTimes malloc graph memPlan plan k mem)).1 =
          .ok stats →
        ∀ v value, graph.value? v = some value → value.isOutput = true → ∀ i < value.sizeBytes.toNat,
          ((paiSchedExecute malloc graph memPlan plan).run
              (executeTimes malloc graph memPlan plan k mem)).2 .region (valuePtr memPlan v + i) =
            ((paiSchedExecute malloc graph memPlan plan).run mem).2 .region (valuePtr memPlan v + i) := by
  obtain ⟨hbuilt, hfit, hordered, hlen, hsteps⟩ := planned_facts hplan hsched
  have hapart (o : ℕ) (op : GraphOp) (hop : graph.op? o = some op) : graph.OpApart memPlan op :=
    planned_opApart hbuilt hfit hordered hplan hqsort hroomy hop
  have hrun (m : Memory Space) : (paiSchedExecute malloc graph memPlan plan).run m = _ :=
    run_paiSchedExecute hplan hsched hroomy hwhole hapart m
  set later := executeTimes malloc graph memPlan plan k mem with hlater
  have hkeep : (∀ v, 1 ≤ v → v ≤ graph.values.length → graph.producer v = 0 →
      ∀ i < (graph.valueAt v).sizeBytes.toNat,
        later .region (valuePtr memPlan v + i) = mem .region (valuePtr memPlan v + i)) ∧
      ∀ space, space ≠ .region → later space = mem space := by
    rw [hlater]
    clear hlater later
    induction k with
    | zero => exact ⟨fun _ _ _ _ _ _ => rfl, fun _ _ => rfl⟩
    | succ k ih =>
      rw [executeTimes, Function.iterate_succ_apply', ← executeTimes, hrun]
      refine ⟨fun v h1 h2 hproducer i hi => ?_, fun space hspace => ?_⟩
      · refine Eq.trans ?_ (ih.1 v h1 h2 hproducer i hi)
        dsimp only
        rw [Function.update_self]
        exact planned_run_keeps hplan hsched hqsort (hroomy.inRange hqsort) _ _ h1 h2 hproducer i hi
      · exact (Function.update_of_ne hspace _ _).trans (ih.2 space hspace)
  have hheld (v : ℕ) (h1 : 1 ≤ v) (h2 : v ≤ graph.values.length) (hproducer : graph.producer v = 0) :
      HoldsAt (graph.placeOf memPlan) (later .region) v
        fun i => mem .region ((graph.placeOf memPlan v).off + i) := hkeep.1 v h1 h2 hproducer
  obtain ⟨herror, hend⟩ := planned_run_agree hplan hsched hqsort (hroomy.inRange hqsort) (refMeaning malloc graph) hheld
  refine ⟨hkeep.1, hkeep.2, ?_⟩
  rw [hrun later, hrun mem]
  dsimp only
  refine ⟨by rw [herror], fun stats hok v value hvalue hout i hi => ?_⟩
  have hnone := (elim_eq_ok_iff.mp hok).1
  have hsize : (graph.valueAt v).sizeBytes.toNat = value.sizeBytes.toNat := by
    rw [Graph.valueAt, hvalue]
    rfl
  rw [Function.update_self, Function.update_self]
  exact hend hnone v value hvalue hout i (hi.trans_eq hsize.symm)

/-- The copies, behind two executions. -/
theorem paiSchedExecute_again_copies : ∃ graph graph' memPlan plan,
    graphMemoryPlanImpl sortEntries (graphBuild twoCopies) true = (graph, .ok memPlan) ∧
    schedBuildImpl graph memPlan .interactive (fun _ => 0) true = (graph', .ok plan) ∧
    ((paiSchedExecute (fun _ => true) graph memPlan plan).run
        (executeTimes (fun _ => true) graph memPlan plan 2 fun _ _ => 7)).1 =
      ((paiSchedExecute (fun _ => true) graph memPlan plan).run fun _ _ => 7).1 := by
  refine ⟨_, _, _, _, rfl, rfl, ?_⟩
  refine (paiSchedExecute_again (fun _ => true) sortEntries twoCopies true .interactive
    (fun _ => 0) _ _ _ _ rfl rfl ?_ ?_ ?_ (fun _ _ => 7) 2).2.2.1
  · intro planner hplanner
    obtain rfl := Except.ok.inj hplanner
    exact ⟨List.Perm.refl _, by decide +kernel⟩
  · unfold Graph.Roomy
    decide +kernel
  · exact fun op hop hkind => absurd hkind
      ((by decide +kernel : ∀ op ∈ _, op.kind ≠ OpKind.convert) op hop)

end Executions

end Prospero
