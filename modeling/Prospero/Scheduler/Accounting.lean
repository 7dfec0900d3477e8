import Prospero.Memory.LivePeak
import Prospero.Scheduler.Execute

/-!
# Memory accounting of a schedule

A schedule counts the bytes alive at each step from the lifetimes of the graph; the memory plan counts
them from its own live list.  `AccountsFor` says that both count the same bytes: each step has the load of
the lifetimes at that step, one step follows from the other by what ends and what begins, the largest
step is the peak of the plan, and the region holds it.

All but the last hold for every graph.  The region can be smaller than the peak when an extension of the
region wraps (`PeakFits`).
-/

namespace Prospero

/-! ## Epochs -/

/-- Every epoch is a step of the graph. -/
def Graph.EpochsFit (graph : Graph) : Prop := ∀ op ∈ graph.ops, op.epoch < graph.ops.length

/-- Setting epochs writes positions of the order, and keeps the ops in number. -/
lemma setEpochs_spec (ops : List GraphOp) (order : List ℕ) :
    (setEpochs ops order).length = ops.length ∧
      ∀ op ∈ setEpochs ops order, op.epoch < order.length ∨ ∃ old ∈ ops, op.epoch = old.epoch := by
  have hgen (l : List (ℕ × ℕ)) (hl : ∀ x ∈ l, x.2 < order.length) (ops : List GraphOp) :
      let r := l.foldl (fun ops x => ops.modify (x.1 - 1) fun op => { op with epoch := x.2 }) ops
      r.length = ops.length ∧
        ∀ op ∈ r, op.epoch < order.length ∨ ∃ old ∈ ops, op.epoch = old.epoch := by
    induction l generalizing ops with
    | nil => exact ⟨rfl, fun op hop => Or.inr ⟨op, hop, rfl⟩⟩
    | cons x l ih =>
      obtain ⟨hlen, hall⟩ := ih (fun y hy => hl y (List.mem_cons_of_mem x hy))
        (ops.modify (x.1 - 1) fun op => { op with epoch := x.2 })
      refine ⟨hlen.trans (List.length_modify _ _ _), fun op hop => ?_⟩
      obtain hlt | ⟨old, hold, heq⟩ := hall op hop
      · exact Or.inl hlt
      · obtain ⟨i, hi⟩ := List.mem_iff_getElem?.mp hold
        rw [List.getElem?_modify] at hi
        obtain ⟨old', hold', rfl⟩ := Option.map_eq_some_iff.mp hi
        split_ifs at heq
        · exact Or.inl (heq ▸ hl x List.mem_cons_self)
        · exact Or.inr ⟨old', List.mem_of_getElem? hold', heq⟩
  refine hgen _ (fun x hx => ?_) ops
  have hlt := (List.mem_zipIdx hx).2.1
  omega

lemma Graph.EpochsFit.topoSort {graph : Graph} (h : graph.EpochsFit) :
    (paiGraphTopoSort graph).1.EpochsFit := by
  unfold paiGraphTopoSort
  split_ifs with hcount
  · exact h
  · obtain ⟨hlen, hall⟩ := setEpochs_spec graph.ops graph.kahn.order
    intro op hop
    change op.epoch < (setEpochs graph.ops graph.kahn.order).length
    rw [hlen]
    obtain hlt | ⟨old, hold, heq⟩ := hall op hop
    · exact not_not.mp hcount ▸ hlt
    · exact heq ▸ h old hold

/-- One call keeps the epochs within the graph. -/
lemma Graph.EpochsFit.step {graph : Graph} (h : graph.EpochsFit) (call : GraphCall) :
    (graph.step call).EpochsFit := by
  cases call with
  | addValue dtype shape align =>
    change (paiGraphAddValue graph dtype shape align).1.EpochsFit
    rcases paiGraphAddValue_cases graph dtype shape align with
      heq | ⟨value, -, -, -, -, -, -, -, -, heq⟩
    · exact heq ▸ h
    · exact heq ▸ h
  | addOp kind inputs outputs =>
    change (paiGraphAddOp graph kind inputs outputs).1.EpochsFit
    rcases paiGraphAddOp_cases graph kind inputs outputs with heq | ⟨-, heq⟩
    · exact heq ▸ h
    · rw [heq]
      intro op hop
      change op.epoch < (graph.ops ++ [_]).length
      rw [List.length_append, List.length_singleton]
      obtain hop | hop := List.mem_append.mp hop
      · exact (h op hop).trans (Nat.lt_succ_self _)
      · rw [List.mem_singleton.mp hop]
        exact Nat.succ_pos _
  | setInput id =>
    unfold Graph.step paiGraphSetInput Graph.mark
    simp only
    split_ifs <;> exact h
  | setOutput id =>
    unfold Graph.step paiGraphSetOutput Graph.mark
    simp only
    split_ifs <;> exact h
  | topoSort => exact h.topoSort

lemma graphBuild_epochsFit (calls : List GraphCall) : (graphBuild calls).EpochsFit := by
  have hrun (graph : Graph) (h : graph.EpochsFit) : (calls.foldl Graph.step graph).EpochsFit := by
    induction calls generalizing graph with
    | nil => exact h
    | cons call calls ih => exact ih (graph.step call) (h.step call)
  exact hrun paiGraphInit fun op hop => absurd hop List.not_mem_nil

/-! ## Lifetimes -/

/-- `out_end[v]` of a plan or a schedule. -/
def Graph.lifeStop (graph : Graph) (persistent : Bool) : ℕ → ℕ :=
  if persistent then graph.lifeEndPersistent else graph.lifeEnd

/-- The lifetimes of the values, each weighing its size. -/
def Graph.spans (graph : Graph) (persistent : Bool) : List Span :=
  (graph.values.zipIdx 1).map fun x =>
    ⟨graph.lifeStart x.2, graph.lifeStop persistent x.2, x.1.sizeBytes.toNat⟩

section Lifetimes

variable {graph : Graph} {persistent : Bool}

/-- A lifetime starts and stops within the steps of a graph that has any. -/
lemma Graph.EpochsFit.life_le (h : graph.EpochsFit) (hops : graph.ops ≠ []) (persistent : Bool)
    (v : ℕ) :
    graph.lifeStart v < graph.ops.length ∧ graph.lifeStop persistent v ≤ graph.ops.length := by
  have hpos : 0 < graph.ops.length := List.length_pos_of_ne_nil hops
  have hstart : graph.lifeStart v < graph.ops.length := by
    unfold Graph.lifeStart
    cases hop : graph.op? (graph.producer v) with
    | none => exact hpos
    | some op => exact h op (Graph.op?_eq_some hop).2.2
  have hlast : graph.lastUse v < graph.ops.length := by
    have hmax (l : List ℕ) (hl : ∀ x ∈ l, x < graph.ops.length) (acc : ℕ)
        (hacc : acc < graph.ops.length) : l.foldl max acc < graph.ops.length := by
      induction l generalizing acc with
      | nil => exact hacc
      | cons x l ih =>
        exact ih (fun y hy => hl y (List.mem_cons_of_mem x hy)) _
          (max_lt hacc (hl x List.mem_cons_self))
    refine hmax _ (fun x hx => ?_) 0 hpos
    obtain ⟨op, hop, rfl⟩ := List.mem_map.mp hx
    exact h op (List.mem_filter.mp hop).1
  have hend : graph.lifeEnd v ≤ graph.ops.length := by
    unfold Graph.lifeEnd
    split_ifs
    · exact le_rfl
    · exact hlast
    · exact hstart
  refine ⟨hstart, ?_⟩
  unfold Graph.lifeStop
  split_ifs
  · unfold Graph.lifeEndPersistent
    split_ifs
    · exact le_rfl
    · exact hend
  · exact hend

/-- What an accepted pass over the values adds to a planner. -/
lemma addRequests_ok {life : ℕ → ℕ} {planner planner' : Planner} {l : List (GraphValue × ℕ)}
    (h : addRequests graph life planner l = .ok planner')
    (hvalid : ∀ a ∈ planner.allocs, a.Valid) :
    planner'.allocs = planner.allocs ++ l.map (fun x => ⟨x.1.sizeBytes, x.1.align,
        UInt64.ofNat (graph.lifeStart x.2), UInt64.ofNat (life x.2), false⟩) ∧
      planner'.arenaAlign = planner.arenaAlign ∧ ∀ a ∈ planner'.allocs, a.Valid := by
  induction l generalizing planner with
  | nil =>
    obtain rfl := Except.ok.inj h
    exact ⟨by simp, rfl, hvalid⟩
  | cons x l ih =>
    obtain ⟨value, v⟩ := x
    unfold addRequests at h
    simp only at h
    split_ifs at h with hst
    have hadd : (paiMemPlannerAdd planner value.sizeBytes value.align
        (UInt64.ofNat (graph.lifeStart v)) (UInt64.ofNat (life v))).1 =
        { planner with allocs := planner.allocs ++ [⟨value.sizeBytes, value.align,
          UInt64.ofNat (graph.lifeStart v), UInt64.ofNat (life v), false⟩] } := by
      have hok := not_not.mp hst
      unfold paiMemPlannerAdd plannerAddCommon at hok ⊢
      split_ifs at hok ⊢ with hbad hfull
      · exact absurd hok (by decide : paiErrInvalidArg ≠ paiOk)
      · exact absurd hok (by decide : paiErrNomem ≠ paiOk)
      · rfl
    obtain ⟨hallocs, harena, hvalid'⟩ := ih h (plannerAddCommon_valid hvalid)
    rw [hadd] at hallocs harena
    refine ⟨?_, harena, hvalid'⟩
    rw [hallocs, List.append_assoc]
    rfl

/-- The planner of a graph holds the lifetimes of its values, none of them pinned. -/
lemma Graph.planner_ok (hfit : graph.EpochsFit) (hle : graph.ops.length ≤ paiGraphMaxOps)
    (hops : graph.ops ≠ []) {planner : Planner} (h : graph.planner persistent = .ok planner) :
    planner.spans = graph.spans persistent ∧ (∀ a ∈ planner.allocs, a.Valid) ∧
      (∀ a ∈ planner.allocs, a.pinned = false) ∧ planner.arenaAlign = 0 := by
  obtain ⟨hallocs, harena, hvalid⟩ := addRequests_ok h fun a ha => absurd ha List.not_mem_nil
  rw [show paiMemPlannerInit.allocs = [] from rfl, List.nil_append] at hallocs
  have hword {n : ℕ} (hn : n ≤ graph.ops.length) : (UInt64.ofNat n).toNat = n :=
    UInt64.toNat_ofNat_of_lt' (lt_of_le_of_lt (hn.trans hle) (by decide))
  refine ⟨?_, hvalid, fun a ha => ?_, harena⟩
  · rw [Planner.spans, hallocs, List.map_map, Graph.spans]
    refine List.map_congr_left fun x _ => ?_
    obtain ⟨hstart, hstop⟩ := hfit.life_le hops persistent x.2
    have hstop' := hword hstop
    unfold Graph.lifeStop at hstop' ⊢
    simp only [Function.comp, MemAlloc.span, hword hstart.le, hstop']
  · rw [hallocs] at ha
    obtain ⟨x, -, rfl⟩ := List.mem_map.mp ha
    rfl

/-- The bytes a schedule counts are the weight of the lifetimes. -/
lemma Graph.toNat_bytesWhere {test : ℕ → Bool} {p : Span → Bool}
    (htotal : Span.total (graph.spans persistent) < 2 ^ 64)
    (hp : ∀ v w, p ⟨graph.lifeStart v, graph.lifeStop persistent v, w⟩ = test v) :
    (graph.bytesWhere test).toNat = Span.weightWhere (graph.spans persistent) p := by
  have hweight (l : List (GraphValue × ℕ)) :
      Span.weightWhere (l.map fun x => ⟨graph.lifeStart x.2, graph.lifeStop persistent x.2,
          x.1.sizeBytes.toNat⟩) p =
        (l.map fun x => (if test x.2 then x.1.sizeBytes else 0).toNat).sum := by
    induction l with
    | nil => rfl
    | cons x l ih =>
      rw [List.map_cons, Span.weightWhere_cons, ih, List.map_cons, List.sum_cons, hp]
      cases test x.2 <;> rfl
  have hbytes : graph.bytesWhere test =
      (graph.values.zipIdx 1).foldl (fun acc x => acc + if test x.2 then x.1.sizeBytes else 0) 0 := by
    unfold Graph.bytesWhere
    congr 1
    funext acc x
    cases test x.2 <;> simp
  have hlt : Span.weightWhere (graph.spans persistent) p < 2 ^ 64 :=
    Span.weightWhere_le_total.trans_lt htotal
  rw [Graph.spans, hweight] at hlt ⊢
  rw [hbytes, toNat_foldl_add, UInt64.toNat_zero, Nat.zero_add]
  rwa [UInt64.toNat_zero, Nat.zero_add]

end Lifetimes

/-! ## Accounting -/

/-- The accounting of a schedule agrees with the lifetimes and with the memory plan. -/
structure AccountsFor (graph : Graph) (persistent : Bool) (memPlan : GraphMemPlan)
    (plan : SchedPlan) : Prop where
  /-- A step holds the values with `start <= s < end`. -/
  live : ∀ s step, plan.steps[s]? = some step →
    step.liveBytes.toNat = Span.load (graph.spans persistent) s
  /-- What a step releases was alive before it. -/
  released_le : ∀ s step next, plan.steps[s]? = some step → plan.steps[s + 1]? = some next →
    next.releasedBytes.toNat ≤ step.liveBytes.toNat
  /-- A step releases and produces, and keeps the rest. -/
  balance : ∀ s step next, plan.steps[s]? = some step → plan.steps[s + 1]? = some next →
    next.liveBytes.toNat =
      step.liveBytes.toNat - next.releasedBytes.toNat + next.producedBytes.toNat
  /-- No step holds more than the peak. -/
  le_peak : ∀ step ∈ plan.steps, step.liveBytes ≤ memPlan.peakLive
  /-- Some step holds the peak. -/
  peak_attained : ∃ step ∈ plan.steps, step.liveBytes = memPlan.peakLive
  /-- The region holds the peak. -/
  peak_le_region : memPlan.peakLive ≤ memPlan.regionBytes

/-- No extension of the region wraps in the plan of the graph, or the alignments leave room for all
values together. -/
def Graph.PeakFits (qsort : Planner → List SortEntry) (graph : Graph) (persistent : Bool) : Prop :=
  ∀ planner, graph.planner persistent = .ok planner → Prospero.PeakFits planner (qsort planner)

/-- A plan is made of a sorted graph. -/
lemma graphMemoryPlanImpl_ok {qsort : Planner → List SortEntry} {graph graph' : Graph}
    {persistent : Bool} {memPlan : GraphMemPlan}
    (h : graphMemoryPlanImpl qsort graph persistent = (graph', .ok memPlan)) :
    graph' = graph.ensureSorted.1 ∧ graph'.sorted = true ∧
      ∃ planner base, graph'.planner persistent = .ok planner ∧
        paiMemPlanBuild planner (qsort planner) = .ok base ∧
        memPlan.peakLive = base.peakLive ∧ memPlan.regionBytes = base.regionBytes := by
  unfold graphMemoryPlanImpl at h
  simp only at h
  split_ifs at h with hst
  · cases h
  obtain ⟨rfl, hplan⟩ := Prod.mk.inj h
  refine ⟨rfl, ?_, ?_⟩
  · have hok := not_not.mp hst
    unfold Graph.ensureSorted at hok ⊢
    split_ifs at hok ⊢ with hsorted
    · exact hsorted
    · unfold paiGraphTopoSort at hok ⊢
      split_ifs at hok ⊢
      · exact absurd hok (by decide : paiErrMismatch ≠ paiOk)
      · rfl
  · unfold graphPlanSorted at hplan
    split at hplan
    · cases hplan
    · next planner hplanner =>
      split at hplan
      · cases hplan
      · next base hbase =>
        cases hplan
        exact ⟨planner, base, hplanner, hbase, rfl, rfl⟩

/-- The counters of a step, over the lifetimes of the graph. -/
lemma schedStep_counts {graph : Graph} {persistent : Bool} {policy : SchedPolicy}
    {hints : ℕ → UInt8} {s : ℕ} {step : SchedStep}
    (htotal : Span.total (graph.spans persistent) < 2 ^ 64)
    (hlife : ∀ x ∈ graph.spans persistent, x.start < x.stop)
    (h : schedStep graph policy hints (graph.lifeStop persistent) s = .ok step) :
    step.liveBytes.toNat = Span.load (graph.spans persistent) s ∧
      step.producedBytes.toNat = Span.begun (graph.spans persistent) s ∧
      step.releasedBytes.toNat = Span.ended (graph.spans persistent) s := by
  obtain ⟨-, -, hproduced, hreleased, hlive⟩ := schedStep_ok h
  have hbegun : step.producedBytes.toNat = Span.begun (graph.spans persistent) s := by
    rw [hproduced]
    exact Graph.toNat_bytesWhere htotal fun v w => by simp [beq_eq_decide]
  have hended : step.releasedBytes.toNat = Span.ended (graph.spans persistent) s := by
    rw [hreleased]
    exact Graph.toNat_bytesWhere htotal fun v w => by simp [beq_eq_decide]
  have hbefore : (graph.bytesWhere fun v =>
      graph.lifeStart v < s && s < graph.lifeStop persistent v).toNat =
        Span.weightWhere (graph.spans persistent) fun x => x.start < s && s < x.stop :=
    Graph.toNat_bytesWhere htotal fun v w => rfl
  refine ⟨?_, hbegun, hended⟩
  have hsum := Span.load_eq_begun (t := s) hlife
  rw [← hbefore, ← hbegun] at hsum
  have hlt : Span.load (graph.spans persistent) s < 2 ^ 64 := Span.load_le_total.trans_lt htotal
  rw [hlive, toNat_add_of_lt (hsum ▸ hlt), hsum]

/-- Schedule memory accounting.  For every graph with at least one op built through the API, its plan and
the schedule of that plan, with sizes that sum below `2 ^ 64`: when no extension of the region wraps, or
the alignments leave room for all values, the accounting of the schedule agrees with the lifetimes and
with the plan.  Only the bound by the region needs this condition. -/
theorem schedBuildImpl_accounts (qsort : Planner → List SortEntry) (calls : List GraphCall)
    (persistent : Bool) (policy : SchedPolicy) (hints : ℕ → UInt8) (graph graph' : Graph)
    (memPlan : GraphMemPlan) (plan : SchedPlan)
    (hplan : graphMemoryPlanImpl qsort (graphBuild calls) persistent = (graph, .ok memPlan))
    (hsched : schedBuildImpl graph memPlan policy hints persistent = (graph', .ok plan))
    (hqsort : ∀ planner, graph.planner persistent = .ok planner →
      IsQsorted planner (qsort planner))
    (hops : graph.ops ≠ []) (htotal : Span.total (graph.spans persistent) < 2 ^ 64)
    (hfits : graph.PeakFits qsort persistent) :
    AccountsFor graph persistent memPlan plan := by
  obtain ⟨hgraph, hsorted, planner, base, hplanner, hbase, hpeakEq, hregionEq⟩ :=
    graphMemoryPlanImpl_ok hplan
  obtain ⟨hgraph', hlen, hsteps⟩ := schedBuildImpl_ok hsched
  obtain rfl : graph' = graph := by
    rw [hgraph', Graph.ensureSorted, if_pos hsorted]
  have hbuilt : graph'.Built := hgraph ▸ (graphBuilt_run calls).ensureSorted
  have hfit : graph'.EpochsFit := by
    rw [hgraph]
    unfold Graph.ensureSorted
    split_ifs
    · exact graphBuild_epochsFit calls
    · exact (graphBuild_epochsFit calls).topoSort
  obtain ⟨hspans, hvalid, hpin, harena⟩ := Graph.planner_ok hfit hbuilt.ops_le hops hplanner
  have hlife : ∀ x ∈ graph'.spans persistent, x.start < x.stop := by
    rw [← hspans]
    intro x hx
    obtain ⟨a, ha, rfl⟩ := List.mem_map.mp hx
    exact (hvalid a ha).start_lt
  obtain ⟨hpeak, hle⟩ := paiMemPlanBuild_isPeak hvalid hpin harena (hqsort planner hplanner)
    (hspans ▸ htotal) hbase
  rw [hspans, ← hpeakEq] at hpeak
  have hcounts (s : ℕ) (step : SchedStep) (hstep : plan.steps[s]? = some step) :=
    schedStep_counts htotal hlife (hsteps s step hstep)
  refine ⟨fun s step hstep => (hcounts s step hstep).1, fun s step next hstep hnext => ?_,
    fun s step next hstep hnext => ?_, fun step hmem => ?_, ?_, ?_⟩
  · rw [(hcounts s step hstep).1, (hcounts _ next hnext).2.2]
    exact Span.ended_le_load hlife
  · have hsucc := Span.load_succ (t := s) hlife
    have hended := Span.ended_le_load (t := s) hlife
    rw [(hcounts s step hstep).1, (hcounts _ next hnext).1, (hcounts _ next hnext).2.1,
      (hcounts _ next hnext).2.2]
    omega
  · obtain ⟨s, hs⟩ := List.mem_iff_getElem?.mp hmem
    rw [UInt64.le_iff_toNat_le, (hcounts s step hs).1]
    exact hpeak.load_le s
  · -- the step where the peak is attained, or the first one when nothing is alive at all
    obtain ⟨s, hs, hge⟩ : ∃ s < graph'.ops.length,
        memPlan.peakLive.toNat ≤ Span.load (graph'.spans persistent) s := by
      obtain hzero | ⟨x, hx, hge⟩ := hpeak.attained
      · exact ⟨0, List.length_pos_of_ne_nil hops, hzero.le.trans (Nat.zero_le _)⟩
      · obtain ⟨y, -, rfl⟩ := List.mem_map.mp hx
        exact ⟨_, (hfit.life_le hops persistent y.2).1, hge⟩
    obtain ⟨step, hget⟩ : ∃ step, plan.steps[s]? = some step :=
      ⟨_, List.getElem?_eq_getElem (hlen.symm ▸ hs)⟩
    refine ⟨step, List.mem_of_getElem? hget, UInt64.toNat_inj.mp ?_⟩
    rw [(hcounts s step hget).1]
    exact le_antisymm (hpeak.load_le s) hge
  · rw [hpeakEq, hregionEq]
    exact hle (hfits planner hplanner)

/-- An addition, one of whose operands ends with it. -/
def oneAddition : List GraphCall :=
  [.addValue .f32 [4] 0, .addValue .f32 [4] 0, .addValue .f32 [4] 0, .addOp .add [1, 2] [3],
    .setOutput 3]

/-- Two operands that leave no multiple of the second one's alignment behind the first. -/
def crowdedOperands : List GraphCall :=
  [.addValue .u8 [0xC000000000000000] 16, .addValue .u8 [0x2000000000000000] 0x8000000000000000,
    .addOp .custom [1, 2] []]

/-- The accounting of an addition. -/
theorem schedBuildImpl_accounts_addition :
    ∃ graph graph' memPlan plan,
      graphMemoryPlanImpl sortEntries (graphBuild oneAddition) true = (graph, .ok memPlan) ∧
      schedBuildImpl graph memPlan .interactive (fun _ => 0) true = (graph', .ok plan) ∧
      AccountsFor graph true memPlan plan := by
  refine ⟨_, _, _, _, rfl, rfl, ?_⟩
  refine schedBuildImpl_accounts sortEntries oneAddition true .interactive (fun _ => 0) _ _ _ _ rfl
    rfl ?_ ?_ ?_ ?_
  · intro planner hplanner
    obtain rfl := Except.ok.inj hplanner
    exact ⟨List.Perm.refl _, by decide +kernel⟩
  · decide
  · decide +kernel
  · intro planner hplanner
    obtain rfl := Except.ok.inj hplanner
    exact Or.inl (by decide +kernel)

/-- The second operand is placed at the start of the region, which ends before the peak. -/
theorem schedBuildImpl_peak_overruns :
    ∃ graph graph' memPlan plan,
      graphMemoryPlanImpl sortEntries (graphBuild crowdedOperands) false = (graph, .ok memPlan) ∧
      schedBuildImpl graph memPlan .interactive (fun _ => 0) false = (graph', .ok plan) ∧
      (∀ planner, graph.planner false = .ok planner → IsQsorted planner (sortEntries planner)) ∧
      graph.ops ≠ [] ∧ Span.total (graph.spans false) < 2 ^ 64 ∧
      ¬ AccountsFor graph false memPlan plan := by
  refine ⟨_, _, _, _, rfl, rfl, fun planner hplanner => ?_, by decide, by decide +kernel,
    fun haccounts => ?_⟩
  · obtain rfl := Except.ok.inj hplanner
    exact ⟨List.Perm.refl _, by decide +kernel⟩
  · exact absurd haccounts.peak_le_region (by decide +kernel)

end Prospero
