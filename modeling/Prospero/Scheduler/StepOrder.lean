import Prospero.Graph.TopoSort
import Prospero.Scheduler.Accounting

/-!
# The order of a schedule

In a sorted graph the epochs tell the ops apart and put every producer before its consumers
(`graphBuild_ordered`).  A schedule looks up the op of each epoch, so it has every op once, in such an order
(`schedBuildImpl_orders`).
-/

namespace Prospero

/-! ## Sorted graphs -/

/-- The epochs tell the ops apart, and every producer comes before its consumers. -/
structure Graph.Ordered (graph : Graph) : Prop where
  /-- No two ops share an epoch. -/
  inj : ∀ o ∈ graph.opIds, ∀ o' ∈ graph.opIds, graph.epoch o = graph.epoch o' → o = o'
  /-- Producers come first. -/
  before : ∀ p c, graph.Feeds p c → graph.epoch p < graph.epoch c

lemma Graph.Ordered.of_ops {graph graph' : Graph} (h : graph.Ordered) (hops : graph'.ops = graph.ops) :
    graph'.Ordered := by
  have hop : graph'.op? = graph.op? := by
    funext o
    rw [Graph.op?, Graph.op?, hops]
  have hids : graph'.opIds = graph.opIds := by
    rw [Graph.opIds, Graph.opIds, hops]
  refine ⟨?_, ?_⟩
  · unfold Graph.epoch
    rw [hids, hop]
    exact h.inj
  · unfold Graph.Feeds Graph.epoch
    rw [hop]
    exact h.before

/-- A sort that succeeds leaves an ordered graph. -/
lemma Graph.Built.topoSort_ordered {graph : Graph} (h : graph.Built)
    (hsorted : (paiGraphTopoSort graph).1.sorted = true) : (paiGraphTopoSort graph).1.Ordered := by
  obtain ⟨-, -, hall⟩ := h.kahn_order
  unfold paiGraphTopoSort at hsorted ⊢
  split_ifs at hsorted ⊢ with hlen
  have hlen := not_not.mp hlen
  have hepoch := fun o => h.epoch_setEpochs hlen (o := o)
  set graph' : Graph :=
    { graph with ops := setEpochs graph.ops graph.kahn.order, sorted := true } with hgraph'
  have hcount : (setEpochs graph.ops graph.kahn.order).length = graph.ops.length :=
    (setEpochs_spec graph.ops graph.kahn.order).1
  have hids : graph'.opIds = graph.opIds := by
    rw [Graph.opIds, Graph.opIds, hgraph', hcount]
  -- the ops are the same apart from the epochs
  have hsame (o : ℕ) (op' : GraphOp) (hop' : graph'.op? o = some op') :
      ∃ op, graph.op? o = some op ∧ op.inputs = op'.inputs ∧ op.outputs = op'.outputs := by
    unfold Graph.op? at hop' ⊢
    split_ifs at hop' ⊢ with ho
    obtain ⟨epoch, hget⟩ := exists_setEpochs graph.ops graph.kahn.order (o - 1)
    rw [hgraph', hget] at hop'
    obtain ⟨op, hop, rfl⟩ := Option.map_eq_some_iff.mp hop'
    exact ⟨op, hop, rfl, rfl⟩
  refine ⟨fun o ho o' ho' heq => ?_, fun p c hfeeds => ?_⟩
  · rw [hids] at ho ho'
    rw [hepoch o ho, hepoch o' ho'] at heq
    exact (List.idxOf_inj (hall hlen o ho)).mp heq
  · obtain ⟨producer', consumer', v, hp', hc', hout, hin⟩ := hfeeds
    obtain ⟨producer, hp, -, houts⟩ := hsame p producer' hp'
    obtain ⟨consumer, hc, hins, -⟩ := hsame c consumer' hc'
    have hfeeds : graph.Feeds p c := ⟨producer, consumer, v, hp, hc, houts ▸ hout, hins ▸ hin⟩
    have hpid := Graph.mem_opIds_iff_op?.mpr ⟨producer, hp⟩
    have hcid := Graph.mem_opIds_iff_op?.mpr ⟨consumer, hc⟩
    rw [hepoch p hpid, hepoch c hcid]
    exact (h.kahn_sound.1.before p c hfeeds (hall hlen c hcid)).2

/-- Every call keeps a sorted graph ordered. -/
lemma Graph.Built.step_ordered {graph : Graph} (hbuilt : graph.Built)
    (h : graph.sorted = true → graph.Ordered) (call : GraphCall) (hsorted : (graph.step call).sorted = true) :
    (graph.step call).Ordered := by
  cases call with
  | addValue dtype shape align =>
    change (paiGraphAddValue graph dtype shape align).1.sorted = true at hsorted
    change (paiGraphAddValue graph dtype shape align).1.Ordered
    rcases paiGraphAddValue_cases graph dtype shape align with
      heq | ⟨value, -, -, -, -, -, -, -, -, heq⟩
    · rw [heq] at hsorted ⊢
      exact h hsorted
    · rw [heq] at hsorted ⊢
      exact (h hsorted).of_ops rfl
  | addOp kind inputs outputs =>
    change (paiGraphAddOp graph kind inputs outputs).1.sorted = true at hsorted
    change (paiGraphAddOp graph kind inputs outputs).1.Ordered
    rcases paiGraphAddOp_cases graph kind inputs outputs with heq | ⟨-, heq⟩
    · rw [heq] at hsorted ⊢
      exact h hsorted
    · rw [heq] at hsorted
      cases hsorted
  | setInput id =>
    unfold Graph.step paiGraphSetInput Graph.mark at hsorted ⊢
    simp only at hsorted ⊢
    split_ifs at hsorted ⊢
    · exact (h hsorted).of_ops rfl
    · exact h hsorted
  | setOutput id =>
    unfold Graph.step paiGraphSetOutput Graph.mark at hsorted ⊢
    simp only at hsorted ⊢
    split_ifs at hsorted ⊢
    · exact (h hsorted).of_ops rfl
    · exact h hsorted
  | topoSort => exact hbuilt.topoSort_ordered hsorted

/-- A graph of the API that is sorted is ordered. -/
lemma graphBuild_ordered (calls : List GraphCall) (hsorted : (graphBuild calls).sorted = true) :
    (graphBuild calls).Ordered := by
  have hrun : ∀ (calls : List GraphCall) (graph : Graph), graph.Built →
      (graph.sorted = true → graph.Ordered) →
      (calls.foldl Graph.step graph).sorted = true → (calls.foldl Graph.step graph).Ordered := by
    intro calls
    induction calls with
    | nil => exact fun _ _ h => h
    | cons call calls ih =>
      exact fun graph hbuilt h => ih (graph.step call) (hbuilt.step call) (hbuilt.step_ordered h call)
  exact hrun calls paiGraphInit graphInit_built (fun h => by cases h) hsorted

lemma graphBuild_ensureSorted_ordered (calls : List GraphCall)
    (hsorted : (graphBuild calls).ensureSorted.1.sorted = true) :
    (graphBuild calls).ensureSorted.1.Ordered := by
  unfold Graph.ensureSorted at hsorted ⊢
  split_ifs at hsorted ⊢ with h
  · exact graphBuild_ordered calls h
  · exact (graphBuilt_run calls).topoSort_ordered hsorted

/-! ## Steps -/

/-- The search finds an op of the epoch, if there is one. -/
lemma Graph.opAtEpoch_cases (graph : Graph) (s : ℕ) :
    (graph.opAtEpoch s = 0 ∧ ∀ op ∈ graph.ops, op.epoch ≠ s) ∨
      ∃ op, graph.op? (graph.opAtEpoch s) = some op ∧ op.epoch = s := by
  have hfold : ∀ (ops : List GraphOp) (n acc : ℕ),
      ((ops.zipIdx n).foldl (fun acc x => if x.1.epoch = s then x.2 else acc) acc = acc ∧
          ∀ op ∈ ops, op.epoch ≠ s) ∨
        ∃ i op, ops[i]? = some op ∧ op.epoch = s ∧
          (ops.zipIdx n).foldl (fun acc x => if x.1.epoch = s then x.2 else acc) acc = n + i := by
    intro ops
    induction ops with
    | nil => exact fun n acc => Or.inl ⟨rfl, fun op hop => absurd hop List.not_mem_nil⟩
    | cons op ops ih =>
      intro n acc
      rw [List.zipIdx_cons, List.foldl_cons, List.forall_mem_cons]
      rcases ih (n + 1) (if op.epoch = s then n else acc) with
        ⟨hsame, hnone⟩ | ⟨i, op', hget, hepoch, heq⟩
      · rw [hsame]
        by_cases hop : op.epoch = s
        · exact Or.inr ⟨0, op, rfl, hop, if_pos hop⟩
        · exact Or.inl ⟨if_neg hop, hop, hnone⟩
      · exact Or.inr ⟨i + 1, op', hget, hepoch, by rw [heq]; omega⟩
  rcases hfold graph.ops 1 0 with hzero | ⟨i, op, hget, hepoch, heq⟩
  · exact Or.inl hzero
  · refine Or.inr ⟨op, ?_, hepoch⟩
    unfold Graph.opAtEpoch
    rw [heq, Graph.op?, if_neg (by omega), Nat.add_sub_cancel_left]
    exact hget

lemma Graph.opAtEpoch_spec {graph : Graph} {s : ℕ} (h : graph.opAtEpoch s ≠ 0) :
    ∃ op, graph.op? (graph.opAtEpoch s) = some op ∧ op.epoch = s :=
  (graph.opAtEpoch_cases s).resolve_left fun hzero => h hzero.1

lemma Graph.epoch_eq {graph : Graph} {o : ℕ} {op : GraphOp} (h : graph.op? o = some op) :
    graph.epoch o = op.epoch := by
  rw [Graph.epoch, h]

/-- The op of an epoch is found again. -/
lemma Graph.Ordered.opAtEpoch_epoch {graph : Graph} (h : graph.Ordered) {o : ℕ} (ho : o ∈ graph.opIds) :
    graph.opAtEpoch (graph.epoch o) = o := by
  obtain ⟨op, hop⟩ := Graph.mem_opIds_iff_op?.mp ho
  rcases graph.opAtEpoch_cases (graph.epoch o) with ⟨-, hnone⟩ | ⟨op', hop', hepoch⟩
  · exact absurd (Graph.epoch_eq hop).symm (hnone op (Graph.op?_eq_some hop).2.2)
  · exact h.inj _ (Graph.mem_opIds_iff_op?.mpr ⟨op', hop'⟩) _ ho ((Graph.epoch_eq hop').trans hepoch)

/-- The epochs are the steps. -/
lemma Graph.Ordered.epochs_perm {graph : Graph} (h : graph.Ordered) (hfit : graph.EpochsFit) :
    (graph.opIds.map graph.epoch).Perm (List.range graph.ops.length) := by
  have hnodup : (graph.opIds.map graph.epoch).Nodup :=
    graph.opIds_nodup.map_on fun o ho o' ho' heq => h.inj o ho o' ho' heq
  have hsub : graph.opIds.map graph.epoch ⊆ List.range graph.ops.length := by
    intro t ht
    obtain ⟨o, ho, rfl⟩ := List.mem_map.mp ht
    obtain ⟨op, hop⟩ := Graph.mem_opIds_iff_op?.mp ho
    rw [List.mem_range, Graph.epoch_eq hop]
    exact hfit op (Graph.op?_eq_some hop).2.2
  exact (List.subperm_of_subset hnodup hsub).perm_of_length_le
    (by rw [List.length_range, List.length_map, graph.length_opIds])

/-- Every step has an op. -/
lemma Graph.Ordered.exists_epoch {graph : Graph} (h : graph.Ordered) (hfit : graph.EpochsFit) {s : ℕ}
    (hs : s < graph.ops.length) : ∃ o ∈ graph.opIds, graph.epoch o = s :=
  List.mem_map.mp ((h.epochs_perm hfit).mem_iff.mpr (List.mem_range.mpr hs))

/-- The ops in the order of their epochs. -/
lemma Graph.Ordered.steps_perm {graph : Graph} (h : graph.Ordered) (hfit : graph.EpochsFit) :
    ((List.range graph.ops.length).map graph.opAtEpoch).Perm graph.opIds := by
  have hback : (graph.opIds.map graph.epoch).map graph.opAtEpoch = graph.opIds := by
    rw [List.map_map]
    exact (List.map_congr_left fun o ho => h.opAtEpoch_epoch ho).trans (List.map_id _)
  have hperm := (h.epochs_perm hfit).symm.map graph.opAtEpoch
  rwa [hback] at hperm

/-- Each op stands at its epoch. -/
lemma Graph.Ordered.idxOf_steps {graph : Graph} (h : graph.Ordered) (hfit : graph.EpochsFit) {o : ℕ}
    (ho : o ∈ graph.opIds) :
    ((List.range graph.ops.length).map graph.opAtEpoch).idxOf o = graph.epoch o := by
  obtain ⟨op, hop⟩ := Graph.mem_opIds_iff_op?.mp ho
  have hlt : graph.epoch o < ((List.range graph.ops.length).map graph.opAtEpoch).length := by
    rw [List.length_map, List.length_range, Graph.epoch_eq hop]
    exact hfit op (Graph.op?_eq_some hop).2.2
  have hget : ((List.range graph.ops.length).map graph.opAtEpoch)[graph.epoch o] = o := by
    rw [List.getElem_map, List.getElem_range]
    exact h.opAtEpoch_epoch ho
  have hnodup := (h.steps_perm hfit).nodup_iff.mpr graph.opIds_nodup
  have hidx := hnodup.idxOf_getElem (graph.epoch o) hlt
  rwa [hget] at hidx

/-- Each step of a schedule is the op of its epoch. -/
lemma schedBuildImpl_epoch {graph graph' : Graph} {memPlan : GraphMemPlan} {policy : SchedPolicy}
    {hints : ℕ → UInt8} {persistent : Bool} {plan : SchedPlan}
    (h : schedBuildImpl graph memPlan policy hints persistent = (graph', .ok plan)) {s : ℕ}
    {step : SchedStep} (hstep : plan.steps[s]? = some step) :
    ∃ op, graph'.op? step.opId = some op ∧ op.epoch = s := by
  have hs := (schedBuildImpl_ok h).2.2 s step hstep
  have hopId : step.opId = graph'.opAtEpoch s := by
    unfold schedStep at hs
    simp only at hs
    split at hs
    · cases hs
    · split at hs
      · cases hs
      · cases hs
        rfl
  obtain ⟨op, hop⟩ := (schedStep_ok hs).1
  have hne : graph'.opAtEpoch s ≠ 0 := by
    rw [← hopId]
    exact Nat.one_le_iff_ne_zero.mp (Graph.op?_eq_some hop).1
  rw [hopId]
  exact Graph.opAtEpoch_spec hne

/-! ## Schedules -/

/-- An ordered graph has no cycle. -/
lemma Graph.Ordered.acyclic {graph : Graph} (h : graph.Ordered) : graph.Acyclic := by
  have hlt (p c : ℕ) (htrans : Relation.TransGen graph.Feeds p c) : graph.epoch p < graph.epoch c := by
    induction htrans with
    | single hfeeds => exact h.before _ _ hfeeds
    | tail _ hfeeds ih => exact ih.trans (h.before _ _ hfeeds)
  exact fun o htrans => lt_irrefl _ (hlt o o htrans)

/-- A sort changes no relation between ops. -/
lemma Graph.feeds_ensureSorted {graph : Graph} {p c : ℕ} :
    graph.ensureSorted.1.Feeds p c ↔ graph.Feeds p c := by
  unfold Graph.ensureSorted
  split_ifs
  · rfl
  unfold paiGraphTopoSort
  split_ifs
  · rfl
  -- the ops are the same apart from the epochs
  have hsame (o : ℕ) : ∃ epoch : GraphOp → ℕ, Graph.op? { graph with
      ops := setEpochs graph.ops graph.kahn.order, sorted := true } o =
        (graph.op? o).map fun op => { op with epoch := epoch op } := by
    unfold Graph.op?
    split_ifs
    · exact ⟨GraphOp.epoch, rfl⟩
    · exact exists_setEpochs graph.ops graph.kahn.order (o - 1)
  obtain ⟨epoch, hp⟩ := hsame p
  obtain ⟨epoch', hc⟩ := hsame c
  unfold Graph.Feeds
  rw [hp, hc]
  constructor
  · rintro ⟨producer', consumer', v, hp', hc', hout, hin⟩
    obtain ⟨producer, hproducer, rfl⟩ := Option.map_eq_some_iff.mp hp'
    obtain ⟨consumer, hconsumer, rfl⟩ := Option.map_eq_some_iff.mp hc'
    exact ⟨producer, consumer, v, hproducer, hconsumer, hout, hin⟩
  · rintro ⟨producer, consumer, v, hproducer, hconsumer, hout, hin⟩
    rw [hproducer, hconsumer]
    exact ⟨_, _, v, rfl, rfl, hout, hin⟩

/-- A device is found for every hint up to two. -/
lemma resolveDevice_isOk (kind : OpKind) (policy : SchedPolicy) (hint : UInt8) :
    (∃ device, resolveDevice kind policy hint = .ok device) ↔ hint ≤ 2 := by
  have hsmall : hint ≤ 2 ↔ hint = 0 ∨ hint = 1 ∨ hint = 2 := by
    rw [UInt8.le_iff_toNat_le, ← UInt8.toNat_inj, ← UInt8.toNat_inj, ← UInt8.toNat_inj]
    change hint.toNat ≤ 2 ↔ hint.toNat = 0 ∨ hint.toNat = 1 ∨ hint.toNat = 2
    omega
  rw [hsmall]
  unfold resolveDevice
  split_ifs with hzero hone htwo hexclusive
  · exact iff_of_true ⟨_, rfl⟩ (Or.inr (Or.inl hone))
  · exact iff_of_true ⟨_, rfl⟩ (Or.inr (Or.inr htwo))
  · refine iff_of_false (fun h => ?_) fun h => ?_
    · obtain ⟨device, hdevice⟩ := h
      cases hdevice
    · rcases h with h | h | h
      · exact hzero h
      · exact hone h
      · exact htwo h
  · exact iff_of_true ⟨_, rfl⟩ (Or.inl (not_not.mp hzero))
  · exact iff_of_true ⟨_, rfl⟩ (Or.inl (not_not.mp hzero))

lemma exists_mapM_ok {α β ε : Type} {f : α → Except ε β} {l : List α} (h : ∀ a ∈ l, ∃ b, f a = .ok b) :
    ∃ bs, l.mapM f = .ok bs := by
  induction l with
  | nil => exact ⟨[], rfl⟩
  | cons a l ih =>
    rw [List.forall_mem_cons] at h
    obtain ⟨b, hb⟩ := h.1
    obtain ⟨bs, hbs⟩ := ih h.2
    refine ⟨b :: bs, ?_⟩
    rw [List.mapM_cons, hb, hbs]
    rfl

/-- The sort that a schedule starts with succeeds exactly without a cycle. -/
lemma ensureSorted_ok_iff (calls : List GraphCall) :
    (graphBuild calls).ensureSorted.2 = paiOk ↔ (graphBuild calls).Acyclic := by
  have hbuilt := graphBuilt_run calls
  unfold Graph.ensureSorted
  split_ifs with hsorted
  · exact iff_of_true rfl (graphBuild_ordered calls hsorted).acyclic
  · unfold paiGraphTopoSort
    split_ifs with hlen
    · exact iff_of_false (show paiErrMismatch ≠ paiOk by decide) fun h => hlen (hbuilt.kahn_complete.mpr h)
    · exact iff_of_true rfl (hbuilt.kahn_complete.mp (not_not.mp hlen))

/-- Building a schedule for any graph of the API succeeds exactly when no op depends on itself and every hint
is one of the three; the schedule then has every op exactly once, with every producer before its consumers. -/
theorem schedBuildImpl_orders (calls : List GraphCall) (memPlan : GraphMemPlan) (policy : SchedPolicy)
    (hints : ℕ → UInt8) (persistent : Bool) :
    ((∃ plan, (schedBuildImpl (graphBuild calls) memPlan policy hints persistent).2 = .ok plan) ↔
      (graphBuild calls).Acyclic ∧ ∀ o, 1 ≤ o → o ≤ (graphBuild calls).ops.length → hints o ≤ 2) ∧
    ∀ plan, (schedBuildImpl (graphBuild calls) memPlan policy hints persistent).2 = .ok plan →
      (plan.steps.map SchedStep.opId).Perm (graphBuild calls).opIds ∧
      ∀ p c, (graphBuild calls).Feeds p c →
        (plan.steps.map SchedStep.opId).idxOf p < (plan.steps.map SchedStep.opId).idxOf c := by
  obtain ⟨graph, hgraph⟩ : ∃ graph, graph = (graphBuild calls).ensureSorted.1 := ⟨_, rfl⟩
  have hcount : graph.ops.length = (graphBuild calls).ops.length := by
    rw [hgraph]
    unfold Graph.ensureSorted paiGraphTopoSort
    split_ifs
    · rfl
    · rfl
    · exact (setEpochs_spec _ _).1
  have hids : graph.opIds = (graphBuild calls).opIds := by
    rw [Graph.opIds, Graph.opIds, hcount]
  have hfit : graph.EpochsFit := by
    rw [hgraph]
    unfold Graph.ensureSorted
    split_ifs
    · exact graphBuild_epochsFit calls
    · exact (graphBuild_epochsFit calls).topoSort
  have hordered (hok : (graphBuild calls).ensureSorted.2 = paiOk) : graph.Ordered := by
    rw [hgraph]
    refine graphBuild_ensureSorted_ordered calls ?_
    unfold Graph.ensureSorted at hok ⊢
    split_ifs at hok ⊢ with hsorted
    · exact hsorted
    · unfold paiGraphTopoSort at hok ⊢
      split_ifs at hok ⊢
      · exact absurd hok (show paiErrMismatch ≠ paiOk by decide)
      · rfl
  -- what a schedule says about the graph
  have hplan (plan : SchedPlan)
      (h : (schedBuildImpl (graphBuild calls) memPlan policy hints persistent).2 = .ok plan) :
      (graphBuild calls).ensureSorted.2 = paiOk ∧ plan.steps.length = graph.ops.length ∧
        ∀ s step, plan.steps[s]? = some step → step.opId = graph.opAtEpoch s ∧
          ∃ op, graph.op? step.opId = some op ∧ op.epoch = s ∧ hints step.opId ≤ 2 := by
    have hok : (graphBuild calls).ensureSorted.2 = paiOk := by
      unfold schedBuildImpl at h
      by_contra hbad
      simp only [ne_eq, hbad, not_false_eq_true, if_true] at h
      cases h
    have hbuild : schedBuildImpl (graphBuild calls) memPlan policy hints persistent =
        ((schedBuildImpl (graphBuild calls) memPlan policy hints persistent).1, .ok plan) :=
      Prod.ext rfl h
    obtain ⟨hgraph', hlen, hsteps⟩ := schedBuildImpl_ok hbuild
    rw [← hgraph] at hgraph'
    rw [hgraph'] at hlen hsteps
    refine ⟨hok, hlen, fun s step hstep => ?_⟩
    have hs := hsteps s step hstep
    obtain ⟨op, hop, hepoch⟩ := schedBuildImpl_epoch hbuild hstep
    rw [hgraph'] at hop
    unfold schedStep at hs
    simp only at hs
    split at hs
    · cases hs
    · next op' hop' =>
      split at hs
      · cases hs
      · next device hdevice =>
        cases hs
        exact ⟨rfl, op, hop, hepoch, (resolveDevice_isOk _ _ _).mp ⟨device, hdevice⟩⟩
  refine ⟨⟨?_, ?_⟩, fun plan h => ?_⟩
  · rintro ⟨plan, h⟩
    obtain ⟨hok, hlen, hsteps⟩ := hplan plan h
    refine ⟨(ensureSorted_ok_iff calls).mp hok, fun o h1 h2 => ?_⟩
    have ho : o ∈ graph.opIds := hids ▸ Graph.mem_opIds.mpr ⟨h1, h2⟩
    obtain ⟨op, hop⟩ := Graph.mem_opIds_iff_op?.mp ho
    have hlt : graph.epoch o < plan.steps.length := by
      rw [hlen, Graph.epoch_eq hop]
      exact hfit op (Graph.op?_eq_some hop).2.2
    obtain ⟨hid, -, -, -, hhint⟩ := hsteps _ _ (List.getElem?_eq_getElem hlt)
    rwa [hid, (hordered hok).opAtEpoch_epoch ho] at hhint
  · rintro ⟨hacyclic, hhints⟩
    have hok := (ensureSorted_ok_iff calls).mpr hacyclic
    obtain ⟨steps, hsteps⟩ := @exists_mapM_ok _ _ _ (schedStep graph policy hints
        (if persistent then graph.lifeEndPersistent else graph.lifeEnd)) (List.range graph.ops.length)
      fun s hs => by
        obtain ⟨o, ho, rfl⟩ := (hordered hok).exists_epoch hfit (List.mem_range.mp hs)
        obtain ⟨op, hop⟩ := Graph.mem_opIds_iff_op?.mp ho
        obtain ⟨h1, h2⟩ := Graph.mem_opIds.mp ho
        obtain ⟨device, hdevice⟩ := (resolveDevice_isOk op.kind policy (hints o)).mpr
          (hhints o h1 (hcount ▸ h2))
        unfold schedStep
        simp only [(hordered hok).opAtEpoch_epoch ho, hop, hdevice]
        exact ⟨_, rfl⟩
    unfold schedBuildImpl
    simp only [ne_eq, hok, not_true_eq_false, if_false]
    rw [← hgraph, hsteps]
    exact ⟨_, rfl⟩
  · obtain ⟨hok, hlen, hsteps⟩ := hplan plan h
    have hord := hordered hok
    have hids' : (plan.steps.map SchedStep.opId) = (List.range graph.ops.length).map graph.opAtEpoch := by
      refine List.ext_getElem? fun s => ?_
      rw [List.getElem?_map, List.getElem?_map]
      by_cases hs : s < graph.ops.length
      · have hget := List.getElem?_eq_getElem (hlen ▸ hs : s < plan.steps.length)
        rw [List.getElem?_range hs, hget]
        exact congrArg some (hsteps s _ hget).1
      · rw [List.getElem?_eq_none (by omega), List.getElem?_eq_none (by rw [List.length_range]; omega)]
        rfl
    rw [hids', ← hids]
    refine ⟨hord.steps_perm hfit, fun p c hfeeds => ?_⟩
    rw [← Graph.feeds_ensureSorted, ← hgraph] at hfeeds
    obtain ⟨producer, consumer, v, hp, hc, -⟩ := id hfeeds
    rw [hord.idxOf_steps hfit (Graph.mem_opIds_iff_op?.mpr ⟨producer, hp⟩),
      hord.idxOf_steps hfit (Graph.mem_opIds_iff_op?.mpr ⟨consumer, hc⟩)]
    exact hord.before p c hfeeds

end Prospero
