import Prospero.Graph.Graph

/-!
# What the graph API keeps

Every value of a graph has the exact size of its shape, every op names existing values, an op is the
recorded producer of exactly its outputs, and no op consumes its own output.  One lemma for each call,
then any sequence of calls (`graphBuilt_run`).
-/

namespace Prospero

/-! ## Well-formed graphs -/

/-- A value whose size is the exact size of its shape and whose alignment is a power of two. -/
structure GraphValue.WellFormed (value : GraphValue) : Prop where
  /-- The size agrees with shape and element type. -/
  size_eq : paiTensorContiguousSize value.dtype value.shape = .ok value.sizeBytes
  /-- The alignment is a power of two. -/
  align_pow2 : value.align ≠ 0 ∧ isPow2 value.align = true

/-- An op over the values `1 .. n` whose outputs are distinct and not consumed by it. -/
structure GraphOp.WellFormed (n : ℕ) (op : GraphOp) : Prop where
  /-- The inputs fit. -/
  inputs_le : op.inputs.length ≤ paiGraphMaxArity
  /-- The outputs fit. -/
  outputs_le : op.outputs.length ≤ paiGraphMaxArity
  /-- Inputs exist. -/
  inputs_exist : ∀ id ∈ op.inputs, 1 ≤ id ∧ id ≤ n
  /-- Outputs exist. -/
  outputs_exist : ∀ id ∈ op.outputs, 1 ≤ id ∧ id ≤ n
  /-- Outputs are distinct. -/
  outputs_nodup : op.outputs.Nodup
  /-- No output is consumed by its own op. -/
  inputs_disjoint : ∀ id ∈ op.inputs, id ∉ op.outputs

/-- What the graph API keeps. -/
structure Graph.Built (graph : Graph) : Prop where
  /-- The values fit their table. -/
  values_le : graph.values.length ≤ paiGraphMaxValues
  /-- The ops fit their table. -/
  ops_le : graph.ops.length ≤ paiGraphMaxOps
  /-- Every value is well formed. -/
  values_wf : ∀ value ∈ graph.values, value.WellFormed
  /-- Every op is well formed. -/
  ops_wf : ∀ op ∈ graph.ops, op.WellFormed graph.values.length
  /-- An op is the recorded producer of its outputs. -/
  producer_of_output : ∀ o op, graph.op? o = some op → ∀ v ∈ op.outputs, graph.producer v = o
  /-- A recorded producer produces the value. -/
  output_of_producer : ∀ v, graph.producer v ≠ 0 →
    ∃ op, graph.op? (graph.producer v) = some op ∧ v ∈ op.outputs

/-! ## Lookups -/

lemma Graph.value?_eq_some {graph : Graph} {id : ℕ} {value : GraphValue}
    (h : graph.value? id = some value) :
    1 ≤ id ∧ id ≤ graph.values.length ∧ value ∈ graph.values := by
  unfold Graph.value? at h
  split_ifs at h with hid
  obtain ⟨hlt, -⟩ := List.getElem?_eq_some_iff.mp h
  exact ⟨by omega, by omega, List.mem_of_getElem? h⟩

lemma Graph.value?_of_le {graph : Graph} {id : ℕ} (h1 : 1 ≤ id) (h2 : id ≤ graph.values.length) :
    ∃ value, graph.value? id = some value := by
  rw [Graph.value?, if_neg (by omega)]
  exact ⟨_, List.getElem?_eq_getElem (by omega)⟩

lemma Graph.op?_eq_some {graph : Graph} {o : ℕ} {op : GraphOp} (h : graph.op? o = some op) :
    1 ≤ o ∧ o ≤ graph.ops.length ∧ op ∈ graph.ops := by
  unfold Graph.op? at h
  split_ifs at h with ho
  obtain ⟨hlt, -⟩ := List.getElem?_eq_some_iff.mp h
  exact ⟨by omega, by omega, List.mem_of_getElem? h⟩

lemma Graph.op?_of_le {graph : Graph} {o : ℕ} (h1 : 1 ≤ o) (h2 : o ≤ graph.ops.length) :
    ∃ op, graph.op? o = some op := by
  rw [Graph.op?, if_neg (by omega)]
  exact ⟨_, List.getElem?_eq_getElem (by omega)⟩

/-- The values of an op of a built graph. -/
lemma Graph.Built.op_wf {graph : Graph} (h : graph.Built) {o : ℕ} {op : GraphOp}
    (hop : graph.op? o = some op) : op.WellFormed graph.values.length :=
  h.ops_wf op (Graph.op?_eq_some hop).2.2

/-! ## Adding a value -/

/-- An accepted value is well formed, without producer, and appended. -/
lemma paiGraphAddValue_cases (graph : Graph) (dtype : PaiDtype) (shape : List UInt64)
    (align : UInt64) :
    (paiGraphAddValue graph dtype shape align) = (graph, 0) ∨
      ∃ value : GraphValue, value.WellFormed ∧ value.producer = 0 ∧ value.dtype = dtype ∧
        value.shape = shape ∧ value.align = (if align ≠ 0 then align else 16) ∧
        value.isInput = false ∧ value.isOutput = false ∧
        graph.values.length < paiGraphMaxValues ∧
        paiGraphAddValue graph dtype shape align =
          ({ graph with values := graph.values ++ [value] }, graph.values.length + 1) := by
  unfold paiGraphAddValue
  by_cases hbad : shape.length = 0 ∨ paiTensorMaxRank < shape.length ∨
      paiGraphMaxValues ≤ graph.values.length ∨ (align ≠ 0 ∧ isPow2 align = false)
  · rw [if_pos hbad]
    exact Or.inl rfl
  rw [if_neg hbad]
  split
  · exact Or.inl rfl
  · next bytes hbytes =>
    simp only [not_or, not_le, not_lt, not_and] at hbad
    obtain ⟨-, -, hfull, halign⟩ := hbad
    refine Or.inr ⟨_, ⟨hbytes, ?_⟩, rfl, rfl, rfl, rfl, rfl, rfl, hfull, rfl⟩
    change (if align ≠ 0 then align else 16) ≠ 0 ∧ isPow2 (if align ≠ 0 then align else 16) = true
    split_ifs with hz
    · exact ⟨hz, Bool.not_eq_false _ ▸ halign hz⟩
    · decide

/-- A new value without producer changes no producer. -/
lemma Graph.producer_append {graph : Graph} {value : GraphValue} (hvalue : value.producer = 0)
    (id : ℕ) :
    ({ graph with values := graph.values ++ [value] } : Graph).producer id = graph.producer id := by
  unfold Graph.producer Graph.value?
  by_cases hid : id = 0
  · simp [hid]
  simp only [if_neg hid, List.getElem?_append]
  split_ifs with hlt
  · rfl
  · rw [List.getElem?_eq_none (by omega : graph.values.length ≤ id - 1)]
    cases hget : [value][id - 1 - graph.values.length]? with
    | none => rfl
    | some w =>
      have hmem := List.mem_of_getElem? hget
      rw [List.mem_singleton.mp hmem]
      exact hvalue

lemma Graph.Built.addValue {graph : Graph} (h : graph.Built) (dtype : PaiDtype)
    (shape : List UInt64) (align : UInt64) : (paiGraphAddValue graph dtype shape align).1.Built := by
  rcases paiGraphAddValue_cases graph dtype shape align with
    heq | ⟨value, hwf, hprod, -, -, -, -, -, hlt, heq⟩
  · rw [heq]
    exact h
  · rw [heq]
    have hlen : (graph.values ++ [value]).length = graph.values.length + 1 := by simp
    refine ⟨hlen.trans_le hlt, h.ops_le, ?_, ?_, ?_, ?_⟩
    · intro v hv
      rcases List.mem_append.mp hv with hv | hv
      · exact h.values_wf v hv
      · rw [List.mem_singleton.mp hv]
        exact hwf
    · intro op hop
      have hop := h.ops_wf op hop
      refine { hop with inputs_exist := ?_, outputs_exist := ?_ }
      · intro id hid
        have hle := hop.inputs_exist id hid
        exact ⟨hle.1, by change id ≤ (graph.values ++ [value]).length; omega⟩
      · intro id hid
        have hle := hop.outputs_exist id hid
        exact ⟨hle.1, by change id ≤ (graph.values ++ [value]).length; omega⟩
    · intro o op hop v hv
      rw [Graph.producer_append hprod]
      exact h.producer_of_output o op hop v hv
    · intro v hv
      rw [Graph.producer_append hprod] at hv ⊢
      exact h.output_of_producer v hv

/-! ## Adding an op -/

/-- Changing the listed values, by a change that twice is the same as once. -/
lemma getElem?_foldl_modify {f : GraphValue → GraphValue} (hf : ∀ value, f (f value) = f value)
    {ids : List ℕ} (hpos : ∀ v ∈ ids, 1 ≤ v) (values : List GraphValue) (i : ℕ) :
    (ids.foldl (fun values v => values.modify (v - 1) f) values)[i]? =
      values[i]?.map fun value => if i + 1 ∈ ids then f value else value := by
  induction ids generalizing values with
  | nil => simp
  | cons v vs ih =>
    have hv : 1 ≤ v := hpos v List.mem_cons_self
    rw [List.foldl_cons, ih fun w hw => hpos w (List.mem_cons_of_mem v hw), List.getElem?_modify,
      Option.map_eq_map, Option.map_map]
    congr 1
    funext value
    by_cases hi : v - 1 = i
    · obtain rfl : v = i + 1 := by omega
      by_cases hmem : i + 1 ∈ vs <;> simp [hmem, hf]
    · have hne : i + 1 ≠ v := by omega
      simp [hi, hne]

/-- Recording producers changes exactly the listed values. -/
lemma getElem?_setProducer {values : List GraphValue} {outputs : List ℕ} (id : ℕ)
    (hpos : ∀ v ∈ outputs, 1 ≤ v) (i : ℕ) :
    (setProducer values outputs id)[i]? =
      values[i]?.map fun value => if i + 1 ∈ outputs then { value with producer := id } else value :=
  getElem?_foldl_modify (f := fun value => { value with producer := id }) (fun _ => rfl) hpos values i

lemma length_foldl_modify (f : GraphValue → GraphValue) (ids : List ℕ) (values : List GraphValue) :
    (ids.foldl (fun values v => values.modify (v - 1) f) values).length = values.length := by
  induction ids generalizing values with
  | nil => rfl
  | cons v vs ih => rw [List.foldl_cons, ih, List.length_modify]

lemma length_setProducer (values : List GraphValue) (outputs : List ℕ) (id : ℕ) :
    (setProducer values outputs id).length = values.length :=
  length_foldl_modify (fun value => { value with producer := id }) outputs values

/-- The graph after an accepted op. -/
def Graph.withOp (graph : Graph) (kind : OpKind) (inputs outputs : List ℕ) : Graph :=
  { values := setProducer graph.values outputs (graph.ops.length + 1)
    ops := graph.ops ++ [⟨kind, inputs, outputs, 0⟩]
    sorted := false }

/-- What `pai_graph_add_op` checks. -/
structure Graph.OpAccepted (graph : Graph) (inputs outputs : List ℕ) : Prop where
  /-- There is room for an op. -/
  room : graph.ops.length < paiGraphMaxOps
  /-- The op is well formed. -/
  wf : ∀ kind, (⟨kind, inputs, outputs, 0⟩ : GraphOp).WellFormed graph.values.length
  /-- No output has a producer yet. -/
  fresh : ∀ v ∈ outputs, graph.producer v = 0

/-- The id test of the builder. -/
lemma Graph.badId_eq_false {graph : Graph} {id : ℕ} :
    graph.badId id = false ↔ 1 ≤ id ∧ id ≤ graph.values.length := by
  rw [Graph.badId, Bool.or_eq_false_iff, beq_eq_false_iff_ne, decide_eq_false_iff_not, not_lt]
  omega

lemma paiGraphAddOp_cases (graph : Graph) (kind : OpKind) (inputs outputs : List ℕ) :
    paiGraphAddOp graph kind inputs outputs = (graph, 0) ∨
      (graph.OpAccepted inputs outputs ∧ paiGraphAddOp graph kind inputs outputs =
        (graph.withOp kind inputs outputs, graph.ops.length + 1)) := by
  unfold paiGraphAddOp
  split_ifs with hbad hin hout hself
  · exact Or.inl rfl
  · exact Or.inl rfl
  · exact Or.inl rfl
  · exact Or.inl rfl
  · refine Or.inr ⟨?_, rfl⟩
    simp only [not_or, not_le, not_lt, Bool.not_eq_true, List.any_eq_false, not_not] at hbad hin hout hself
    obtain ⟨hni, hno, hroom⟩ := hbad
    obtain ⟨houts, hnodup⟩ := hout
    have hgood : ∀ v ∈ outputs, graph.badId v = false ∧ graph.producer v = 0 := by
      intro v hv
      have hv := houts v hv
      rw [Bool.or_eq_false_iff, bne_eq_false_iff_eq] at hv
      exact hv
    refine ⟨hroom, fun kind => ⟨hni, hno, ?_, ?_, hnodup, ?_⟩, fun v hv => (hgood v hv).2⟩
    · exact fun id hid => Graph.badId_eq_false.mp (hin id hid)
    · exact fun id hid => Graph.badId_eq_false.mp (hgood id hid).1
    · intro id hid hmem
      have hno := hself id hid
      exact absurd (List.contains_iff_mem.mpr hmem) (Bool.not_eq_true _ ▸ hno)

/-- The producers after an accepted op. -/
lemma Graph.producer_withOp {graph : Graph} {kind : OpKind} {inputs outputs : List ℕ}
    (h : graph.OpAccepted inputs outputs) (v : ℕ) :
    (graph.withOp kind inputs outputs).producer v =
      if v ∈ outputs then graph.ops.length + 1 else graph.producer v := by
  have hpos : ∀ v ∈ outputs, 1 ≤ v := fun v hv => ((h.wf kind).outputs_exist v hv).1
  unfold Graph.producer Graph.value?
  by_cases hv : v = 0
  · have hnot : v ∉ outputs := fun hmem => by have := hpos v hmem; omega
    simp [hv, hv ▸ hnot]
  rw [if_neg hv, if_neg hv, Graph.withOp]
  simp only
  rw [getElem?_setProducer _ hpos, show v - 1 + 1 = v by omega]
  by_cases hmem : v ∈ outputs
  · have hle := (h.wf kind).outputs_exist v hmem
    change 1 ≤ v ∧ v ≤ graph.values.length at hle
    rw [List.getElem?_eq_getElem (by omega : v - 1 < graph.values.length)]
    simp [hmem]
  · cases graph.values[v - 1]? <;> simp [hmem]

/-- The ops after an accepted op. -/
lemma Graph.op?_withOp {graph : Graph} {kind : OpKind} {inputs outputs : List ℕ} (o : ℕ) :
    (graph.withOp kind inputs outputs).op? o =
      if o = graph.ops.length + 1 then some ⟨kind, inputs, outputs, 0⟩ else graph.op? o := by
  unfold Graph.op? Graph.withOp
  by_cases ho : o = 0
  · simp [ho]
  rw [if_neg ho, if_neg ho]
  simp only [List.getElem?_append]
  split_ifs with hlt heq heq
  · omega
  · rfl
  · subst heq
    simp
  · have hnone : graph.ops[o - 1]? = none := List.getElem?_eq_none (by omega)
    rw [hnone, List.getElem?_eq_none (by simp; omega)]

lemma Graph.Built.addOp {graph : Graph} (h : graph.Built) (kind : OpKind) (inputs outputs : List ℕ) :
    (paiGraphAddOp graph kind inputs outputs).1.Built := by
  rcases paiGraphAddOp_cases graph kind inputs outputs with heq | ⟨hacc, heq⟩
  · rw [heq]
    exact h
  · rw [heq]
    change (graph.withOp kind inputs outputs).Built
    have hpos : ∀ v ∈ outputs, 1 ≤ v := fun v hv => ((hacc.wf kind).outputs_exist v hv).1
    have hlen : (graph.withOp kind inputs outputs).values.length = graph.values.length :=
      length_setProducer _ _ _
    refine ⟨hlen.trans_le h.values_le, ?_, ?_, ?_, ?_, ?_⟩
    · change (graph.ops ++ [_]).length ≤ _
      rw [List.length_append, List.length_singleton]
      exact hacc.room
    · intro value hvalue
      obtain ⟨i, hi⟩ := List.mem_iff_getElem?.mp hvalue
      change (setProducer graph.values outputs _)[i]? = some value at hi
      rw [getElem?_setProducer _ hpos] at hi
      obtain ⟨old, hold, rfl⟩ := Option.map_eq_some_iff.mp hi
      have hwf := h.values_wf old (List.mem_of_getElem? hold)
      split_ifs
      · exact ⟨hwf.size_eq, hwf.align_pow2⟩
      · exact hwf
    · intro op hop
      rw [hlen]
      rcases List.mem_append.mp hop with hop | hop
      · exact h.ops_wf op hop
      · rw [List.mem_singleton.mp hop]
        exact hacc.wf kind
    · intro o op hop v hv
      rw [Graph.op?_withOp] at hop
      rw [Graph.producer_withOp hacc]
      split_ifs at hop with ho
      · obtain rfl := Option.some.inj hop
        rw [if_pos hv, ho]
      · have hprod := h.producer_of_output o op hop v hv
        split_ifs with hmem
        · have hzero := hacc.fresh v hmem
          have hone := (Graph.op?_eq_some hop).1
          omega
        · exact hprod
    · intro v hv
      rw [Graph.producer_withOp hacc] at hv ⊢
      rw [Graph.op?_withOp]
      by_cases hmem : v ∈ outputs
      · rw [if_pos hmem, if_pos rfl]
        exact ⟨_, rfl, hmem⟩
      · rw [if_neg hmem] at hv ⊢
        obtain ⟨op, hop, hout⟩ := h.output_of_producer v hv
        have hle := (Graph.op?_eq_some hop).2.1
        rw [if_neg (by omega)]
        exact ⟨op, hop, hout⟩

/-! ## Marks and epochs -/

/-- Changing flags of a value keeps the graph. -/
lemma Graph.Built.mark {graph : Graph} (h : graph.Built) (id : ℕ) {f : GraphValue → GraphValue}
    (hwf : ∀ value, value.WellFormed → (f value).WellFormed)
    (hprod : ∀ value, (f value).producer = value.producer) : (graph.mark id f).Built := by
  unfold Graph.mark
  split_ifs with hid
  · have hlen : (graph.values.modify (id - 1) f).length = graph.values.length :=
      List.length_modify _ _ _
    have hproducer : ∀ v, ({ graph with values := graph.values.modify (id - 1) f } : Graph).producer v
        = graph.producer v := by
      intro v
      unfold Graph.producer Graph.value?
      split_ifs with hv
      · rfl
      · rw [List.getElem?_modify]
        cases graph.values[v - 1]? with
        | none => rfl
        | some value =>
          simp only
          split_ifs
          · exact hprod value
          · rfl
    refine ⟨hlen.trans_le h.values_le, h.ops_le, ?_, ?_, ?_, ?_⟩
    · intro value hvalue
      obtain ⟨i, hi⟩ := List.mem_iff_getElem?.mp hvalue
      change (graph.values.modify (id - 1) f)[i]? = some value at hi
      rw [List.getElem?_modify] at hi
      obtain ⟨old, hold, rfl⟩ := Option.map_eq_some_iff.mp hi
      have hold := h.values_wf old (List.mem_of_getElem? hold)
      split_ifs
      · exact hwf old hold
      · exact hold
    · intro op hop
      change op.WellFormed (graph.values.modify (id - 1) f).length
      rw [hlen]
      exact h.ops_wf op hop
    · intro o op hop v hv
      rw [hproducer]
      exact h.producer_of_output o op hop v hv
    · intro v hv
      rw [hproducer] at hv ⊢
      exact h.output_of_producer v hv
  · exact h

/-- Setting epochs keeps the ops otherwise; the epoch of an op in the order is its place there. -/
lemma getElem?_setEpochs {ops : List GraphOp} {order : List ℕ} (hpos : ∀ o ∈ order, 1 ≤ o)
    (hnodup : order.Nodup) (k i : ℕ) :
    ((order.zipIdx k).foldl
        (fun ops x => ops.modify (x.1 - 1) fun op => { op with epoch := x.2 }) ops)[i]? =
      ops[i]?.map fun op =>
        if i + 1 ∈ order then { op with epoch := k + order.idxOf (i + 1) } else op := by
  induction order generalizing ops k with
  | nil => simp
  | cons o order ih =>
    have ho : 1 ≤ o := hpos o List.mem_cons_self
    obtain ⟨hnotin, hnodup⟩ := List.nodup_cons.mp hnodup
    rw [List.zipIdx_cons, List.foldl_cons, ih (fun w hw => hpos w (List.mem_cons_of_mem o hw)) hnodup,
      List.getElem?_modify, Option.map_eq_map, Option.map_map]
    congr 1
    funext op
    by_cases hi : o - 1 = i
    · obtain rfl : o = i + 1 := by omega
      simp [hnotin]
    · have hne : i + 1 ≠ o := by omega
      by_cases hmem : i + 1 ∈ order
      · have hidx : (o :: order).idxOf (i + 1) = order.idxOf (i + 1) + 1 := by
          rw [List.idxOf_cons, cond_eq_ite, if_neg (by simpa using hne.symm)]
        simp [hi, hmem, hidx]
        omega
      · simp [hi, hmem, hne]

/-- Setting epochs changes nothing but epochs. -/
lemma exists_setEpochs (ops : List GraphOp) (order : List ℕ) (i : ℕ) :
    ∃ epoch : GraphOp → ℕ, (setEpochs ops order)[i]? =
      ops[i]?.map fun op => { op with epoch := epoch op } := by
  have hgen : ∀ (l : List (ℕ × ℕ)) (ops : List GraphOp), ∃ epoch : GraphOp → ℕ,
      (l.foldl (fun ops x => ops.modify (x.1 - 1) fun op => { op with epoch := x.2 }) ops)[i]? =
        ops[i]?.map fun op => { op with epoch := epoch op } := by
    intro l
    induction l with
    | nil =>
      intro ops
      refine ⟨GraphOp.epoch, ?_⟩
      simp
    | cons x l ih =>
      intro ops
      obtain ⟨epoch, hepoch⟩ := ih (ops.modify (x.1 - 1) fun op => { op with epoch := x.2 })
      rw [List.foldl_cons, hepoch, List.getElem?_modify, Option.map_eq_map, Option.map_map]
      by_cases hi : x.1 - 1 = i
      · refine ⟨fun op => epoch { op with epoch := x.2 }, ?_⟩
        simp [hi, Function.comp_def]
      · refine ⟨epoch, ?_⟩
        simp [hi, Function.comp_def]
  exact hgen _ ops

/-- A sort keeps everything but the epochs and the flag. -/
lemma Graph.Built.topoSort {graph : Graph} (h : graph.Built) : (paiGraphTopoSort graph).1.Built := by
  unfold paiGraphTopoSort
  split_ifs with hcount
  · exact ⟨h.values_le, h.ops_le, h.values_wf, h.ops_wf, h.producer_of_output, h.output_of_producer⟩
  set graph' : Graph :=
    { graph with ops := setEpochs graph.ops graph.kahn.order, sorted := true } with hgraph'
  have hop? : ∀ o op', graph'.op? o = some op' →
      ∃ op, graph.op? o = some op ∧ op'.inputs = op.inputs ∧ op'.outputs = op.outputs := by
    intro o op' hop'
    unfold Graph.op? at hop' ⊢
    split_ifs at hop' ⊢ with ho
    obtain ⟨epoch, hepoch⟩ := exists_setEpochs graph.ops graph.kahn.order (o - 1)
    rw [hgraph'] at hop'
    simp only at hop'
    rw [hepoch] at hop'
    obtain ⟨op, hop, rfl⟩ := Option.map_eq_some_iff.mp hop'
    exact ⟨op, hop, rfl, rfl⟩
  have hback : ∀ o op, graph.op? o = some op →
      ∃ op', graph'.op? o = some op' ∧ op'.outputs = op.outputs := by
    intro o op hop
    unfold Graph.op? at hop ⊢
    split_ifs at hop ⊢ with ho
    obtain ⟨epoch, hepoch⟩ := exists_setEpochs graph.ops graph.kahn.order (o - 1)
    rw [hgraph']
    simp only
    rw [hepoch, hop]
    exact ⟨_, rfl, rfl⟩
  have hlen : graph'.ops.length = graph.ops.length := by
    have hgen : ∀ (l : List (ℕ × ℕ)) (ops : List GraphOp),
        (l.foldl (fun ops x => ops.modify (x.1 - 1) fun op => { op with epoch := x.2 }) ops).length =
          ops.length := by
      intro l
      induction l with
      | nil => exact fun ops => rfl
      | cons x l ih => exact fun ops => (ih _).trans (List.length_modify _ _ _)
    exact hgen _ _
  refine ⟨h.values_le, hlen.trans_le h.ops_le, h.values_wf, ?_, ?_, ?_⟩
  · intro op' hmem
    obtain ⟨i, hi⟩ := List.mem_iff_getElem?.mp hmem
    obtain ⟨op, hop, hins, houts⟩ := hop? (i + 1) op' (by rw [Graph.op?, if_neg (by omega)]; exact hi)
    have hwf := h.op_wf hop
    refine ⟨?_, ?_, ?_, ?_, ?_, ?_⟩
    · exact hins ▸ hwf.inputs_le
    · exact houts ▸ hwf.outputs_le
    · exact hins ▸ hwf.inputs_exist
    · exact houts ▸ hwf.outputs_exist
    · exact houts ▸ hwf.outputs_nodup
    · exact hins ▸ houts ▸ hwf.inputs_disjoint
  · intro o op' hop' v hv
    obtain ⟨op, hop, -, houts⟩ := hop? o op' hop'
    exact h.producer_of_output o op hop v (houts ▸ hv)
  · intro v hv
    obtain ⟨op, hop, hout⟩ := h.output_of_producer v hv
    obtain ⟨op', hop', houts⟩ := hback _ op hop
    exact ⟨op', hop', houts ▸ hout⟩

/-! ## Every sequence of calls -/

/-- One call keeps the graph well formed. -/
lemma Graph.Built.step {graph : Graph} (h : graph.Built) (call : GraphCall) :
    (graph.step call).Built := by
  cases call with
  | addValue dtype shape align => exact h.addValue dtype shape align
  | addOp kind inputs outputs => exact h.addOp kind inputs outputs
  | setInput id => exact h.mark id (fun _ hwf => ⟨hwf.size_eq, hwf.align_pow2⟩) fun _ => rfl
  | setOutput id => exact h.mark id (fun _ hwf => ⟨hwf.size_eq, hwf.align_pow2⟩) fun _ => rfl
  | topoSort => exact h.topoSort

lemma graphInit_built : paiGraphInit.Built := by
  refine ⟨by simp [paiGraphInit], by simp [paiGraphInit], ?_, ?_, ?_, ?_⟩
  · exact fun value hvalue => absurd hvalue List.not_mem_nil
  · exact fun op hop => absurd hop List.not_mem_nil
  · intro o op hop
    have hle := (Graph.op?_eq_some hop).2.2
    exact absurd hle List.not_mem_nil
  · intro v hv
    refine absurd ?_ hv
    unfold Graph.producer Graph.value? paiGraphInit
    split_ifs <;> rfl

/-- Every sequence of calls leaves a well-formed graph. -/
theorem graphBuilt_run (calls : List GraphCall) : (graphBuild calls).Built := by
  have hrun : ∀ (calls : List GraphCall) {graph : Graph}, graph.Built →
      (calls.foldl Graph.step graph).Built := by
    intro calls
    induction calls with
    | nil =>
      intro graph h
      exact h
    | cons call calls ih =>
      intro graph h
      exact ih (h.step call)
  exact hrun calls graphInit_built

/-- Sorting a graph first if needed keeps it well formed. -/
lemma Graph.Built.ensureSorted {graph : Graph} (h : graph.Built) : graph.ensureSorted.1.Built := by
  unfold Graph.ensureSorted
  split_ifs
  · exact h
  · exact h.topoSort

end Prospero
