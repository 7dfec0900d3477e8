import Prospero.Graph.RoundTrip
import Prospero.Ir.Codec

/-!
# The ops of a rebuilt graph

`pai_ir_to_graph` adds the ops of a program in order, and numbers the values as the program does.  So the
graph has the ops of the program under the same ids, with the same operands, and sorting it changes only
their epochs.  It is a graph that calls of the API build (`paiIrToGraph_calls`), with the outputs of the
program marked (`paiIrToGraph_outputs`).
-/

namespace Prospero

/-- Kind and operands of an op of a graph. -/
def GraphOp.desc (op : GraphOp) : OpKind × List ℕ × List ℕ := (op.kind, op.inputs, op.outputs)

/-- Kind and operands of an op of a program, in terms of the graph. -/
def IrOp.desc (op : IrOp) : OpKind × List ℕ × List ℕ :=
  (irToGraphKind op.kind, op.inputs.map UInt16.toNat, op.outputs.map UInt16.toNat)

/-- The graph has the ops of the list, in order. -/
def HasOps (graph : Graph) (ios : List IrOp) : Prop := graph.ops.map GraphOp.desc = ios.map IrOp.desc

/-- The value map is the identity on operands that exist. -/
lemma map_mappedId_operands {n : ℕ} {ids : List UInt16} (h : ∀ id ∈ ids, 1 ≤ id.toNat ∧ id.toNat ≤ n) :
    (ids.map fun id => mappedId (List.range' 1 n) id.toNat) = ids.map UInt16.toNat :=
  List.map_congr_left fun id hid => mappedId_range' (h id hid).1 (h id hid).2

/-- The op loop adds the ops in order. -/
lemma addIrOps_ops {prog : IrProgram} {graph graph' : Graph} {ios : List IrOp}
    (hwf : ∀ io ∈ ios, io.WellFormed prog)
    (h : addIrOps (List.range' 1 prog.values.length) graph ios = .ok graph') :
    graph'.ops.map GraphOp.desc = graph.ops.map GraphOp.desc ++ ios.map IrOp.desc := by
  induction ios generalizing graph with
  | nil =>
    cases h
    rw [List.map_nil, List.append_nil]
  | cons io ios ih =>
    have hio := hwf io List.mem_cons_self
    rw [addIrOps, map_mappedId_operands hio.inputs_exist, map_mappedId_operands hio.outputs_exist] at h
    split_ifs at h
    simp only at h
    rcases paiGraphAddOp_cases graph (irToGraphKind io.kind) (io.inputs.map UInt16.toNat)
      (io.outputs.map UInt16.toNat) with heq | ⟨-, heq⟩
    · rw [heq, if_pos rfl] at h
      cases h
    · rw [heq, if_neg (by omega)] at h
      have hnew : (graph.withOp (irToGraphKind io.kind) (io.inputs.map UInt16.toNat)
          (io.outputs.map UInt16.toNat)).ops.map GraphOp.desc = graph.ops.map GraphOp.desc ++ [io.desc] :=
        List.map_append
      rw [ih (fun io' hio' => hwf io' (List.mem_cons_of_mem io hio')) h, hnew, List.append_assoc]
      rfl

/-- Marks leave the ops alone. -/
lemma ops_foldl_mark (valueMap : List ℕ) (f : GraphValue → GraphValue) (ids : List UInt32) (graph : Graph) :
    (ids.foldl (fun g id => g.mark (mappedId valueMap id.toNat) f) graph).ops = graph.ops := by
  induction ids generalizing graph with
  | nil => rfl
  | cons id ids ih =>
    refine (ih _).trans ?_
    change (graph.mark (mappedId valueMap id.toNat) f).ops = graph.ops
    unfold Graph.mark
    split_ifs <;> rfl

/-- Adding values leaves the ops alone. -/
lemma addIrValues_ops {graph graph' : Graph} {valueMap valueMap' : List ℕ} {ivs : List IrValue}
    (h : addIrValues graph valueMap ivs = .ok (graph', valueMap')) : graph'.ops = graph.ops := by
  induction ivs generalizing graph valueMap with
  | nil =>
    cases h
    rfl
  | cons iv ivs ih =>
    rw [addIrValues] at h
    split_ifs at h
    refine (ih h).trans ?_
    rcases paiGraphAddValue_cases graph iv.dtype iv.extents iv.align with
      heq | ⟨value, -, -, -, -, -, -, -, -, heq⟩
    · rw [heq]
    · rw [heq]

/-- A rebuilt graph has the ops of the program. -/
theorem paiIrToGraph_ops {ir : IrProgram} {graph : Graph} (hir : ir.Accepted)
    (h : paiIrToGraph ir = .ok graph) : HasOps graph ir.ops := by
  unfold paiIrToGraph at h
  split at h
  · cases h
  · next graph₁ valueMap hvalues =>
    have hnone : HasValues paiGraphInit [] := rfl
    obtain ⟨-, hhas, hmap⟩ := addIrValues_spec hir.values_wf graphInit_built hnone rfl hvalues
    have hlen : graph₁.values.length = ir.values.length := by
      rw [hhas.length_eq, List.nil_append]
    rw [hlen] at hmap
    subst hmap
    split at h
    · cases h
    · next graph₂ hops =>
      cases h
      have hops := addIrOps_ops hir.ops_wf hops
      have hmarks := (ops_foldl_mark (List.range' 1 ir.values.length)
        (fun value => { value with isOutput := true }) ir.outputIds _).trans
        (ops_foldl_mark (List.range' 1 ir.values.length) (fun value => { value with isInput := true })
          ir.inputIds graph₂)
      have hzero : graph₁.ops = [] := addIrValues_ops hvalues
      rw [hzero, List.map_nil, List.nil_append] at hops
      exact (congrArg (List.map GraphOp.desc) hmarks).trans hops

/-- Sorting changes epochs only. -/
lemma map_desc_setEpochs (ops : List GraphOp) (order : List ℕ) :
    (setEpochs ops order).map GraphOp.desc = ops.map GraphOp.desc := by
  unfold setEpochs
  generalize order.zipIdx = l
  induction l generalizing ops with
  | nil => rfl
  | cons x l ih =>
    refine (ih _).trans ?_
    apply List.ext_getElem?
    intro j
    rw [List.getElem?_map, List.getElem?_map, List.getElem?_modify, Option.map_eq_map, Option.map_map]
    congr 1
    funext op
    change (if x.1 - 1 = j then { op with epoch := x.2 } else op).desc = op.desc
    split_ifs <;> rfl

lemma HasOps.ensureSorted {graph : Graph} {ios : List IrOp} (h : HasOps graph ios) :
    HasOps graph.ensureSorted.1 ios := by
  unfold Graph.ensureSorted paiGraphTopoSort
  split_ifs
  · exact h
  · exact h
  · exact (map_desc_setEpochs _ _).trans h

/-- The op of an id. -/
lemma HasOps.op? {graph : Graph} {ios : List IrOp} (h : HasOps graph ios) {o : ℕ} {io : IrOp} (ho : 1 ≤ o)
    (hio : ios[o - 1]? = some io) : ∃ op, graph.op? o = some op ∧ op.desc = io.desc := by
  have hdesc := congrArg (fun l => l[o - 1]?) h
  simp only [List.getElem?_map, hio, Option.map_some] at hdesc
  obtain ⟨op, hop, heq⟩ := Option.map_eq_some_iff.mp hdesc
  refine ⟨op, ?_, heq⟩
  rw [Graph.op?, if_neg (by omega), hop]

/-! ## Calls and marks -/

/-- The call that adds a value of a program. -/
def IrValue.call (iv : IrValue) : GraphCall := .addValue iv.dtype iv.extents iv.align

/-- The call that adds an op of a program. -/
def IrOp.call (valueMap : List ℕ) (io : IrOp) : GraphCall :=
  .addOp (irToGraphKind io.kind) (io.inputs.map fun id => mappedId valueMap id.toNat)
    (io.outputs.map fun id => mappedId valueMap id.toNat)

/-- The value loop is a sequence of calls. -/
lemma addIrValues_calls {graph graph' : Graph} {valueMap valueMap' : List ℕ} {ivs : List IrValue}
    (h : addIrValues graph valueMap ivs = .ok (graph', valueMap')) :
    graph' = (ivs.map IrValue.call).foldl Graph.step graph := by
  induction ivs generalizing graph valueMap with
  | nil =>
    cases h
    rfl
  | cons iv ivs ih =>
    rw [addIrValues] at h
    split_ifs at h
    exact ih h

/-- The op loop is a sequence of calls. -/
lemma addIrOps_calls {graph graph' : Graph} {valueMap : List ℕ} {ios : List IrOp}
    (h : addIrOps valueMap graph ios = .ok graph') :
    graph' = (ios.map (IrOp.call valueMap)).foldl Graph.step graph := by
  induction ios generalizing graph with
  | nil =>
    cases h
    rfl
  | cons io ios ih =>
    rw [addIrOps] at h
    split_ifs at h
    simp only at h
    split_ifs at h
    exact ih h

/-- A rebuilt graph is one the API builds. -/
theorem paiIrToGraph_calls {ir : IrProgram} {graph : Graph} (h : paiIrToGraph ir = .ok graph) :
    ∃ calls, graph = graphBuild calls := by
  unfold paiIrToGraph at h
  split at h
  · cases h
  · next graph₁ valueMap hvalues =>
    split at h
    · cases h
    · next graph₂ hops =>
      cases h
      refine ⟨ir.values.map IrValue.call ++ ir.ops.map (IrOp.call valueMap) ++
        ir.inputIds.map (fun id => .setInput (mappedId valueMap id.toNat)) ++
        ir.outputIds.map (fun id => .setOutput (mappedId valueMap id.toNat)), ?_⟩
      rw [graphBuild, List.foldl_append, List.foldl_append, List.foldl_append, ← addIrValues_calls hvalues,
        ← addIrOps_calls hops, List.foldl_map, List.foldl_map]
      rfl

/-- The outputs of a program are marked in the rebuilt graph. -/
theorem paiIrToGraph_outputs {ir : IrProgram} {graph : Graph} (hir : ir.Accepted)
    (h : paiIrToGraph ir = .ok graph) {id : UInt32} (hid : id ∈ ir.outputIds) {value : GraphValue}
    (hvalue : graph.value? id.toNat = some value) : value.isOutput = true := by
  unfold paiIrToGraph at h
  split at h
  · cases h
  · next graph₁ valueMap hvalues =>
    have hnone : HasValues paiGraphInit [] := rfl
    obtain ⟨hbuilt, hhas, hmap⟩ := addIrValues_spec hir.values_wf graphInit_built hnone rfl hvalues
    have hlen : graph₁.values.length = ir.values.length := by
      rw [hhas.length_eq, List.nil_append]
    rw [hlen] at hmap
    subst hmap
    split at h
    · cases h
    · next graph₂ hops =>
      cases h
      have hhas₂ := (addIrOps_spec hbuilt hhas hops).2
      have hlen₂ : graph₂.values.length = ir.values.length := by
        rw [hhas₂.length_eq, List.nil_append]
      have hin := foldl_mark (f := fun value => { value with isInput := true }) hir.inputIds_exist graph₂ hlen₂
      have hout := fun g hg =>
        foldl_mark (f := fun value => { value with isOutput := true }) hir.outputIds_exist g hg
      change (List.foldl (fun g id => g.mark (mappedId (List.range' 1 ir.values.length) id.toNat)
        fun value => { value with isOutput := true }) (List.foldl (fun g id =>
          g.mark (mappedId (List.range' 1 ir.values.length) id.toNat)
            fun value => { value with isInput := true }) graph₂ ir.inputIds) ir.outputIds).value? id.toNat =
              some value at hvalue
      rw [hin, hout _ ((length_foldl_modify _ _ _).trans hlen₂), Graph.value?] at hvalue
      have hpos : 1 ≤ id.toNat := (hir.outputIds_exist id hid).1
      rw [if_neg (by omega), getElem?_foldl_modify (f := fun value => { value with isOutput := true })
        (fun _ => rfl) fun v hv => by
          obtain ⟨id', hid', rfl⟩ := List.mem_map.mp hv
          exact (hir.outputIds_exist id' hid').1] at hvalue
      obtain ⟨value', -, rfl⟩ := Option.map_eq_some_iff.mp hvalue
      have hmem : id.toNat - 1 + 1 ∈ ir.outputIds.map UInt32.toNat := by
        rw [Nat.sub_add_cancel hpos]
        exact List.mem_map_of_mem hid
      rw [if_pos hmem]

end Prospero
