import Prospero.Graph.Built

/-!
# Graphs and IR programs

`ir/ir_graph.c`: a graph is rebuilt from an IR program through the graph API, and an IR program from a
graph.  The op sets of the two are the same.

A rebuilt graph has the values of the program under the same ids (`paiIrToGraph_values`), and being
made by the API it is well formed.
-/

namespace Prospero

/-! ## Op kinds -/

/-- `k_ir_to_graph`. -/
def irToGraphKind (kind : UInt8) : OpKind :=
  [OpKind.none, .add, .mul, .gemm, .gemv, .matmul, .relu, .softmax, .layernorm, .rmsnorm, .rope,
    .attention, .reshape, .concat, .convert, .copy, .silu, .custom].getD kind.toNat .none

/-- `k_graph_to_ir`. -/
def graphToIrKind : OpKind → UInt8
  | .none => 0
  | .add => 1
  | .mul => 2
  | .gemm => 3
  | .gemv => 4
  | .matmul => 5
  | .relu => 6
  | .softmax => 7
  | .layernorm => 8
  | .rmsnorm => 9
  | .rope => 10
  | .attention => 11
  | .reshape => 12
  | .concat => 13
  | .convert => 14
  | .copy => 15
  | .silu => 16
  | .custom => 17

@[simp] lemma irToGraphKind_graphToIrKind (kind : OpKind) :
    irToGraphKind (graphToIrKind kind) = kind := by
  cases kind <;> rfl

/-! ## From a program to a graph -/

/-- The value loop: add the values, and record the id of each. -/
def addIrValues : Graph → List ℕ → List IrValue → Except PaiStatus (Graph × List ℕ)
  | graph, valueMap, [] => .ok (graph, valueMap)
  | graph, valueMap, iv :: ivs =>
    let r := paiGraphAddValue graph iv.dtype iv.extents iv.align
    if r.2 = 0 then .error paiErrNomem else addIrValues r.1 (valueMap ++ [r.2]) ivs

/-- `value_map[id]`. -/
def mappedId (valueMap : List ℕ) (id : ℕ) : ℕ := valueMap.getD (id - 1) 0

/-- The op loop. -/
def addIrOps (valueMap : List ℕ) : Graph → List IrOp → Except PaiStatus Graph
  | graph, [] => .ok graph
  | graph, io :: ios =>
    if paiIrOpKindCount ≤ io.kind then .error paiErrMismatch
    else
      let r := paiGraphAddOp graph (irToGraphKind io.kind)
        (io.inputs.map fun id => mappedId valueMap id.toNat)
        (io.outputs.map fun id => mappedId valueMap id.toNat)
      if r.2 = 0 then .error paiErrMismatch else addIrOps valueMap r.1 ios

/-- `pai_ir_to_graph`. -/
def paiIrToGraph (ir : IrProgram) : Except PaiStatus Graph :=
  match addIrValues paiGraphInit [] ir.values with
  | .error e => .error e
  | .ok (graph, valueMap) =>
    match addIrOps valueMap graph ir.ops with
    | .error e => .error e
    | .ok graph =>
      let graph := ir.inputIds.foldl (fun g id => paiGraphSetInput g (mappedId valueMap id.toNat)) graph
      .ok (ir.outputIds.foldl (fun g id => paiGraphSetOutput g (mappedId valueMap id.toNat)) graph)

/-! ## From a graph to a program -/

/-- `PAI_IR_VALUE_ACTIVATION`. -/
def paiIrValueActivation : UInt8 := 0
/-- `PAI_IR_VALUE_INPUT`. -/
def paiIrValueInput : UInt8 := 1
/-- `PAI_IR_VALUE_PARAM`. -/
def paiIrValueParam : UInt8 := 2
/-- `PAI_IR_VALUE_OUTPUT`. -/
def paiIrValueOutput : UInt8 := 4
/-- `PAI_IR_DEVICE_ANY`. -/
def paiIrDeviceAny : UInt8 := 0

/-- The category of a graph value. -/
def irKindOf (value : GraphValue) : UInt8 :=
  if value.isInput then paiIrValueInput
  else if value.isOutput then paiIrValueOutput
  else if value.producer = 0 then paiIrValueParam
  else paiIrValueActivation

/-- The value loop: add the values, and record the id of each. -/
def addGraphValues : IrProgram → List ℕ → List GraphValue → Except PaiStatus (IrProgram × List ℕ)
  | prog, valueMap, [] => .ok (prog, valueMap)
  | prog, valueMap, gv :: gvs =>
    let r := paiIrAddValue prog gv.dtype gv.shape gv.align (irKindOf gv) paiIrDeviceAny
    if r.2 = 0 then .error paiErrNomem else addGraphValues r.1 (valueMap ++ [r.2]) gvs

/-- The op loop. -/
def addGraphOps (valueMap : List ℕ) : IrProgram → List GraphOp → Except PaiStatus IrProgram
  | prog, [] => .ok prog
  | prog, go :: gos =>
    let r := paiIrAddOp prog (graphToIrKind go.kind) paiIrDeviceAny
      (go.inputs.map fun id => UInt16.ofNat (mappedId valueMap id))
      (go.outputs.map fun id => UInt16.ofNat (mappedId valueMap id))
    if r.2 = 0 then .error paiErrNomem else addGraphOps valueMap r.1 gos

/-- The last loop: mark the inputs and outputs. -/
def markGraphValues (valueMap : List ℕ) (prog : IrProgram) (values : List (GraphValue × ℕ)) :
    IrProgram :=
  values.foldl (fun prog x =>
    let id := UInt32.ofNat (mappedId valueMap x.2)
    let prog := if x.1.isInput then paiIrSetInput prog id else prog
    if x.1.isOutput then paiIrSetOutput prog id else prog) prog

/-- `pai_ir_from_graph`. -/
def paiIrFromGraph (graph : Graph) : Except PaiStatus IrProgram :=
  match addGraphValues paiIrInit [] graph.values with
  | .error e => .error e
  | .ok (prog, valueMap) =>
    match addGraphOps valueMap prog graph.ops with
    | .error e => .error e
    | .ok prog => .ok (markGraphValues valueMap prog (graph.values.zipIdx 1))

/-! ## What the rebuilt graph has -/

/-- Type, shape, size and alignment of a graph value. -/
def GraphValue.desc (value : GraphValue) : PaiDtype × List UInt64 × UInt64 × UInt64 :=
  (value.dtype, value.shape, value.sizeBytes, value.align)

/-- Type, shape, size and alignment of an IR value. -/
def IrValue.desc (iv : IrValue) : PaiDtype × List UInt64 × UInt64 × UInt64 :=
  (iv.dtype, iv.extents, iv.sizeBytes, iv.align)

/-- The graph has the values of the list, in order. -/
def HasValues (graph : Graph) (ivs : List IrValue) : Prop :=
  graph.values.map GraphValue.desc = ivs.map IrValue.desc

lemma HasValues.length_eq {graph : Graph} {ivs : List IrValue} (h : HasValues graph ivs) :
    graph.values.length = ivs.length := by
  have hlen := congrArg List.length h
  rwa [List.length_map, List.length_map] at hlen

/-- Changing producers and marks of a value does not change the description of any. -/
lemma map_desc_modify {values : List GraphValue} {i : ℕ} {f : GraphValue → GraphValue}
    (hf : ∀ value, (f value).desc = value.desc) :
    (values.modify i f).map GraphValue.desc = values.map GraphValue.desc := by
  apply List.ext_getElem?
  intro j
  rw [List.getElem?_map, List.getElem?_map, List.getElem?_modify, Option.map_eq_map, Option.map_map]
  congr 1
  funext value
  change (if i = j then f value else value).desc = value.desc
  split_ifs
  · exact hf value
  · rfl

lemma map_desc_setProducer (values : List GraphValue) (outputs : List ℕ) (id : ℕ) :
    (setProducer values outputs id).map GraphValue.desc = values.map GraphValue.desc := by
  induction outputs generalizing values with
  | nil => rfl
  | cons v vs ih => exact (ih _).trans (map_desc_modify fun _ => rfl)

lemma HasValues.mark {graph : Graph} {ivs : List IrValue} (h : HasValues graph ivs) (id : ℕ)
    {f : GraphValue → GraphValue} (hf : ∀ value, (f value).desc = value.desc) :
    HasValues (graph.mark id f) ivs := by
  unfold Graph.mark
  split_ifs
  · exact (map_desc_modify hf).trans h
  · exact h

/-- The value loop adds the values in order, under consecutive ids. -/
lemma addIrValues_spec {graph graph' : Graph} {valueMap valueMap' : List ℕ} {done ivs : List IrValue}
    (hwf : ∀ iv ∈ ivs, iv.WellFormed) (hbuilt : graph.Built) (hhas : HasValues graph done)
    (hmap : valueMap = List.range' 1 graph.values.length)
    (h : addIrValues graph valueMap ivs = .ok (graph', valueMap')) :
    graph'.Built ∧ HasValues graph' (done ++ ivs) ∧
      valueMap' = List.range' 1 graph'.values.length := by
  induction ivs generalizing graph valueMap done with
  | nil =>
    cases h
    rw [List.append_nil]
    exact ⟨hbuilt, hhas, hmap⟩
  | cons iv ivs ih =>
    rw [addIrValues] at h
    have hstep := hbuilt.addValue iv.dtype iv.extents iv.align
    have hiv := hwf iv List.mem_cons_self
    rcases paiGraphAddValue_cases graph iv.dtype iv.extents iv.align with
      heq | ⟨value, hvalue, -, hdtype, hshape, halign, -, -, -, heq⟩
    · simp only [heq] at h
      cases h
    · rw [heq] at hstep
      simp only [heq] at h
      rw [if_neg (by omega)] at h
      have hdesc : value.desc = iv.desc := by
        have hsize := hvalue.size_eq
        rw [hdtype, hshape, hiv.size_eq] at hsize
        rw [GraphValue.desc, IrValue.desc, hdtype, hshape, Except.ok.inj hsize, halign,
          if_pos hiv.align_pow2.1]
      have hhas' : HasValues { graph with values := graph.values ++ [value] } (done ++ [iv]) := by
        change (graph.values ++ [value]).map GraphValue.desc = (done ++ [iv]).map IrValue.desc
        rw [List.map_append, List.map_append, hhas, List.map_singleton, List.map_singleton, hdesc]
      have hmap' : valueMap ++ [graph.values.length + 1] =
          List.range' 1 (graph.values ++ [value]).length := by
        rw [hmap, List.length_append, List.length_singleton, List.range'_concat, Nat.one_mul,
          Nat.add_comm 1]
      have hrest := ih (fun w hw => hwf w (List.mem_cons_of_mem iv hw)) hstep hhas' hmap' h
      rw [List.append_assoc] at hrest
      exact hrest

/-- The op loop keeps the values. -/
lemma addIrOps_spec {valueMap : List ℕ} {graph graph' : Graph} {ivs : List IrValue} {ios : List IrOp}
    (hbuilt : graph.Built) (hhas : HasValues graph ivs)
    (h : addIrOps valueMap graph ios = .ok graph') : graph'.Built ∧ HasValues graph' ivs := by
  induction ios generalizing graph with
  | nil =>
    cases h
    exact ⟨hbuilt, hhas⟩
  | cons io ios ih =>
    rw [addIrOps] at h
    by_cases hkind : paiIrOpKindCount ≤ io.kind
    · rw [if_pos hkind] at h
      cases h
    rw [if_neg hkind] at h
    simp only at h
    set inputs := io.inputs.map fun id => mappedId valueMap id.toNat
    set outputs := io.outputs.map fun id => mappedId valueMap id.toNat
    have hstep := hbuilt.addOp (irToGraphKind io.kind) inputs outputs
    rcases paiGraphAddOp_cases graph (irToGraphKind io.kind) inputs outputs with heq | ⟨-, heq⟩
    · rw [heq] at h
      cases h
    · rw [heq] at h hstep
      rw [if_neg (by omega)] at h
      exact ih hstep ((map_desc_setProducer _ _ _).trans hhas) h

/-- A rebuilt graph is well formed and has the values of the program. -/
theorem paiIrToGraph_values {ir : IrProgram} {graph : Graph} (hwf : ∀ iv ∈ ir.values, iv.WellFormed)
    (h : paiIrToGraph ir = .ok graph) : graph.Built ∧ HasValues graph ir.values := by
  unfold paiIrToGraph at h
  split at h
  · cases h
  · next graph1 valueMap hvalues =>
    split at h
    · cases h
    · next graph2 hops =>
      cases h
      have hnone : HasValues paiGraphInit [] := rfl
      obtain ⟨hbuilt1, hhas1, -⟩ := addIrValues_spec hwf graphInit_built hnone rfl hvalues
      obtain ⟨hbuilt2, hhas2⟩ := addIrOps_spec hbuilt1 hhas1 hops
      have hmarks : ∀ (ids : List UInt32) (f : GraphValue → GraphValue) (g : Graph),
          (∀ value, value.WellFormed → (f value).WellFormed) →
          (∀ value, (f value).producer = value.producer) → (∀ value, (f value).desc = value.desc) →
          g.Built ∧ HasValues g ir.values →
          (ids.foldl (fun g id => g.mark (mappedId valueMap id.toNat) f) g).Built ∧
            HasValues (ids.foldl (fun g id => g.mark (mappedId valueMap id.toNat) f) g)
              ir.values := by
        intro ids f g hfwf hfprod hfdesc
        induction ids generalizing g with
        | nil => exact id
        | cons id ids ih =>
          rintro ⟨hg, hv⟩
          exact ih _ ⟨hg.mark _ hfwf hfprod, hv.mark _ hfdesc⟩
      have hin := hmarks ir.inputIds (fun value => { value with isInput := true }) graph2
        (fun _ hv => ⟨hv.size_eq, hv.align_pow2⟩) (fun _ => rfl) (fun _ => rfl) ⟨hbuilt2, hhas2⟩
      exact hmarks ir.outputIds (fun value => { value with isOutput := true }) _
        (fun _ hv => ⟨hv.size_eq, hv.align_pow2⟩) (fun _ => rfl) (fun _ => rfl) hin

end Prospero
