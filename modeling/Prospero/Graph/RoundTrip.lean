import Prospero.Graph.Bridge
import Mathlib.Data.List.Nodup

/-!
# A graph through the IR and back

`pai_ir_from_graph` and then `pai_ir_to_graph` (`ir/ir_graph.c`).  Every check of the two builders holds of
what the graph API has built, so that neither refuses anything, and both number values and ops in the order
they are added.

### Outline

* `GraphValue.toIr` and `GraphOp.toIr` are the value and the op the IR gets; `Graph.Built.fromGraph` is the
  whole program.
* `Graph.upTo k` is the graph rebuilt from the first `k` ops, with no marks yet: an op makes it
  `Graph.upTo (k + 1)` (`Graph.Built.addOp_upTo`).
* The marks are put back at the end (`Graph.Built.toGraph`).
-/

namespace Prospero

/-! ## Identity maps -/

/-- The value map is the identity on the ids of the values. -/
lemma mappedId_range' {n id : ℕ} (h1 : 1 ≤ id) (h2 : id ≤ n) : mappedId (List.range' 1 n) id = id := by
  rw [mappedId, List.getD_eq_getElem?_getD, List.getElem?_range' (by omega), Option.getD_some]
  omega

/-- The value map extended by the next id. -/
lemma range'_append_next (n : ℕ) : List.range' 1 n ++ [n + 1] = List.range' 1 (n + 1) := by
  rw [List.range'_concat, Nat.one_mul, Nat.add_comm 1]

/-! ## From the graph to the program -/

/-- The IR value of a graph value. -/
def GraphValue.toIr (value : GraphValue) : IrValue :=
  { dtype := value.dtype
    rank := UInt8.ofNat value.shape.length
    kind := irKindOf value
    device := paiIrDeviceAny
    shape := padDims value.shape
    sizeBytes := value.sizeBytes
    align := value.align
    quant := IrQuant.none }

/-- The IR op of a graph op. -/
def GraphOp.toIr (op : GraphOp) : IrOp :=
  { kind := graphToIrKind op.kind
    device := paiIrDeviceAny
    inputs := op.inputs.map UInt16.ofNat
    outputs := op.outputs.map UInt16.ofNat }

lemma irKindOf_lt (value : GraphValue) : irKindOf value < paiIrValueKindCount := by
  unfold irKindOf
  split_ifs <;> decide

lemma graphToIrKind_lt (kind : OpKind) : graphToIrKind kind < paiIrOpKindCount := by
  cases kind <;> decide

/-- The shape of a well-formed value has a rank the builders accept. -/
lemma GraphValue.WellFormed.rank_bounds {value : GraphValue} (h : value.WellFormed) :
    0 < value.shape.length ∧ value.shape.length ≤ paiTensorMaxRank ∧ value.sizeBytes ≠ 0 := by
  obtain ⟨hpos, hle, -, -, hne⟩ := paiTensorContiguousSize_spec h.size_eq
  exact ⟨hpos, hle, hne⟩

/-- The IR builder accepts every value the graph builder accepts. -/
lemma paiIrAddValue_toIr {prog : IrProgram} {value : GraphValue} (h : value.WellFormed)
    (hroom : prog.values.length < paiIrMaxValues) :
    paiIrAddValue prog value.dtype value.shape value.align (irKindOf value) paiIrDeviceAny =
      ({ prog with values := prog.values ++ [value.toIr] }, prog.values.length + 1) := by
  obtain ⟨hpos, hle, hne⟩ := h.rank_bounds
  unfold paiIrAddValue
  rw [if_neg]
  · simp only [h.size_eq, if_neg hne, if_pos h.align_pow2.1]
    rfl
  · have hkind : ¬ paiIrValueKindCount ≤ irKindOf value := UInt8.not_le.mpr (irKindOf_lt value)
    have hdevice : ¬ paiIrDeviceCount ≤ paiIrDeviceAny := by decide
    have halign : ¬ (value.align ≠ 0 ∧ isPow2 value.align = false) := by
      rw [h.align_pow2.2]
      simp
    rintro (hz | hr | hf | hk | hd | ha)
    · omega
    · omega
    · omega
    · exact hkind hk
    · exact hdevice hd
    · exact halign ha

/-- The value loop adds every value under its own id. -/
lemma addGraphValues_toIr {values : List GraphValue} (hwf : ∀ value ∈ values, value.WellFormed)
    (prog : IrProgram) (hroom : prog.values.length + values.length ≤ paiIrMaxValues) :
    addGraphValues prog (List.range' 1 prog.values.length) values =
      .ok ({ prog with values := prog.values ++ values.map GraphValue.toIr },
        List.range' 1 (prog.values.length + values.length)) := by
  induction values generalizing prog with
  | nil => simp [addGraphValues]
  | cons value values ih =>
    rw [List.length_cons] at hroom
    have hlen : (prog.values ++ [value.toIr]).length = prog.values.length + 1 := by simp
    have hrest := ih (fun w hw => hwf w (List.mem_cons_of_mem value hw))
      { prog with values := prog.values ++ [value.toIr] } (by simp only [hlen]; omega)
    rw [addGraphValues, paiIrAddValue_toIr (hwf value List.mem_cons_self) (by omega)]
    simp only [hlen] at hrest
    have hcount : prog.values.length + 1 + values.length =
        prog.values.length + (values.length + 1) := by omega
    simp only [if_neg (Nat.succ_ne_zero _), range'_append_next, hrest, List.append_assoc,
      List.singleton_append, List.map_cons, List.length_cons, hcount]

/-- A 16-bit id of a value. -/
lemma toNat_ofNat_id {n id : ℕ} (hn : n ≤ paiIrMaxValues) (hid : id ≤ n) :
    (UInt16.ofNat id).toNat = id := by
  change n ≤ 1024 at hn
  exact UInt16.toNat_ofNat_of_lt' (by rw [UInt16.size]; omega)

/-- The mapped ids of existing values are the ids themselves. -/
lemma map_mappedId {n : ℕ} {ids : List ℕ} (h : ∀ id ∈ ids, 1 ≤ id ∧ id ≤ n) :
    ids.map (fun id => UInt16.ofNat (mappedId (List.range' 1 n) id)) = ids.map UInt16.ofNat :=
  List.map_congr_left fun id hid => by rw [mappedId_range' (h id hid).1 (h id hid).2]

/-- The IR builder accepts every op the graph builder accepts. -/
lemma paiIrAddOp_toIr {prog : IrProgram} {op : GraphOp} (h : op.WellFormed prog.values.length)
    (hvalues : prog.values.length ≤ paiIrMaxValues) (hroom : prog.ops.length < paiIrMaxOps) :
    paiIrAddOp prog (graphToIrKind op.kind) paiIrDeviceAny (op.inputs.map UInt16.ofNat)
        (op.outputs.map UInt16.ofNat) =
      ({ prog with ops := prog.ops ++ [op.toIr] }, prog.ops.length + 1) := by
  have hgood : ∀ ids : List ℕ, (∀ id ∈ ids, 1 ≤ id ∧ id ≤ prog.values.length) →
      ¬ ((ids.map UInt16.ofNat).any fun id => id == 0 || prog.values.length < id.toNat) = true := by
    intro ids hids hany
    obtain ⟨id16, hmem, hbad⟩ := List.any_eq_true.mp hany
    obtain ⟨id, hid, rfl⟩ := List.mem_map.mp hmem
    obtain ⟨h1, h2⟩ := hids id hid
    have hnat := toNat_ofNat_id hvalues h2
    rw [Bool.or_eq_true, beq_iff_eq, decide_eq_true_iff, hnat, ← UInt16.toNat_inj, hnat] at hbad
    rcases hbad with hz | hz
    · rw [UInt16.toNat_zero] at hz
      omega
    · omega
  have hinj : ∀ a b : ℕ, a ≤ prog.values.length → b ≤ prog.values.length →
      UInt16.ofNat a = UInt16.ofNat b → a = b := by
    intro a b ha hb heq
    rw [← toNat_ofNat_id hvalues ha, ← toNat_ofNat_id hvalues hb, heq]
  unfold paiIrAddOp
  rw [if_neg, if_neg (hgood _ h.inputs_exist), if_neg (hgood _ h.outputs_exist), if_neg]
  · rfl
  · rintro (hdup | hself)
    · exact hdup (List.Nodup.map_on (fun a ha b hb heq =>
        hinj a b (h.outputs_exist a ha).2 (h.outputs_exist b hb).2 heq) h.outputs_nodup)
    · obtain ⟨id16, hmem, hin⟩ := List.any_eq_true.mp hself
      obtain ⟨a, ha, rfl⟩ := List.mem_map.mp hmem
      obtain ⟨b, hb, heq⟩ := List.mem_map.mp (List.contains_iff_mem.mp hin)
      obtain rfl := hinj b a (h.inputs_exist b hb).2 (h.outputs_exist a ha).2 heq
      exact h.inputs_disjoint b hb ha
  · have hkind : ¬ paiIrOpKindCount ≤ graphToIrKind op.kind :=
      UInt8.not_le.mpr (graphToIrKind_lt op.kind)
    have hdevice : ¬ paiIrDeviceCount ≤ paiIrDeviceAny := by decide
    have hin := h.inputs_le
    have hout := h.outputs_le
    rw [List.length_map, List.length_map]
    rintro (hi | ho | hk | hd | hf)
    · exact absurd hi (not_lt.mpr hin)
    · exact absurd ho (not_lt.mpr hout)
    · exact hkind hk
    · exact hdevice hd
    · omega

/-- The op loop adds every op in order. -/
lemma addGraphOps_toIr {ops : List GraphOp} {n : ℕ} (hwf : ∀ op ∈ ops, op.WellFormed n)
    (hn : n ≤ paiIrMaxValues) (prog : IrProgram) (hvalues : prog.values.length = n)
    (hroom : prog.ops.length + ops.length ≤ paiIrMaxOps) :
    addGraphOps (List.range' 1 n) prog ops =
      .ok { prog with ops := prog.ops ++ ops.map GraphOp.toIr } := by
  induction ops generalizing prog with
  | nil => simp [addGraphOps]
  | cons op ops ih =>
    rw [List.length_cons] at hroom
    have hop := hwf op List.mem_cons_self
    have hadd := paiIrAddOp_toIr (hvalues ▸ hop) (hvalues ▸ hn) (by omega : prog.ops.length < _)
    rw [addGraphOps, map_mappedId hop.inputs_exist, map_mappedId hop.outputs_exist, hadd]
    have hrest := ih (fun w hw => hwf w (List.mem_cons_of_mem op hw))
      { prog with ops := prog.ops ++ [op.toIr] } hvalues
      (by simp only [List.length_append, List.length_singleton]; omega)
    simp only [if_neg (Nat.succ_ne_zero _), hrest, List.append_assoc, List.singleton_append,
      List.map_cons]

/-- The ids of the values that `p` holds of, in order. -/
def markedIds (p : GraphValue → Bool) (values : List (GraphValue × ℕ)) : List UInt32 :=
  (values.filter fun x => p x.1).map fun x => UInt32.ofNat x.2

/-- The mark loop lists the inputs and the outputs. -/
lemma markGraphValues_ids {n : ℕ} (hn : n ≤ paiIrMaxValues) (values : List (GraphValue × ℕ))
    (hids : ∀ x ∈ values, 1 ≤ x.2 ∧ x.2 ≤ n) (prog : IrProgram) (hvalues : prog.values.length = n)
    (hin : prog.inputIds.length + values.length ≤ paiIrMaxValues)
    (hout : prog.outputIds.length + values.length ≤ paiIrMaxValues) :
    markGraphValues (List.range' 1 n) prog values =
      { prog with
        inputIds := prog.inputIds ++ markedIds GraphValue.isInput values
        outputIds := prog.outputIds ++ markedIds GraphValue.isOutput values } := by
  induction values generalizing prog with
  | nil => simp [markGraphValues, markedIds]
  | cons x values ih =>
    obtain ⟨h1, h2⟩ := hids x List.mem_cons_self
    have hx : (UInt32.ofNat x.2).toNat = x.2 :=
      UInt32.toNat_ofNat_of_lt' (by rw [UInt32.size]; change n ≤ 1024 at hn; omega)
    rw [List.length_cons] at hin hout
    have hmark : ∀ ids : List UInt32, ids.length < paiIrMaxValues →
        markId prog ids (UInt32.ofNat x.2) = ids ++ [UInt32.ofNat x.2] := by
      intro ids hlt
      rw [markId, if_neg]
      rintro (hz | hz | hz)
      · rw [← UInt32.toNat_inj, hx, UInt32.toNat_zero] at hz
        omega
      · omega
      · omega
    have hstep : markGraphValues (List.range' 1 n) prog (x :: values) =
        markGraphValues (List.range' 1 n)
          { prog with
            inputIds := prog.inputIds ++ if x.1.isInput then [UInt32.ofNat x.2] else []
            outputIds := prog.outputIds ++ if x.1.isOutput then [UInt32.ofNat x.2] else [] }
          values := by
      rw [markGraphValues, List.foldl_cons, mappedId_range' h1 h2]
      unfold markGraphValues
      congr 1
      have hi := hmark prog.inputIds (by omega)
      have ho := hmark prog.outputIds (by omega)
      have ho' : markId (paiIrSetInput prog (UInt32.ofNat x.2)) prog.outputIds (UInt32.ofNat x.2) =
        prog.outputIds ++ [UInt32.ofNat x.2] := ho
      cases x.1.isInput <;> cases x.1.isOutput <;>
        simp [paiIrSetInput, paiIrSetOutput, hi, ho]
      exact ho'
    have hlen : ∀ (b : Bool) (ids : List UInt32),
        (ids ++ if b then [UInt32.ofNat x.2] else []).length ≤ ids.length + 1 := by
      intro b ids
      cases b <;> simp
    have hcons : ∀ p : GraphValue → Bool, markedIds p (x :: values) =
        (if p x.1 then [UInt32.ofNat x.2] else []) ++ markedIds p values := by
      intro p
      unfold markedIds
      cases hp : p x.1 <;> simp [hp]
    have hli := hlen x.1.isInput prog.inputIds
    have hlo := hlen x.1.isOutput prog.outputIds
    have hrest := ih (fun y hy => hids y (List.mem_cons_of_mem x hy))
      { prog with
        inputIds := prog.inputIds ++ if x.1.isInput then [UInt32.ofNat x.2] else []
        outputIds := prog.outputIds ++ if x.1.isOutput then [UInt32.ofNat x.2] else [] }
      hvalues (by simp only; omega) (by simp only; omega)
    rw [hstep, hrest, hcons, hcons]
    simp only [List.append_assoc]

/-- The program of a built graph. -/
def Graph.toIr (graph : Graph) : IrProgram :=
  { values := graph.values.map GraphValue.toIr
    ops := graph.ops.map GraphOp.toIr
    inputIds := markedIds GraphValue.isInput (graph.values.zipIdx 1)
    outputIds := markedIds GraphValue.isOutput (graph.values.zipIdx 1) }

lemma Graph.Built.fromGraph {graph : Graph} (h : graph.Built) :
    paiIrFromGraph graph = .ok graph.toIr := by
  have hvalues := addGraphValues_toIr h.values_wf paiIrInit
    (by change 0 + graph.values.length ≤ _; rw [Nat.zero_add]; exact h.values_le)
  change addGraphValues paiIrInit [] graph.values = _ at hvalues
  have hlen : (paiIrInit.values ++ graph.values.map GraphValue.toIr).length = graph.values.length := by
    simp [paiIrInit]
  have hzero : paiIrInit.values.length + graph.values.length = graph.values.length := Nat.zero_add _
  unfold paiIrFromGraph
  rw [hvalues, hzero]
  simp only
  rw [addGraphOps_toIr h.ops_wf h.values_le _ hlen
    (by change 0 + graph.ops.length ≤ _; rw [Nat.zero_add]; exact h.ops_le)]
  simp only
  rw [markGraphValues_ids h.values_le _ ?_ _ hlen ?_ ?_]
  · rfl
  · rintro ⟨value, id⟩ hmem
    have hle := List.le_snd_of_mem_zipIdx hmem
    have hlt := List.snd_lt_add_of_mem_zipIdx hmem
    simp only at hle hlt ⊢
    omega
  · change 0 + (graph.values.zipIdx 1).length ≤ _
    rw [List.length_zipIdx, Nat.zero_add]
    exact h.values_le
  · change 0 + (graph.values.zipIdx 1).length ≤ _
    rw [List.length_zipIdx, Nat.zero_add]
    exact h.values_le

/-! ## From the program to the graph -/

/-- The graph rebuilt from the first `k` ops, without marks. -/
def Graph.upTo (graph : Graph) (k : ℕ) : Graph :=
  { values := graph.values.map fun value =>
      { value with
        producer := if value.producer ≤ k then value.producer else 0
        isInput := false
        isOutput := false }
    ops := (graph.ops.take k).map fun op => { op with epoch := 0 }
    sorted := false }

/-- The extents of the IR value are those of the graph value. -/
lemma GraphValue.WellFormed.extents_toIr {value : GraphValue} (h : value.WellFormed) :
    value.toIr.extents = value.shape := by
  have hle : value.shape.length ≤ paiTensorMaxRank := h.rank_bounds.2.1
  have hrank : (UInt8.ofNat value.shape.length).toNat = value.shape.length :=
    UInt8.toNat_ofNat_of_lt' (by rw [UInt8.size]; change value.shape.length ≤ 6 at hle; omega)
  unfold IrValue.extents GraphValue.toIr
  rw [hrank]
  exact take_padDims hle

/-- The graph builder accepts the value back. -/
lemma paiGraphAddValue_toIr {graph : Graph} {value : GraphValue} (h : value.WellFormed)
    (hroom : graph.values.length < paiGraphMaxValues) :
    paiGraphAddValue graph value.toIr.dtype value.toIr.extents value.toIr.align =
      ({ graph with
        values := graph.values ++ [{ value with producer := 0, isInput := false, isOutput := false }] },
        graph.values.length + 1) := by
  obtain ⟨hpos, hle, -⟩ := h.rank_bounds
  rw [h.extents_toIr]
  change paiGraphAddValue graph value.dtype value.shape value.align = _
  unfold paiGraphAddValue
  rw [if_neg]
  · simp only [h.size_eq, if_pos h.align_pow2.1]
  · rw [h.align_pow2.2]
    rintro (hz | hr | hf | ⟨-, ha⟩)
    · omega
    · omega
    · omega
    · cases ha

/-- The value loop adds the values back under their own ids. -/
lemma addIrValues_toIr {values : List GraphValue} (hwf : ∀ value ∈ values, value.WellFormed)
    (graph : Graph) (hroom : graph.values.length + values.length ≤ paiGraphMaxValues) :
    addIrValues graph (List.range' 1 graph.values.length) (values.map GraphValue.toIr) =
      .ok ({ graph with
        values := graph.values ++ values.map fun value =>
          { value with producer := 0, isInput := false, isOutput := false } },
        List.range' 1 (graph.values.length + values.length)) := by
  induction values generalizing graph with
  | nil => simp [addIrValues]
  | cons value values ih =>
    rw [List.length_cons] at hroom
    set fresh : GraphValue := { value with producer := 0, isInput := false, isOutput := false }
      with hfresh
    have hlen : (graph.values ++ [fresh]).length = graph.values.length + 1 := by simp
    have hrest := ih (fun w hw => hwf w (List.mem_cons_of_mem value hw))
      { graph with values := graph.values ++ [fresh] } (by simp only [hlen]; omega)
    rw [List.map_cons, addIrValues,
      paiGraphAddValue_toIr (hwf value List.mem_cons_self) (by omega)]
    have hcount : graph.values.length + 1 + values.length =
        graph.values.length + (values.length + 1) := by omega
    simp only [hlen] at hrest
    simp only [if_neg (Nat.succ_ne_zero _), range'_append_next, ← hfresh, hrest, List.append_assoc,
      List.singleton_append, List.map_cons, List.length_cons, hcount]

/-- The ids of the IR op, mapped back. -/
lemma map_mappedId_toNat {n : ℕ} (hn : n ≤ paiIrMaxValues) {ids : List ℕ}
    (h : ∀ id ∈ ids, 1 ≤ id ∧ id ≤ n) :
    (ids.map UInt16.ofNat).map (fun id => mappedId (List.range' 1 n) id.toNat) = ids := by
  rw [List.map_map]
  refine (List.map_congr_left fun id hid => ?_).trans (List.map_id ids)
  rw [Function.comp_apply, toNat_ofNat_id hn (h id hid).2, mappedId_range' (h id hid).1 (h id hid).2]
  rfl

/-- The producers of the rebuilt graph. -/
lemma Graph.producer_upTo (graph : Graph) (k v : ℕ) :
    (graph.upTo k).producer v = if graph.producer v ≤ k then graph.producer v else 0 := by
  unfold Graph.producer Graph.value? Graph.upTo
  by_cases hv : v = 0
  · simp [hv]
  · simp only [if_neg hv, List.getElem?_map]
    cases graph.values[v - 1]? with
    | none => simp
    | some value => rfl

/-- In a built graph, the outputs of op `o` are the values it is the producer of. -/
lemma Graph.Built.mem_outputs_iff {graph : Graph} (h : graph.Built) {o : ℕ} {op : GraphOp}
    (hop : graph.op? o = some op) (v : ℕ) : v ∈ op.outputs ↔ graph.producer v = o := by
  refine ⟨h.producer_of_output o op hop v, fun heq => ?_⟩
  have hpos := (Graph.op?_eq_some hop).1
  obtain ⟨op', hop', hout⟩ := h.output_of_producer v (by omega)
  rw [heq, hop] at hop'
  obtain rfl := Option.some.inj hop'
  exact hout

/-- The graph builder accepts the ops back one by one: the outputs of the next op have no producer yet. -/
lemma Graph.Built.addOp_upTo {graph : Graph} (h : graph.Built) {k : ℕ} {op : GraphOp}
    (hget : graph.ops[k]? = some op) :
    paiGraphAddOp (graph.upTo k) op.kind op.inputs op.outputs = (graph.upTo (k + 1), k + 1) := by
  have hop : graph.op? (k + 1) = some op := by
    rw [Graph.op?, if_neg (Nat.succ_ne_zero k)]
    exact hget
  have hwf := h.op_wf hop
  obtain ⟨hlt, -⟩ := List.getElem?_eq_some_iff.mp hget
  have hmax := h.ops_le
  have hvalues : (graph.upTo k).values.length = graph.values.length := List.length_map _
  have hops : (graph.upTo k).ops.length = k := by
    simp only [Graph.upTo, List.length_map, List.length_take]
    omega
  have hexist : ∀ id, 1 ≤ id ∧ id ≤ graph.values.length → (graph.upTo k).badId id = false :=
    fun id hid => Graph.badId_eq_false.mpr (hvalues ▸ hid)
  have hmem := h.mem_outputs_iff hop
  have hpos : ∀ v ∈ op.outputs, 1 ≤ v := fun v hv => (hwf.outputs_exist v hv).1
  have hnext : setProducer (graph.upTo k).values op.outputs (k + 1) =
      (graph.upTo (k + 1)).values := by
    apply List.ext_getElem?
    intro i
    rw [getElem?_setProducer _ hpos]
    simp only [Graph.upTo, List.getElem?_map, Option.map_map]
    cases hvalue : graph.values[i]? with
    | none => rfl
    | some value =>
      have hproducer : graph.producer (i + 1) = value.producer := by
        simp only [Graph.producer, Graph.value?, if_neg (Nat.succ_ne_zero i), Nat.add_sub_cancel,
          hvalue]
      simp only [Option.map_some, Function.comp_apply, hmem (i + 1), hproducer]
      by_cases heq : value.producer = k + 1
      · rw [if_pos heq, heq, if_pos le_rfl]
      · rw [if_neg heq]
        congr 2
        exact if_congr (by omega) rfl rfl
  unfold paiGraphAddOp
  rw [if_neg, if_neg, if_neg, if_neg]
  · have htake : graph.ops.take (k + 1) = graph.ops.take k ++ [op] := by
      rw [List.take_add_one, hget]
      rfl
    simp only [hops, hnext]
    simp only [Graph.upTo, htake, List.map_append, List.map_singleton]
  · intro hany
    obtain ⟨id, hid, hin⟩ := List.any_eq_true.mp hany
    exact hwf.inputs_disjoint id hid (List.contains_iff_mem.mp hin)
  · rintro (hany | hdup)
    · obtain ⟨id, hid, hbad⟩ := List.any_eq_true.mp hany
      rw [hexist id (hwf.outputs_exist id hid), Bool.false_or, bne_iff_ne, Graph.producer_upTo,
        (hmem id).mp hid, if_neg (by omega)] at hbad
      exact hbad rfl
    · exact hdup hwf.outputs_nodup
  · intro hany
    obtain ⟨id, hid, hbad⟩ := List.any_eq_true.mp hany
    rw [hexist id (hwf.inputs_exist id hid)] at hbad
    cases hbad
  · have hin := hwf.inputs_le
    have hout := hwf.outputs_le
    rw [hops]
    rintro (hi | ho | hf)
    · exact absurd hi (not_lt.mpr hin)
    · exact absurd ho (not_lt.mpr hout)
    · omega

/-- The op loop. -/
lemma Graph.Built.addIrOps_upTo {graph : Graph} (h : graph.Built) (ops : List GraphOp) (k : ℕ)
    (hdrop : graph.ops.drop k = ops) :
    addIrOps (List.range' 1 graph.values.length) (graph.upTo k) (ops.map GraphOp.toIr) =
      .ok (graph.upTo (k + ops.length)) := by
  induction ops generalizing k with
  | nil => rfl
  | cons op ops ih =>
    have hget : graph.ops[k]? = some op := by
      rw [← List.head?_drop, hdrop]
      rfl
    have hrest : graph.ops.drop (k + 1) = ops := by
      rw [← List.tail_drop, hdrop]
      rfl
    have hwf := h.ops_wf op (List.mem_of_getElem? hget)
    have hkind : ¬ paiIrOpKindCount ≤ op.toIr.kind := UInt8.not_le.mpr (graphToIrKind_lt op.kind)
    have hin : (op.toIr.inputs.map fun id => mappedId (List.range' 1 graph.values.length) id.toNat) =
        op.inputs := map_mappedId_toNat h.values_le hwf.inputs_exist
    have hout : (op.toIr.outputs.map fun id => mappedId (List.range' 1 graph.values.length) id.toNat) =
        op.outputs := map_mappedId_toNat h.values_le hwf.outputs_exist
    have hname : irToGraphKind op.toIr.kind = op.kind := irToGraphKind_graphToIrKind op.kind
    rw [List.map_cons, addIrOps, if_neg hkind, hin, hout, hname, h.addOp_upTo hget]
    simp only [if_neg (Nat.succ_ne_zero k)]
    rw [ih (k + 1) hrest, List.length_cons, Nat.add_right_comm, Nat.add_assoc]

/-- Marking a list of existing values. -/
lemma foldl_mark {n : ℕ} {f : GraphValue → GraphValue} {ids : List UInt32}
    (hids : ∀ id ∈ ids, 1 ≤ id.toNat ∧ id.toNat ≤ n) (graph : Graph) (hn : graph.values.length = n) :
    ids.foldl (fun g id => g.mark (mappedId (List.range' 1 n) id.toNat) f) graph =
      { graph with
        values := (ids.map UInt32.toNat).foldl (fun values v => values.modify (v - 1) f)
          graph.values } := by
  induction ids generalizing graph with
  | nil => rfl
  | cons id ids ih =>
    obtain ⟨h1, h2⟩ := hids id List.mem_cons_self
    have hmark : graph.mark (mappedId (List.range' 1 n) id.toNat) f =
        { graph with values := graph.values.modify (id.toNat - 1) f } := by
      rw [mappedId_range' h1 h2, Graph.mark, if_pos ⟨by omega, by omega⟩]
    rw [List.foldl_cons, hmark, ih (fun w hw => hids w (List.mem_cons_of_mem id hw)) _
      ((List.length_modify _ _ _).trans hn)]
    rfl

/-- The marked ids are those of the values marked. -/
lemma mem_markedIds {p : GraphValue → Bool} {values : List GraphValue}
    (hn : values.length ≤ paiIrMaxValues) {id : UInt32} :
    id ∈ markedIds p (values.zipIdx 1) ↔
      1 ≤ id.toNat ∧ ∃ value, values[id.toNat - 1]? = some value ∧ p value = true := by
  change values.length ≤ 1024 at hn
  unfold markedIds
  rw [List.mem_map]
  constructor
  · rintro ⟨⟨value, i⟩, hmem, rfl⟩
    obtain ⟨hmem, hp⟩ := List.mem_filter.mp hmem
    obtain ⟨hle, hget⟩ := List.mk_mem_zipIdx_iff_le_and_getElem?_sub.mp hmem
    obtain ⟨hlt, -⟩ := List.getElem?_eq_some_iff.mp hget
    have hi : (UInt32.ofNat i).toNat = i := UInt32.toNat_ofNat_of_lt' (by rw [UInt32.size]; omega)
    simp only [hi]
    exact ⟨hle, value, hget, hp⟩
  · rintro ⟨h1, value, hget, hp⟩
    refine ⟨(value, id.toNat), List.mem_filter.mpr ⟨?_, hp⟩, UInt32.ofNat_toNat⟩
    exact List.mk_mem_zipIdx_iff_le_and_getElem?_sub.mpr ⟨h1, hget⟩

/-- The value at a place is marked when its id is listed. -/
lemma succ_mem_markedIds {p : GraphValue → Bool} {values : List GraphValue}
    (hn : values.length ≤ paiIrMaxValues) {i : ℕ} {value : GraphValue} (hget : values[i]? = some value) :
    i + 1 ∈ (markedIds p (values.zipIdx 1)).map UInt32.toNat ↔ p value = true := by
  rw [List.mem_map]
  constructor
  · rintro ⟨id, hid, heq⟩
    obtain ⟨-, value', hget', hp⟩ := (mem_markedIds hn).mp hid
    rw [heq, Nat.add_sub_cancel, hget] at hget'
    obtain rfl := Option.some.inj hget'
    exact hp
  · intro hp
    obtain ⟨hlt, -⟩ := List.getElem?_eq_some_iff.mp hget
    change values.length ≤ 1024 at hn
    have hid : (UInt32.ofNat (i + 1)).toNat = i + 1 :=
      UInt32.toNat_ofNat_of_lt' (by rw [UInt32.size]; omega)
    refine ⟨UInt32.ofNat (i + 1), (mem_markedIds hn).mpr ?_, hid⟩
    rw [hid]
    exact ⟨by omega, value, hget, hp⟩

/-- With all ops added, the marks make the values those of the graph. -/
lemma Graph.Built.marks_upTo {graph : Graph} (h : graph.Built) :
    ((markedIds GraphValue.isOutput (graph.values.zipIdx 1)).map UInt32.toNat).foldl
      (fun values v => values.modify (v - 1) fun value => { value with isOutput := true })
      (((markedIds GraphValue.isInput (graph.values.zipIdx 1)).map UInt32.toNat).foldl
        (fun values v => values.modify (v - 1) fun value => { value with isInput := true })
        (graph.upTo graph.ops.length).values) = graph.values := by
  have hpos : ∀ p : GraphValue → Bool,
      ∀ v ∈ (markedIds p (graph.values.zipIdx 1)).map UInt32.toNat, 1 ≤ v := by
    intro p v hv
    obtain ⟨id, hid, rfl⟩ := List.mem_map.mp hv
    exact ((mem_markedIds h.values_le).mp hid).1
  apply List.ext_getElem?
  intro i
  rw [getElem?_foldl_modify (f := fun value => { value with isOutput := true }) (fun _ => rfl)
      (hpos _), getElem?_foldl_modify (f := fun value => { value with isInput := true })
      (fun _ => rfl) (hpos _)]
  simp only [Graph.upTo, List.getElem?_map]
  cases hget : graph.values[i]? with
  | none => rfl
  | some value =>
    have hproducer : value.producer ≤ graph.ops.length := by
      have heq : graph.producer (i + 1) = value.producer := by
        simp only [Graph.producer, Graph.value?, if_neg (Nat.succ_ne_zero i), Nat.add_sub_cancel, hget]
      by_cases hz : value.producer = 0
      · omega
      · obtain ⟨op, hop, -⟩ := h.output_of_producer (i + 1) (by rw [heq]; exact hz)
        rw [← heq]
        exact (Graph.op?_eq_some hop).2.1
    simp only [Option.map_some, succ_mem_markedIds h.values_le hget, if_pos hproducer]
    obtain ⟨dtype, shape, sizeBytes, align, producer, isInput, isOutput⟩ := value
    cases isInput <;> cases isOutput <;> rfl

/-- The graph rebuilt from the program of a built graph. -/
lemma Graph.Built.toGraph {graph : Graph} (h : graph.Built) :
    paiIrToGraph graph.toIr =
      .ok { graph with ops := graph.ops.map fun op => { op with epoch := 0 }, sorted := false } := by
  have hvalues := addIrValues_toIr h.values_wf paiGraphInit
    (by change 0 + graph.values.length ≤ _; rw [Nat.zero_add]; exact h.values_le)
  have hstart : ({ paiGraphInit with
      values := paiGraphInit.values ++ graph.values.map fun value =>
        { value with producer := 0, isInput := false, isOutput := false } } : Graph) = graph.upTo 0 := by
    simp only [Graph.upTo, paiGraphInit, List.nil_append, List.take_zero, List.map_nil]
    congr 1
    refine List.map_congr_left fun value _ => ?_
    congr 1
    split_ifs with hz
    · omega
    · rfl
  have hzero : paiGraphInit.values.length + graph.values.length = graph.values.length := Nat.zero_add _
  rw [hstart, hzero] at hvalues
  change addIrValues paiGraphInit [] _ = _ at hvalues
  have hops := h.addIrOps_upTo graph.ops 0 rfl
  rw [Nat.zero_add] at hops
  have hexist : ∀ p : GraphValue → Bool, ∀ id ∈ markedIds p (graph.values.zipIdx 1),
      1 ≤ id.toNat ∧ id.toNat ≤ graph.values.length := by
    intro p id hid
    obtain ⟨h1, value, hget, -⟩ := (mem_markedIds h.values_le).mp hid
    obtain ⟨hlt, -⟩ := List.getElem?_eq_some_iff.mp hget
    omega
  have hlen : (graph.upTo graph.ops.length).values.length = graph.values.length := List.length_map _
  unfold paiIrToGraph
  simp only [Graph.toIr, hvalues, hops]
  unfold paiGraphSetInput paiGraphSetOutput
  rw [foldl_mark (hexist GraphValue.isInput) _ hlen, foldl_mark (hexist GraphValue.isOutput)]
  · congr 2
    · exact h.marks_upTo
    · simp only [Graph.upTo, List.take_length]
  · exact (length_foldl_modify _ _ _).trans hlen

/-! ## The round trip -/

/-- A graph the API built goes to the IR and comes back with the same values and the same ops in the same
order; only the epochs and the flag of the sort are reset. -/
theorem paiIrToGraph_paiIrFromGraph (calls : List GraphCall) :
    ∃ prog, paiIrFromGraph (graphBuild calls) = .ok prog ∧
      ∃ graph, paiIrToGraph prog = .ok graph ∧ graph.values = (graphBuild calls).values ∧
        graph.ops.map (fun op => (op.kind, op.inputs, op.outputs)) =
          (graphBuild calls).ops.map (fun op => (op.kind, op.inputs, op.outputs)) := by
  have h : (graphBuild calls).Built := graphBuilt_run calls
  refine ⟨_, h.fromGraph, _, h.toGraph, rfl, ?_⟩
  rw [List.map_map]
  rfl

end Prospero
