import Prospero.Models.Packed

/-!
# Loading the weights of an untrusted container

Which reads of the weight blob and which writes to the planned region `pai_session_init` and
`load_value_f32` make for the entries of a manifest.  Offsets and sizes are 64-bit numbers from the
file and are compared after an addition that may wrap; the raw path bounds a write by the region and
not by the value, and the quantized path of `load_value_f32` does not compare the end of the entry
with the size of the weights at all.  `EntryFits` and `LoadFits` say for which entries this is
harmless, and `weightLoading_inside_iff` that they are exactly those.
-/

namespace Prospero

open Buffer ByteString Footprint Reader

/-! ## What an opened model has -/

/-- What `pai_model_open_blob` establishes. -/
structure Model.Opened (model : Model) : Prop where
  /-- The recorded size of the weights is their size. -/
  weights_len : model.weights.length = model.weightsBytes.toNat
  /-- No manifest entry is empty. -/
  manifest_ne : ∀ t ∈ model.manifest, t.sizeBytes ≠ 0
  /-- The program is one the decoder accepts. -/
  ir_accepted : model.ir.Accepted
  /-- The graph is well formed. -/
  built : model.graph.Built
  /-- The graph has the values of the program. -/
  values : HasValues model.graph model.ir.values

/-- A section is shorter than four gigabytes. -/
lemma requireSection_length {container : PaiContainer} {type : UInt32} {sec : List UInt8}
    (h : requireSection container type = .ok sec) : sec.length < 2 ^ 32 := by
  unfold requireSection at h
  split at h
  · next sec' hsec =>
    cases h
    obtain ⟨s, -, rfl⟩ := Option.map_eq_some_iff.mp hsec
    have hsize := s.size.toNat_lt
    calc (slice container.data s.offset.toNat s.size.toNat).length ≤ s.size.toNat :=
          List.length_take_le _ _
      _ < 2 ^ 32 := hsize
  · cases h

/-- The recorded size of opened weights is their size. -/
lemma openWeights_length {malloc : ℕ → Bool} {inflate : List UInt8 → ℕ → Option (List UInt8)}
    {container : PaiContainer} {manifest : List PaiTensor} {r : List UInt8 × UInt64}
    (h : openWeights malloc inflate container manifest = .ok r) : r.1.length = r.2.toNat := by
  unfold openWeights at h
  obtain ⟨sec, hsec, h⟩ := bind_eq_ok h
  obtain ⟨-, h⟩ := refuse_bind_eq_ok h
  split_ifs at h
  · simp only at h
    obtain ⟨-, h⟩ := refuse_bind_eq_ok h
    obtain ⟨-, h⟩ := refuse_bind_eq_ok h
    split at h
    · cases h
    · obtain ⟨hlen, h⟩ := refuse_bind_eq_ok h
      cases h
      exact not_not.mp hlen
  · obtain ⟨-, h⟩ := refuse_bind_eq_ok h
    cases h
    have hlt := requireSection_length hsec
    rw [UInt64.toNat_ofNat', Nat.mod_eq_of_lt (by omega)]

lemma liftStatus_eq_ok {α : Type} {r : Except PaiStatus α} {a : α} (h : liftStatus r = .ok a) :
    r = .ok a := by
  unfold liftStatus at h
  split at h
  · cases h
    rfl
  · cases h

/-- Sorting does not touch the values. -/
lemma values_graphMemoryPlanImpl (qsort : Planner → List SortEntry) (graph : Graph)
    (persistent : Bool) :
    (graphMemoryPlanImpl qsort graph persistent).1.values = graph.values := by
  have hsorted : graph.ensureSorted.1.values = graph.values := by
    unfold Graph.ensureSorted paiGraphTopoSort
    split_ifs <;> rfl
  unfold graphMemoryPlanImpl
  simp only
  split_ifs
  · exact hsorted
  · exact hsorted

lemma built_graphMemoryPlanImpl {graph : Graph} (h : graph.Built) (qsort : Planner → List SortEntry)
    (persistent : Bool) : (graphMemoryPlanImpl qsort graph persistent).1.Built := by
  unfold graphMemoryPlanImpl
  simp only
  split_ifs
  · exact h.ensureSorted
  · exact h.ensureSorted

/-- What every opened container gives. -/
theorem opened_of_openBlob {malloc : ℕ → Bool} {inflate : List UInt8 → ℕ → Option (List UInt8)}
    {qsort : Planner → List SortEntry} {blob : List UInt8} {model : Model}
    (h : paiModelOpenBlob malloc inflate qsort blob = .ok model) : model.Opened := by
  unfold paiModelOpenBlob at h
  obtain ⟨container, -, h⟩ := bind_eq_ok h
  obtain ⟨metaSec, -, h⟩ := bind_eq_ok h
  obtain ⟨info, -, h⟩ := bind_eq_ok h
  obtain ⟨manifestSec, -, h⟩ := bind_eq_ok h
  obtain ⟨manifest, hmanifest, h⟩ := bind_eq_ok h
  obtain ⟨⟨weights, weightsBytes⟩, hweights, h⟩ := bind_eq_ok h
  obtain ⟨irSec, -, h⟩ := bind_eq_ok h
  obtain ⟨ir, hir, h⟩ := bind_eq_ok h
  obtain ⟨graph, hgraph, h⟩ := bind_eq_ok h
  obtain ⟨memPlan, -, h⟩ := bind_eq_ok h
  obtain ⟨tokenizer, -, h⟩ := bind_eq_ok h
  cases h
  have hacc := (post_paiIrDecode irSec).of_ok hir
  obtain ⟨hbuilt, hvalues⟩ := paiIrToGraph_values hacc.values_wf (liftStatus_eq_ok hgraph)
  refine ⟨openWeights_length hweights, ?_, hacc, built_graphMemoryPlanImpl hbuilt qsort true, ?_⟩
  · exact ((post_paiPaiManifestDecode manifestSec paiPaiMaxTensors).of_ok hmanifest).2
  · change (graphMemoryPlanImpl qsort graph true).1.values.map GraphValue.desc = _
    rw [values_graphMemoryPlanImpl]
    exact hvalues

/-! ## Allowed accesses and conditions -/

section Conditions

variable (model : Model) (t : PaiTensor)

/-- The planned offset of the value of an entry. -/
def entryOffset : UInt64 := paiGraphMemPlanOffset model.memPlan t.valueId.toNat

/-- An access for the entry: a load inside the weights, or a store inside the planned range of the
entry's value. -/
def InsideTensor (acc : Access Space) : Prop :=
  if acc.isStore then
    acc.space = .region ∧ ∃ v, model.graph.value? t.valueId.toNat = some v ∧
      (entryOffset model t).toNat ≤ acc.addr ∧
      acc.addr + acc.len ≤ (entryOffset model t).toNat + v.sizeBytes.toNat
  else acc.space = .weights ∧ acc.addr + acc.len ≤ model.weights.length

/-- Packed values and scales of `n` elements, without overflow. -/
def storedBytes (n : ℕ) (scheme : QuantScheme) : ℕ :=
  paiQuantValueBytes n scheme + paiQuantScaleBytes n scheme

/-- The checks of the raw path pass. -/
def RawAccepted : Prop :=
  entryOffset model t + t.sizeBytes ≤ model.memPlan.regionBytes ∧
    t.offset + t.sizeBytes ≤ model.weightsBytes

/-- The checks of the quantized path pass. -/
def QuantAccepted (v : GraphValue) (quant : IrQuant) : Prop :=
  (quant.bitWidth = 4 ∨ quant.bitWidth = 8) ∧
    entryOffset model t + v.sizeBytes ≤ model.memPlan.regionBytes ∧
    t.offset + t.sizeBytes ≤ model.weightsBytes ∧
    u64 (storedBytes (v.sizeBytes.toNat / 4) (loadScheme quant)) = t.sizeBytes.toNat

/-- The entry is harmless for `pai_session_init`: if its checks pass, then no sum in them wrapped, and
an unquantized entry is not larger than its value. -/
def EntryFits : Prop :=
  ∀ v iv, model.graph.value? t.valueId.toNat = some v →
    model.ir.valueAt t.valueId.toNat = some iv →
    (iv.quant.present = 0 → RawAccepted model t →
      t.offset.toNat + t.sizeBytes.toNat < 2 ^ 64 ∧ t.sizeBytes ≤ v.sizeBytes) ∧
    (iv.quant.present ≠ 0 → QuantAccepted model t v iv.quant →
      t.offset.toNat + storedBytes (v.sizeBytes.toNat / 4) (loadScheme iv.quant) < 2 ^ 64)

/-- The loop stops at the entry: one of its checks fails. -/
def EntryRefused : Prop :=
  ∃ v iv, model.graph.value? t.valueId.toNat = some v ∧
    model.ir.valueAt t.valueId.toNat = some iv ∧
    (iv.quant.present = 0 → ¬ RawAccepted model t) ∧
    (iv.quant.present ≠ 0 → ¬ QuantAccepted model t v iv.quant)

/-- The access of `load_value_f32`: a load inside the weights, or a store inside its own buffer. -/
def InsideBuffer (n : ℕ) (acc : Access Space) : Prop :=
  if acc.isStore then acc.space = .scratch ∧ acc.addr + acc.len ≤ n * 4
  else acc.space = .weights ∧ acc.addr + acc.len ≤ model.weights.length

end Conditions

/-- The entry `load_value_f32` takes for a value is harmless: a quantized one ends inside the weights,
and the end of an unquantized one does not wrap. -/
def LoadFits (malloc : ℕ → Bool) (model : Model) (valueId : ℕ) : Prop :=
  ∀ t iv, model.manifest.find? (fun t => t.valueId.toNat == valueId) = some t →
    model.ir.valueAt valueId = some iv →
    elementCount iv.extents ≤ 0x100000000 → malloc (elementCount iv.extents * 4) = true →
    (iv.quant.present = 0 → t.sizeBytes.toNat = elementCount iv.extents * 4 →
      t.offset + t.sizeBytes ≤ model.weightsBytes → t.offset.toNat + t.sizeBytes.toNat < 2 ^ 64) ∧
    (iv.quant.present ≠ 0 → iv.quant.bitWidth = 4 ∨ iv.quant.bitWidth = 8 →
      storedBytes (elementCount iv.extents) (loadScheme iv.quant) = t.sizeBytes.toNat →
      t.offset.toNat + t.sizeBytes.toNat ≤ model.weightsBytes.toNat)

/-- The rounds of the loop of `pai_session_init` a run gets to, each with the memory it starts from;
none when the plan cannot be built or the region not be allocated. -/
def sessionRounds (malloc : ℕ → Bool) (model : Model) (mem : Memory Space) :
    List (PaiTensor × Memory Space) :=
  match (paiSchedBuildPersistent model.graph model.memPlan .interactive fun _ => 0).2 with
  | .error _ => []
  | .ok _ =>
    if malloc model.memPlan.regionBytes.toNat = false then []
    else rounds (loadEntry model) model.manifest mem

/-- The loop of `pai_session_init` is entered: the plan is built and the region allocated. -/
def SessionLoads (malloc : ℕ → Bool) (model : Model) : Prop :=
  (∃ plan, (paiSchedBuildPersistent model.graph model.memPlan .interactive fun _ => 0).2 = .ok plan) ∧
    malloc model.memPlan.regionBytes.toNat = true

/-! ## Entries of the manifest -/

/-- A compared sum does not wrap exactly when the exact sum is within the bound. -/
lemma add_le_iff_of_le {a b w : UInt64} (h : a + b ≤ w) :
    a.toNat + b.toNat ≤ w.toNat ↔ a.toNat + b.toNat < 2 ^ 64 := by
  have hw := w.toNat_lt
  have hle := UInt64.le_iff_toNat_le.mp h
  rw [UInt64.toNat_add] at hle
  constructor
  · intro hin
    omega
  · intro hlt
    rwa [Nat.mod_eq_of_lt hlt] at hle

section Entries

variable {model : Model} {t : PaiTensor}

/-- The program has the value of every id the graph has. -/
lemma Model.Opened.exists_valueAt (hopen : model.Opened) {id : ℕ} {v : GraphValue}
    (hv : model.graph.value? id = some v) :
    ∃ iv, model.ir.valueAt id = some iv ∧ iv.WellFormed ∧ v.sizeBytes = iv.sizeBytes := by
  obtain ⟨h1, h2, -⟩ := Graph.value?_eq_some hv
  have hlen := hopen.values.length_eq
  have hlt : id - 1 < model.ir.values.length := by omega
  refine ⟨model.ir.values[id - 1], ?_, ?_, ?_⟩
  · rw [IrProgram.valueAt, if_neg (by omega)]
    exact List.getElem?_eq_getElem hlt
  · exact hopen.ir_accepted.values_wf _ (List.getElem_mem hlt)
  · have hdesc := congrArg (fun l => l[id - 1]?) hopen.values
    simp only [List.getElem?_map] at hdesc
    rw [Graph.value?, if_neg (by omega)] at hv
    rw [hv, List.getElem?_eq_getElem hlt] at hdesc
    have hdesc := Option.some.inj hdesc
    exact congrArg (fun d => d.2.2.1) hdesc

lemma loadRaw_refused (h : ¬ RawAccepted model t) : ∃ e, loadRaw model t = .fail e := by
  unfold loadRaw
  simp only
  split_ifs with hbad
  · exact ⟨_, rfl⟩
  · refine absurd ⟨?_, ?_⟩ h
    · exact UInt64.not_lt.mp fun hlt => hbad (Or.inl hlt)
    · exact UInt64.not_lt.mp fun hlt => hbad (Or.inr hlt)

lemma loadRaw_accepted (h : RawAccepted model t) :
    loadRaw model t = (do
      let bs ← loadBytes .weights t.offset.toNat t.sizeBytes.toNat
      storeBytes .region (entryOffset model t).toNat bs) := by
  unfold loadRaw
  simp only
  rw [if_neg]
  · rfl
  · rintro (hlt | hlt)
    · exact UInt64.not_lt.mpr h.1 hlt
    · exact UInt64.not_lt.mpr h.2 hlt

/-- The raw path. -/
lemma loadRaw_inside_iff (hopen : model.Opened) {v : GraphValue}
    (hv : model.graph.value? t.valueId.toNat = some v) (mem : Memory Space) :
    (∀ acc ∈ (loadRaw model t).trace mem, InsideTensor model t acc) ↔
      (RawAccepted model t →
        t.offset.toNat + t.sizeBytes.toNat < 2 ^ 64 ∧ t.sizeBytes ≤ v.sizeBytes) := by
  by_cases hraw : RawAccepted model t
  swap
  · obtain ⟨e, hfail⟩ := loadRaw_refused hraw
    rw [hfail]
    exact ⟨fun _ hacc => absurd hacc hraw, fun _ acc hacc => absurd hacc List.not_mem_nil⟩
  rw [loadRaw_accepted hraw]
  obtain ⟨hregion, hweights⟩ := hraw
  have hwrap := add_le_iff_of_le hweights
  rw [← hopen.weights_len] at hwrap
  have htrace : ∀ acc, acc ∈ Prog.trace (ε := PaiStatus) (do
      let bs ← loadBytes .weights t.offset.toNat t.sizeBytes.toNat
      storeBytes .region (entryOffset model t).toNat bs) mem ↔
      acc = ⟨.weights, t.offset.toNat, t.sizeBytes.toNat, false⟩ ∨
        acc = ⟨.region, (entryOffset model t).toNat, t.sizeBytes.toNat, true⟩ := by
    intro acc
    change acc ∈ [_, _] ↔ _
    rw [List.mem_cons, List.mem_singleton, Memory.length_bytes]
  constructor
  · intro hall _
    have hload := hall _ ((htrace _).mpr (Or.inl rfl))
    obtain ⟨-, w, hw, -, hend⟩ := hall _ ((htrace _).mpr (Or.inr rfl))
    obtain rfl : v = w := Option.some.inj (hv.symm.trans hw)
    refine ⟨hwrap.mp hload.2, ?_⟩
    apply UInt64.le_iff_toNat_le.mpr
    change (entryOffset model t).toNat + t.sizeBytes.toNat ≤ _ at hend
    omega
  · intro hfits acc hacc
    obtain ⟨hlt, hle⟩ := hfits ⟨hregion, hweights⟩
    rcases (htrace acc).mp hacc with rfl | rfl
    · exact ⟨rfl, hwrap.mpr hlt⟩
    · refine ⟨rfl, v, hv, le_rfl, ?_⟩
      have hle := UInt64.le_iff_toNat_le.mp hle
      change (entryOffset model t).toNat + t.sizeBytes.toNat ≤ _
      omega

/-- The group size of a scheme of the loader exists for a tensor that is not empty. -/
lemma exists_groupSize {quant : IrQuant} {n : ℕ} (hbits : quant.bitWidth = 4 ∨ quant.bitWidth = 8)
    (hn : n ≠ 0) : ∃ gs, quantGroupSize (loadScheme quant) n = .ok gs := by
  unfold quantGroupSize loadScheme
  rw [if_neg (by rcases hbits with h | h <;> simp [h]), if_neg (show ¬ ((1 : UInt8) = 0) by decide)]
  simp only
  by_cases hz : quant.groupSize = 0
  · rw [if_pos hz, if_neg hn]
    exact ⟨n, rfl⟩
  · have hne : quant.groupSize.toNat ≠ 0 := fun h => hz (UInt16.toNat_inj.mp h)
    rw [if_neg hz, if_neg hne]
    exact ⟨_, rfl⟩

/-- An empty tensor takes no bytes. -/
lemma storedBytes_zero (scheme : QuantScheme) : storedBytes 0 scheme = 0 := by
  rw [storedBytes, paiQuantValueBytes, paiQuantScaleBytes, paiQuantNumGroups, if_pos rfl, if_pos rfl]
  rfl

/-- The dequantizer at an offset reads the packed tensor there, to its last byte. -/
lemma dequant_reads_iff {q n : ℕ} {quant : IrQuant} {dst : Space} {out : ℕ} {P : Access Space → Prop}
    {w : ℕ} (hbits : quant.bitWidth = 4 ∨ quant.bitWidth = 8) (hn : n ≠ 0) (hlt : 4 * n < 2 ^ 64)
    (hload : ∀ addr len, P ⟨.weights, addr, len, false⟩ ↔ addr + len ≤ w)
    (hstore : ∀ off len, off + len ≤ 4 * n → P ⟨dst, out + off, len, true⟩) (mem : Memory Space) :
    (∀ acc ∈ (paiDequantizeF32 q (q + paiQuantValueBytes n (loadScheme quant)) n (loadScheme quant) dst
        out).trace mem, P acc) ↔ q + storedBytes n (loadScheme quant) ≤ w := by
  obtain ⟨gs, hgs⟩ := exists_groupSize hbits hn
  have hscale := scaleBytes_eq hn hlt hgs
  have hpos := groupCount_pos gs hn
  constructor
  · intro hall
    have hend := (hload _ _).mp (hall _ (paiDequantizeF32_reads_end hn hgs mem))
    rw [storedBytes, hscale]
    omega
  · intro hle
    rw [storedBytes, hscale] at hle
    have hspec : (paiDequantizeF32 q (q + paiQuantValueBytes n (loadScheme quant)) n (loadScheme quant)
        dst out).Spec P (fun _ => True) fun _ => True := by
      refine spec_paiDequantizeF32 hlt hgs ?_ ?_ hstore
      · intro off len hoff
        exact (hload _ _).mpr (by omega)
      · intro off len hoff
        exact (hload _ _).mpr (by omega)
    exact hspec.trace mem

/-- The dequantization of an accepted entry is not empty and has a group size. -/
lemma QuantAccepted.groupSize (hopen : model.Opened) (hmem : t ∈ model.manifest) {v : GraphValue}
    {quant : IrQuant} (h : QuantAccepted model t v quant) :
    v.sizeBytes.toNat / 4 ≠ 0 ∧
      ∃ gs, quantGroupSize (loadScheme quant) (v.sizeBytes.toNat / 4) = .ok gs := by
  obtain ⟨hbits, -, -, hstored⟩ := h
  have hn : v.sizeBytes.toNat / 4 ≠ 0 := by
    intro hz
    rw [hz, storedBytes_zero] at hstored
    exact hopen.manifest_ne t hmem (UInt64.toNat_inj.mp hstored.symm)
  exact ⟨hn, exists_groupSize hbits hn⟩

lemma loadQuantized_refused {v : GraphValue} {quant : IrQuant} (h : ¬ QuantAccepted model t v quant) :
    ∃ e, loadQuantized model t v quant = .fail e := by
  unfold loadQuantized
  simp only
  split_ifs with hbits hbounds hsize
  · exact ⟨_, rfl⟩
  · exact ⟨_, rfl⟩
  · exact ⟨_, rfl⟩
  · refine absurd ⟨by tauto, ?_, ?_, not_not.mp hsize⟩ h
    · exact UInt64.not_lt.mp fun hlt => hbounds (Or.inl hlt)
    · exact UInt64.not_lt.mp fun hlt => hbounds (Or.inr hlt)

lemma loadQuantized_accepted {v : GraphValue} {quant : IrQuant} (h : QuantAccepted model t v quant) :
    loadQuantized model t v quant =
      paiDequantizeF32 t.offset.toNat
        (t.offset.toNat + paiQuantValueBytes (v.sizeBytes.toNat / 4) (loadScheme quant))
        (v.sizeBytes.toNat / 4) (loadScheme quant) .region (entryOffset model t).toNat := by
  obtain ⟨hbits, hregion, hweights, hstored⟩ := h
  unfold loadQuantized
  simp only
  rw [storedBytes] at hstored
  rw [if_neg (by tauto), if_neg, if_neg (not_not.mpr hstored)]
  · rfl
  · rintro (hlt | hlt)
    · exact UInt64.not_lt.mpr hregion hlt
    · exact UInt64.not_lt.mpr hweights hlt

/-- The quantized path. -/
lemma loadQuantized_inside_iff (hopen : model.Opened) (hmem : t ∈ model.manifest) {v : GraphValue}
    (hv : model.graph.value? t.valueId.toNat = some v) (quant : IrQuant) (mem : Memory Space) :
    (∀ acc ∈ (loadQuantized model t v quant).trace mem, InsideTensor model t acc) ↔
      (QuantAccepted model t v quant →
        t.offset.toNat + storedBytes (v.sizeBytes.toNat / 4) (loadScheme quant) < 2 ^ 64) := by
  by_cases hacc : QuantAccepted model t v quant
  swap
  · obtain ⟨e, hfail⟩ := loadQuantized_refused hacc
    rw [hfail]
    exact ⟨fun _ h => absurd h hacc, fun _ acc h => absurd h List.not_mem_nil⟩
  rw [loadQuantized_accepted hacc]
  obtain ⟨hn, -⟩ := hacc.groupSize hopen hmem
  obtain ⟨hbits, hregion, hweights, hstored⟩ := hacc
  have hvlt := v.sizeBytes.toNat_lt
  rw [dequant_reads_iff hbits hn (by omega) (w := model.weights.length)]
  · have hwrap := add_le_iff_of_le hweights
    rw [← hopen.weights_len] at hwrap
    have hw := model.weightsBytes.toNat_lt
    rw [← hopen.weights_len] at hw
    constructor
    · intro hin _
      omega
    · intro hlt
      have hlt := hlt ⟨hbits, hregion, hweights, hstored⟩
      rw [u64_of_lt (by omega)] at hstored
      rw [hstored] at hlt ⊢
      exact hwrap.mpr hlt
  · intro addr len
    exact ⟨fun h => h.2, fun h => ⟨rfl, h⟩⟩
  · intro off len hoff
    exact ⟨rfl, v, hv, Nat.le_add_right _ _, by change _ + off + len ≤ _; omega⟩

/-- One round makes only allowed accesses exactly when its entry is harmless. -/
lemma loadEntry_inside_iff (hopen : model.Opened) (hmem : t ∈ model.manifest) (mem : Memory Space) :
    (∀ acc ∈ (loadEntry model t).trace mem, InsideTensor model t acc) ↔ EntryFits model t := by
  unfold loadEntry EntryFits
  cases hv : model.graph.value? t.valueId.toNat with
  | none => exact ⟨fun _ v iv h => absurd h (by simp), fun _ acc hacc => absurd hacc List.not_mem_nil⟩
  | some v =>
    obtain ⟨iv, hiv, -, -⟩ := hopen.exists_valueAt hv
    rw [hiv]
    simp only
    by_cases hq : iv.quant.present = 0
    · rw [if_neg (not_not.mpr hq), loadRaw_inside_iff hopen hv]
      constructor
      · rintro h _ _ ⟨⟩ ⟨⟩
        exact ⟨fun _ => h, fun hne => absurd hq hne⟩
      · intro h
        exact (h v iv rfl rfl).1 hq
    · rw [if_pos hq, loadQuantized_inside_iff hopen hmem hv]
      constructor
      · rintro h _ _ ⟨⟩ ⟨⟩
        exact ⟨fun hz => absurd hz hq, fun _ => h⟩
      · intro h
        exact (h v iv rfl rfl).2 hq

/-- A refused entry stops the loop. -/
lemma run_loadEntry_refused (h : EntryRefused model t) (mem : Memory Space) :
    ∃ e mem', (loadEntry model t).run mem = (.error e, mem') := by
  obtain ⟨v, iv, hv, hiv, hraw, hquant⟩ := h
  unfold loadEntry
  rw [hv, hiv]
  simp only
  by_cases hq : iv.quant.present = 0
  · obtain ⟨e, hfail⟩ := loadRaw_refused (hraw hq)
    rw [if_neg (not_not.mpr hq), hfail]
    exact ⟨e, mem, rfl⟩
  · obtain ⟨e, hfail⟩ := loadQuantized_refused (hquant hq)
    rw [if_pos hq, hfail]
    exact ⟨e, mem, rfl⟩

/-- Every other entry is loaded. -/
lemma run_loadEntry_accepted (hopen : model.Opened) (hmem : t ∈ model.manifest)
    (h : ¬ EntryRefused model t) (mem : Memory Space) :
    ∃ mem', (loadEntry model t).run mem = (.ok (), mem') := by
  have hspec : (loadEntry model t).Spec (fun _ => True) (fun _ => False) fun _ => True := by
    unfold loadEntry
    cases hv : model.graph.value? t.valueId.toNat with
    | none => exact trivial
    | some v =>
      obtain ⟨iv, hiv, -, -⟩ := hopen.exists_valueAt hv
      rw [hiv]
      simp only
      by_cases hq : iv.quant.present = 0
      · have hraw : RawAccepted model t := by
          by_contra hraw
          exact h ⟨v, iv, hv, hiv, fun _ => hraw, fun hne => absurd hq hne⟩
        rw [if_neg (not_not.mpr hq), loadRaw_accepted hraw]
        exact Prog.Spec.bind (spec_loadBytes trivial) fun _ _ => spec_storeBytes trivial
      · have hquant : QuantAccepted model t v iv.quant := by
          by_contra hquant
          exact h ⟨v, iv, hv, hiv, fun hz => absurd hz hq, fun _ => hquant⟩
        rw [if_pos hq, loadQuantized_accepted hquant]
        obtain ⟨-, gs, hgs⟩ := hquant.groupSize hopen hmem
        have hvlt := v.sizeBytes.toNat_lt
        exact spec_paiDequantizeF32 (by omega) hgs (fun _ _ _ => trivial) (fun _ _ _ => trivial)
          fun _ _ _ => trivial
  have hrun := hspec.run mem
  rcases hres : (loadEntry model t).run mem with ⟨e | u, mem'⟩
  · rw [hres] at hrun
    exact absurd hrun id
  · exact ⟨mem', rfl⟩

end Entries

/-! ## Sessions -/

section Sessions

variable {malloc : ℕ → Bool} {model : Model}

/-- The accesses of `pai_session_init` are those of its rounds. -/
lemma trace_paiSessionInit (kvInit : UInt64 → UInt32 → UInt32 → PaiStatus) (mem : Memory Space) :
    (paiSessionInit model malloc kvInit).trace mem =
      (sessionRounds malloc model mem).flatMap fun r => (loadEntry model r.1).trace r.2 := by
  unfold paiSessionInit sessionRounds
  generalize paiSchedBuildPersistent model.graph model.memPlan .interactive (fun _ => 0) = built
  rcases built with ⟨graph, e | plan⟩
  · rfl
  simp only
  split_ifs
  · rfl
  change Prog.trace (Prog.bind _ _) mem = _
  rw [Prog.trace_bind, trace_forEach]
  rcases (forEach (loadEntry model) model.manifest).run mem with ⟨e | u, mem'⟩
  · rw [List.append_nil]
  · cases kvFails model kvInit with
    | none => exact List.append_nil _
    | some e => exact List.append_nil _

/-- The entries the loop gets to. -/
lemma exists_mem_sessionRounds_iff (hopen : model.Opened) (t : PaiTensor) (mem : Memory Space) :
    (∃ mem', (t, mem') ∈ sessionRounds malloc model mem) ↔
      SessionLoads malloc model ∧
        ∃ pre post, model.manifest = pre ++ t :: post ∧ ∀ u ∈ pre, ¬ EntryRefused model u := by
  have hrounds : (∃ mem', (t, mem') ∈ rounds (loadEntry model) model.manifest mem) ↔
      ∃ pre post, model.manifest = pre ++ t :: post ∧ ∀ u ∈ pre, ¬ EntryRefused model u :=
    exists_mem_rounds_iff (fun u _ hu => run_loadEntry_refused hu)
      (fun u hu hacc => run_loadEntry_accepted hopen hu hacc) t mem
  unfold sessionRounds SessionLoads
  split
  · next e he =>
    constructor
    · rintro ⟨mem', h⟩
      exact absurd h List.not_mem_nil
    · rintro ⟨⟨⟨plan, hplan⟩, -⟩, -⟩
      cases he.symm.trans hplan
  · next plan hplan =>
    split_ifs with halloc
    · constructor
      · rintro ⟨mem', h⟩
        exact absurd h List.not_mem_nil
      · rintro ⟨⟨-, halloc'⟩, -⟩
        cases halloc.symm.trans halloc'
    · rw [hrounds]
      constructor
      · intro h
        exact ⟨⟨⟨plan, hplan⟩, by simpa using halloc⟩, h⟩
      · intro h
        exact h.2

end Sessions

/-! ## Loading one value -/

section LoadValue

variable {malloc : ℕ → Bool} {model : Model} {valueId : ℕ}

/-- The number of elements of a value of the program. -/
lemma Model.Opened.numel (hopen : model.Opened) {iv : IrValue}
    (h : model.ir.valueAt valueId = some iv) :
    (iv.extents.foldl (· * ·) 1).toNat = elementCount iv.extents := by
  unfold IrProgram.valueAt at h
  split_ifs at h
  · cases h
    rfl
  · have hmem := List.mem_of_getElem? h
    exact toNat_foldl_of_contiguousSize (hopen.ir_accepted.values_wf iv hmem).size_eq

/-- Packed bytes of at most four giga elements do not overflow. -/
lemma storedBytes_lt {n : ℕ} (scheme : QuantScheme) (hle : n ≤ 0x100000000) :
    storedBytes n scheme < 2 ^ 64 := by
  have hvalues : paiQuantValueBytes n scheme ≤ n + 1 := by
    unfold paiQuantValueBytes
    split_ifs
    · omega
    · rw [u64_of_lt (by omega)]
      omega
    · omega
  have hgroups : paiQuantNumGroups n scheme ≤ n := by
    unfold paiQuantNumGroups
    split_ifs
    · omega
    · split
      · next gs hgs => exact groupCount_le (quantGroupSize_ok hgs).1
      · omega
  have hscales : paiQuantScaleBytes n scheme ≤ 4 * n := by
    rw [paiQuantScaleBytes, u64_of_lt (by omega)]
    omega
  rw [storedBytes]
  omega

/-- The quantized path of `load_value_f32`. -/
lemma loadValue_quantized_iff {t : PaiTensor} {quant : IrQuant} {n : ℕ}
    (hbits : quant.bitWidth = 4 ∨ quant.bitWidth = 8) (hn : n ≠ 0) (hle : n ≤ 0x100000000)
    (mem : Memory Space) :
    (∀ acc ∈ Prog.trace (ε := PaiStatus) (do
        paiDequantizeF32 t.offset.toNat (t.offset.toNat + paiQuantValueBytes n (loadScheme quant)) n
          (loadScheme quant) .scratch 0
        pure n) mem, InsideBuffer model n acc) ↔
      t.offset.toNat + storedBytes n (loadScheme quant) ≤ model.weights.length := by
  have htrace : Prog.trace (ε := PaiStatus) (do
      paiDequantizeF32 t.offset.toNat (t.offset.toNat + paiQuantValueBytes n (loadScheme quant)) n
        (loadScheme quant) .scratch 0
      pure n) mem = (paiDequantizeF32 t.offset.toNat
        (t.offset.toNat + paiQuantValueBytes n (loadScheme quant)) n (loadScheme quant) .scratch
        0).trace mem := by
    change Prog.trace (Prog.bind _ _) mem = _
    rw [Prog.trace_bind]
    split <;> exact List.append_nil _
  rw [htrace]
  apply dequant_reads_iff hbits hn (by omega)
  · intro addr len
    exact ⟨fun h => h.2, fun h => ⟨rfl, h⟩⟩
  · intro off len hoff
    exact ⟨rfl, by change 0 + off + len ≤ _; omega⟩

/-- The raw path of `load_value_f32`. -/
lemma loadValue_raw_iff {t : PaiTensor} {n : ℕ} (mem : Memory Space) :
    (∀ acc ∈ Prog.trace (ε := PaiStatus) (do
        let bs ← loadBytes .weights t.offset.toNat (n * 4)
        storeBytes .scratch 0 bs
        pure n) mem, InsideBuffer model n acc) ↔
      t.offset.toNat + n * 4 ≤ model.weights.length := by
  constructor
  · intro hall
    exact (hall ⟨.weights, t.offset.toNat, n * 4, false⟩ List.mem_cons_self).2
  · intro hle
    have hspec : Prog.Spec (ε := PaiStatus) (InsideBuffer model n) (fun _ => True) (fun _ => True) (do
        let bs ← loadBytes .weights t.offset.toNat (n * 4)
        storeBytes .scratch 0 bs
        pure n) := by
      refine Prog.Spec.bind (spec_loadBytes ⟨rfl, hle⟩) fun bs hbs => ?_
      refine Prog.Spec.bind (spec_storeBytes ⟨rfl, ?_⟩) fun _ _ => trivial
      change 0 + bs.length ≤ _
      omega
    exact hspec.trace mem

/-- `load_value_f32` makes only allowed accesses exactly when the entry it takes is harmless. -/
lemma loadValueF32_inside_iff (hopen : model.Opened) :
    (∀ mem iv, model.ir.valueAt valueId = some iv →
        ∀ acc ∈ (loadValueF32 model malloc valueId).trace mem,
          InsideBuffer model (elementCount iv.extents) acc) ↔ LoadFits malloc model valueId := by
  unfold loadValueF32 LoadFits
  cases ht : model.manifest.find? fun t => t.valueId.toNat == valueId with
  | none =>
    constructor
    · intro _ t iv h
      exact absurd h (by simp)
    · intro _ mem iv _ acc hacc
      exact absurd hacc List.not_mem_nil
  | some t =>
    cases hiv : model.ir.valueAt valueId with
    | none =>
      constructor
      · intro _ t iv _ h
        exact absurd h (by simp)
      · intro _ mem iv h
        exact absurd h (by simp)
    | some iv =>
      have hnumel := hopen.numel hiv
      have hmem := List.mem_of_find?_eq_some ht
      have hsize : t.sizeBytes.toNat ≠ 0 := fun hz => hopen.manifest_ne t hmem (UInt64.toNat_inj.mp hz)
      have hlen := hopen.weights_len
      simp only [hnumel]
      by_cases hn : elementCount iv.extents = 0 ∨ 0x100000000 < elementCount iv.extents
      · rw [if_pos hn]
        refine ⟨?_, fun _ mem iv _ acc hacc => absurd hacc List.not_mem_nil⟩
        rintro - _ _ ⟨⟩ ⟨⟩ hle -
        have hzero : elementCount iv.extents = 0 := by omega
        rw [hzero, storedBytes_zero]
        exact ⟨fun _ hsz => absurd hsz (by omega), fun _ _ hsz => absurd hsz.symm hsize⟩
      rw [if_neg hn]
      rw [not_or, Nat.not_lt] at hn
      have hwrap := fun h => add_le_iff_of_le (a := t.offset) (b := t.sizeBytes)
        (w := model.weightsBytes) h
      have hstored := u64_of_lt (storedBytes_lt (loadScheme iv.quant) hn.2)
      rw [storedBytes] at hstored
      by_cases hq : iv.quant.present = 0
      · rw [if_neg (not_not.mpr hq)]
        split_ifs with hbad halloc
        · refine ⟨?_, fun _ mem iv _ acc hacc => absurd hacc List.not_mem_nil⟩
          rintro - _ _ ⟨⟩ ⟨⟩ - -
          refine ⟨fun _ hsz hend => ?_, fun hne => absurd hq hne⟩
          rcases hbad with hbad | hbad
          · exact absurd hsz hbad
          · exact absurd hbad (UInt64.not_lt.mpr hend)
        · refine ⟨?_, fun _ mem iv _ acc hacc => absurd hacc List.not_mem_nil⟩
          rintro - _ _ ⟨⟩ ⟨⟩ - htrue
          cases halloc.symm.trans htrue
        · rw [not_or, not_not, UInt64.not_lt] at hbad
          have hiff := hwrap hbad.2
          rw [← hlen] at hiff
          constructor
          · rintro hall _ _ ⟨⟩ ⟨⟩ - -
            refine ⟨fun _ _ _ => ?_, fun hne => absurd hq hne⟩
            have hin := (loadValue_raw_iff fun _ _ => 0).mp (hall (fun _ _ => 0) iv rfl)
            rw [← hbad.1] at hin
            exact hiff.mp hin
          · rintro hfits mem _ ⟨⟩
            have hlt := (hfits t iv rfl rfl hn.2 (by simpa using halloc)).1 hq hbad.1 hbad.2
            have hin := hiff.mpr hlt
            rw [hbad.1] at hin
            exact (loadValue_raw_iff mem).mpr hin
      · rw [if_pos hq]
        split_ifs with hbits hsz halloc
        · refine ⟨?_, fun _ mem iv _ acc hacc => absurd hacc List.not_mem_nil⟩
          rintro - _ _ ⟨⟩ ⟨⟩ - -
          refine ⟨fun hz => absurd hz hq, fun _ hok => ?_⟩
          tauto
        · refine ⟨?_, fun _ mem iv _ acc hacc => absurd hacc List.not_mem_nil⟩
          rintro - _ _ ⟨⟩ ⟨⟩ - -
          refine ⟨fun hz => absurd hz hq, fun _ _ heq => ?_⟩
          exact absurd (hstored.trans heq) hsz
        · refine ⟨?_, fun _ mem iv _ acc hacc => absurd hacc List.not_mem_nil⟩
          rintro - _ _ ⟨⟩ ⟨⟩ - htrue
          cases halloc.symm.trans htrue
        · have hbits : iv.quant.bitWidth = 4 ∨ iv.quant.bitWidth = 8 := by tauto
          have heq : storedBytes (elementCount iv.extents) (loadScheme iv.quant) = t.sizeBytes.toNat :=
            hstored.symm.trans (not_not.mp hsz)
          constructor
          · rintro hall _ _ ⟨⟩ ⟨⟩ - -
            refine ⟨fun hz => absurd hz hq, fun _ _ _ => ?_⟩
            have hin := (loadValue_quantized_iff hbits hn.1 hn.2 fun _ _ => 0).mp
              (hall (fun _ _ => 0) iv rfl)
            rwa [heq, hlen] at hin
          · rintro hfits mem _ ⟨⟩
            have hin := (hfits t iv rfl rfl hn.2 (by simpa using halloc)).2 hq hbits heq
            rw [← heq, ← hlen] at hin
            exact (loadValue_quantized_iff hbits hn.1 hn.2 mem).mpr hin

end LoadValue

/-! ## Both loaders -/

/-- Every load is inside the weights, every store of `pai_session_init` inside the planned range of the
value of its entry, and every store of `load_value_f32` inside its buffer. -/
def WeightLoadingInside (malloc : ℕ → Bool) (model : Model) : Prop :=
  (∀ mem, ∀ r ∈ sessionRounds malloc model mem, ∀ acc ∈ (loadEntry model r.1).trace r.2,
      InsideTensor model r.1 acc) ∧
    ∀ valueId mem iv, model.ir.valueAt valueId = some iv →
      ∀ acc ∈ (loadValueF32 model malloc valueId).trace mem,
        InsideBuffer model (elementCount iv.extents) acc

/-- The entries before the first refused one are harmless, if the loop of `pai_session_init` is
entered. -/
def ManifestFits (malloc : ℕ → Bool) (model : Model) : Prop :=
  SessionLoads malloc model → ∀ pre t post, model.manifest = pre ++ t :: post →
    (∀ u ∈ pre, ¬ EntryRefused model u) → EntryFits model t

/-- The rounds of `pai_session_init` stay inside exactly when their entries are harmless. -/
lemma sessionRounds_inside_iff {malloc : ℕ → Bool} {model : Model} (hopen : model.Opened) :
    (∀ mem, ∀ r ∈ sessionRounds malloc model mem, ∀ acc ∈ (loadEntry model r.1).trace r.2,
      InsideTensor model r.1 acc) ↔ ManifestFits malloc model := by
  have hmem : ∀ {pre post t}, model.manifest = pre ++ t :: post → t ∈ model.manifest := by
    intro pre post t heq
    rw [heq]
    exact List.mem_append_right pre List.mem_cons_self
  constructor
  · intro hall hloads pre t post heq hpre
    obtain ⟨mem, hround⟩ := (exists_mem_sessionRounds_iff hopen t fun _ _ => 0).mpr
      ⟨hloads, pre, post, heq, hpre⟩
    exact (loadEntry_inside_iff hopen (hmem heq) mem).mp (hall _ _ hround)
  · rintro hfits mem ⟨t, mem'⟩ hround
    obtain ⟨hloads, pre, post, heq, hpre⟩ :=
      (exists_mem_sessionRounds_iff hopen t mem).mp ⟨mem', hround⟩
    exact (loadEntry_inside_iff hopen (hmem heq) mem').mpr (hfits hloads pre t post heq hpre)

/-- For every container that opens, the accesses of `pai_session_init` are those of its rounds, and
both loaders stay inside the weights and inside what they write exactly when the entries they get to
are harmless. -/
theorem weightLoading_inside_iff (malloc malloc' : ℕ → Bool)
    (inflate : List UInt8 → ℕ → Option (List UInt8)) (qsort : Planner → List SortEntry)
    (kvInit : UInt64 → UInt32 → UInt32 → PaiStatus) (blob : List UInt8) (model : Model)
    (h : paiModelOpenBlob malloc inflate qsort blob = .ok model) :
    (∀ mem, (paiSessionInit model malloc' kvInit).trace mem =
      (sessionRounds malloc' model mem).flatMap fun r => (loadEntry model r.1).trace r.2) ∧
    (WeightLoadingInside malloc' model ↔
      ManifestFits malloc' model ∧ ∀ valueId, LoadFits malloc' model valueId) := by
  have hopen := opened_of_openBlob h
  refine ⟨trace_paiSessionInit kvInit, ?_⟩
  unfold WeightLoadingInside
  rw [sessionRounds_inside_iff hopen]
  apply and_congr_right
  intro _
  exact forall_congr' fun valueId => loadValueF32_inside_iff hopen

/-- A container with one weight of four bytes, whose entry starts two bytes before the end of the
64-bit offsets. -/
def wrapContainer : List UInt8 :=
  packContainer ⟨[109], 1, 1, 0, 0, 1, 0⟩
    [⟨[119], 2, .f32, 1, padDims [1], 0xFFFFFFFFFFFFFFFE, 4⟩] [1, 2, 3, 4]
    (irBuild [.addValue .f32 [1] 16 1 0, .addValue .f32 [1] 16 2 0, .addValue .f32 [1] 16 4 0,
      .addOp 1 0 [1, 2] [3], .setInput 1, .setOutput 3]) none

set_option maxRecDepth 20000 in
/-- What the example container is opened to. -/
lemma wrapContainer_opens : ∃ model,
    paiModelOpenBlob (fun _ => true) (fun _ _ => none) sortEntries wrapContainer = .ok model ∧
      decide (model.manifest = [⟨[119], 2, .f32, 1, padDims [1], 0xFFFFFFFFFFFFFFFE, 4⟩] ∧
        (paiGraphMemPlanOffset model.memPlan 2, model.memPlan.regionBytes, model.weightsBytes) =
          (16, 36, 4) ∧
        (model.graph.value? 2).map GraphValue.sizeBytes = some 4 ∧
        (model.ir.valueAt 2).map (fun iv => iv.quant.present) = some 0 ∧
        (paiSchedBuildPersistent model.graph model.memPlan .interactive fun _ => 0).2.isOk = true) = true :=
  exists_of_packContainer rfl rfl (buildable_of_test (by decide +kernel)) sumProgram_accepted
    (by decide +kernel)

/-- The example container opens, to a model whose only entry does not fit. -/
lemma exists_wrapModel : ∃ model,
    paiModelOpenBlob (fun _ => true) (fun _ _ => none) sortEntries wrapContainer = .ok model ∧
      ¬ ManifestFits (fun _ => true) model := by
  obtain ⟨model, hopen, heval⟩ := wrapContainer_opens
  obtain ⟨hmanifest, hplan, hvalue, hir, hsched⟩ := of_decide_eq_true heval
  refine ⟨model, hopen, fun hfits => ?_⟩
  obtain ⟨v, hv, hsize⟩ := Option.map_eq_some_iff.mp hvalue
  obtain ⟨iv, hiv, hpresent⟩ := Option.map_eq_some_iff.mp hir
  have hloads : SessionLoads (fun _ => true) model := by
    refine ⟨?_, rfl⟩
    cases hres : (paiSchedBuildPersistent model.graph model.memPlan .interactive fun _ => 0).2 with
    | ok plan => exact ⟨plan, rfl⟩
    | error e =>
      rw [hres] at hsched
      cases hsched
  have hentry := hfits hloads [] _ [] hmanifest (fun u hu => absurd hu List.not_mem_nil)
  have hraw := (hentry v iv hv hiv).1 hpresent
  simp only [Prod.mk.injEq] at hplan
  obtain ⟨hoff, hregion, hweights⟩ := hplan
  have hwrap := (hraw ⟨by
    change paiGraphMemPlanOffset model.memPlan 2 + 4 ≤ _
    rw [hoff, hregion]
    decide, by
    rw [hweights]
    decide⟩).1
  exact absurd hwrap (by decide)

/-- The equivalence at the example container. -/
theorem weightLoading_inside_iff_wrap : ∃ model,
    paiModelOpenBlob (fun _ => true) (fun _ _ => none) sortEntries wrapContainer = .ok model ∧
      (WeightLoadingInside (fun _ => true) model ↔
        ManifestFits (fun _ => true) model ∧ ∀ valueId, LoadFits (fun _ => true) model valueId) := by
  obtain ⟨model, hopen, -⟩ := exists_wrapModel
  exact ⟨model, hopen, (weightLoading_inside_iff (fun _ => true) (fun _ => true) (fun _ _ => none)
    sortEntries (fun _ _ _ => paiOk) wrapContainer model hopen).2⟩

/-- Loading the weight of the example container reads outside the weights. -/
theorem wrapContainer_reads_outside : ∃ model,
    paiModelOpenBlob (fun _ => true) (fun _ _ => none) sortEntries wrapContainer = .ok model ∧
      ¬ WeightLoadingInside (fun _ => true) model := by
  obtain ⟨model, hopen, hnot⟩ := exists_wrapModel
  refine ⟨model, hopen, fun hinside => hnot ?_⟩
  exact (sessionRounds_inside_iff (opened_of_openBlob hopen)).mp hinside.1

end Prospero
