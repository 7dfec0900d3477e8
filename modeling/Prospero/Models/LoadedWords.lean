import Prospero.Lib.Contents
import Prospero.Models.LoadSafe
import Prospero.Scheduler.Execute

/-!
# The words the loaders write

`pai_session_init` writes the weights of an entry to the planned region, `load_value_f32` to a buffer of
its own, and both dequantize on the way.  `storedWord` is the word an entry stores for each element of its
value, and both loaders write exactly these (`loadValueF32_leaves`, `loadEntry_fills`).

The loop of `pai_session_init` goes on after an entry, and later entries may be written over it.  What it
leaves is the entry's matrix when no later entry reaches its range (`paiSessionInit_holds`).
-/

namespace Prospero

open Buffer ByteString Footprint Reader

/-! ## Words of an entry -/

/-- The signed value of element `i` of the packed values at `q`. -/
def quantAt (mem : Memory Space) (scheme : QuantScheme) (q i : ℕ) : ℤ :=
  if scheme.bitWidth = 4 then
    let byte := leNat (mem.bytes .weights (q + i / 2) 1)
    let nib := if i % 2 = 0 then byte % 16 else byte / 16 % 16
    if 8 ≤ nib then (nib : ℤ) - 16 else nib
  else
    let byte := leNat (mem.bytes .weights (q + i) 1)
    if 128 ≤ byte then (byte : ℤ) - 256 else byte

/-- Element `i` of the packed values at `q`, scaled with the scale of its group of `gs`. -/
def dequantWord (mem : Memory Space) (scheme : QuantScheme) (q scales gs i : ℕ) : UInt32 :=
  (Float32.ofBits (mem.word .weights (scales + 4 * (i / gs))) *
    Float32.ofInt (quantAt mem scheme q i)).toBits

/-- The number of elements of a value, as the loops that multiply its extents get it. -/
def IrValue.numel (value : IrValue) : ℕ := (value.extents.foldl (· * ·) 1).toNat

/-- The word the entry `t` of the value `iv` stores for element `i`. -/
def storedWord (mem : Memory Space) (t : PaiTensor) (iv : IrValue) (i : ℕ) : UInt32 :=
  if iv.quant.present ≠ 0 then
    let scheme := loadScheme iv.quant
    dequantWord mem scheme t.offset.toNat (t.offset.toNat + paiQuantValueBytes iv.numel scheme)
      (if scheme.groupSize = 0 then iv.numel else scheme.groupSize.toNat) i
  else mem.word .weights (t.offset.toNat + 4 * i)

/-! ## Dequantizing -/

section Dequantizing

variable {scheme : QuantScheme} {mem : Memory Space}

lemma quantGroupSize_eq {n gs : ℕ} (h : quantGroupSize scheme n = .ok gs) :
    gs = if scheme.groupSize = 0 then n else scheme.groupSize.toNat := by
  unfold quantGroupSize at h
  generalize (if scheme.groupSize = 0 then n else scheme.groupSize.toNat) = size at h ⊢
  simp only at h
  split_ifs at h
  exact (Except.ok.inj h).symm

lemma leaves_loadQuant (scheme : QuantScheme) (q i : ℕ) :
    (loadQuant scheme q i).Leaves mem fun v mem' => v = quantAt mem scheme q i ∧ mem' = mem := by
  unfold loadQuant quantAt
  by_cases hbits : scheme.bitWidth = 4
  · rw [if_pos hbits, if_pos hbits]
    exact ⟨_, mem, rfl, rfl, rfl⟩
  · rw [if_neg hbits, if_neg hbits]
    exact ⟨_, mem, rfl, rfl, rfl⟩

/-- The packed values and scales are read from the weights. -/
lemma quantAt_congr {mem' : Memory Space} (h : ∀ i, mem' .weights i = mem .weights i) (q i : ℕ) :
    quantAt mem' scheme q i = quantAt mem scheme q i := by
  unfold quantAt
  rw [Memory.bytes_congr fun j _ => h (q + i / 2 + j), Memory.bytes_congr fun j _ => h (q + i + j)]

lemma storedWord_congr {mem' : Memory Space} (h : ∀ i, mem' .weights i = mem .weights i) (t : PaiTensor)
    (iv : IrValue) (i : ℕ) : storedWord mem' t iv i = storedWord mem t iv i := by
  have hword (a : ℕ) : mem'.word .weights a = mem.word .weights a := Memory.word_congr fun j _ => h (a + j)
  unfold storedWord
  split_ifs
  · simp only [dequantWord, hword, quantAt_congr h]
  · exact hword _

/-- An element is in the group its index is divided to. -/
lemma div_of_group {g gs i : ℕ} (hlo : g * gs ≤ i) (hi : i < g * gs + gs) : i / gs = g :=
  Nat.div_eq_of_lt_le hlo (by rwa [Nat.succ_mul])

/-- The groups cover the tensor. -/
lemma le_groupCount_mul {n gs : ℕ} (hgs : gs ≠ 0) : n ≤ groupCount n gs * gs := by
  unfold groupCount
  have hdiv := Nat.div_add_mod n gs
  have hmod := Nat.mod_lt n (Nat.pos_of_ne_zero hgs)
  rw [Nat.mul_comm] at hdiv
  split_ifs with hz
  · rw [Nat.succ_mul]
    omega
  · rw [Nat.add_zero]
    omega

/-- The dequantizer fills its destination with the scaled elements. -/
lemma leaves_paiDequantizeF32 {q scales n gs : ℕ} {dst : Space} {out : ℕ} (hdst : dst ≠ .weights)
    (hgs : quantGroupSize scheme n = .ok gs) :
    (paiDequantizeF32 q scales n scheme dst out).Leaves mem fun _ mem' =>
      Fills dst out n (dequantWord mem scheme q scales gs) mem mem' := by
  have hne := (quantGroupSize_ok hgs).1
  rw [paiDequantizeF32, hgs]
  -- after `g` groups the elements below `g * gs` are there
  have hloop : (forUpTo (groupCount n gs) (dequantGroup q scales n scheme dst out gs)).Leaves mem
      fun _ => Fills dst out (min (groupCount n gs * gs) n) (dequantWord mem scheme q scales gs) mem := by
    refine leaves_forUpTo (fun g => Fills dst out (min (g * gs) n) (dequantWord mem scheme q scales gs) mem)
      ?_ ?_
    · rw [Nat.zero_mul, Nat.zero_min]
      exact fills_zero
    · intro g mem' hg hfill
      have hstart := group_start_lt hne hg
      refine Prog.Leaves.bind (leaves_loadBytes (Q := fun bs s => mem' = s ∧
        UInt32.ofNat (leNat bs) = mem.word .weights (scales + 4 * g)) ⟨rfl, ?_⟩) ?_
      · exact hfill.word_of_ne (Ne.symm hdst) _
      rintro bs _ ⟨rfl, hscale⟩
      have hend : g * gs + (min (g * gs + gs) n - g * gs) = min ((g + 1) * gs) n := by
        rw [Nat.succ_mul]
        omega
      change (foldFor (g * gs) (min (g * gs + gs) n - g * gs) () fun _ i => do
        let qv ← loadQuant scheme q i
        storeBytes dst (out + 4 * i)
          (leBytes 4 (Float32.ofBits (UInt32.ofNat (leNat bs)) * Float32.ofInt qv).toBits.toNat)).Leaves
            mem' _
      rw [← hend]
      refine leaves_foldFor (fun i _ => Fills dst out i (dequantWord mem scheme q scales gs) mem) ?_ ?_
      · rwa [min_eq_left hstart.le] at hfill
      · intro i _ s hlo hi hs
        refine Prog.Leaves.bind (leaves_loadQuant scheme q i) ?_
        rintro _ _ ⟨rfl, rfl⟩
        refine leaves_storeBytes (hs.store ?_)
        rw [dequantWord, div_of_group hlo (by omega), hscale,
          quantAt_congr fun j => hs.outside .weights j (Or.inl (Ne.symm hdst))]
  rwa [min_eq_right (le_groupCount_mul hne)] at hloop

end Dequantizing

/-! ## `load_value_f32` -/

/-- The checks of `load_value_f32` pass, for the entry and the value it finds. -/
structure LoadAccepted (malloc : ℕ → Bool) (model : Model) (valueId : ℕ) (t : PaiTensor) (iv : IrValue) :
    Prop where
  /-- The first entry of the value. -/
  entry : model.manifest.find? (fun t => t.valueId.toNat == valueId) = some t
  /-- The value. -/
  value : model.ir.valueAt valueId = some iv
  /-- It has elements. -/
  numel_ne : iv.numel ≠ 0
  /-- They can be counted. -/
  numel_le : iv.numel ≤ 0x100000000
  /-- A quantized entry is as long as its packed values and scales. -/
  quant : iv.quant.present ≠ 0 → (iv.quant.bitWidth = 4 ∨ iv.quant.bitWidth = 8) ∧
    u64 (storedBytes iv.numel (loadScheme iv.quant)) = t.sizeBytes.toNat
  /-- Another entry is as long as its elements, and inside the weights. -/
  raw : iv.quant.present = 0 →
    t.sizeBytes.toNat = iv.numel * 4 ∧ t.offset + t.sizeBytes ≤ model.weightsBytes
  /-- The buffer is allocated. -/
  alloc : malloc (iv.numel * 4) = true

section LoadValue

variable {malloc : ℕ → Bool} {model : Model} {valueId : ℕ} {t : PaiTensor} {iv : IrValue}
  {mem mem' : Memory Space}

/-- An accepted value is loaded into the buffer, and nothing else is written. -/
lemma loadValueF32_leaves (h : LoadAccepted malloc model valueId t iv) :
    (loadValueF32 model malloc valueId).Leaves mem fun n mem' =>
      n = iv.numel ∧ Fills .scratch 0 iv.numel (storedWord mem t iv) mem mem' := by
  unfold loadValueF32
  have hnumel : (iv.extents.foldl (· * ·) 1).toNat = iv.numel := rfl
  rw [h.entry, h.value]
  simp only [hnumel]
  rw [if_neg (not_or.mpr ⟨h.numel_ne, Nat.not_lt.mpr h.numel_le⟩)]
  by_cases hq : iv.quant.present = 0
  · obtain ⟨hsize, hend⟩ := h.raw hq
    rw [if_neg (not_not.mpr hq), if_neg, if_neg]
    · refine Prog.Leaves.bind (leaves_loadBytes (Q := fun bs s => s = mem ∧
        bs = mem.bytes .weights t.offset.toNat (4 * iv.numel)) ⟨rfl, by rw [Nat.mul_comm]⟩) ?_
      intro bs s hs
      rw [hs.1, hs.2]
      refine Prog.Leaves.bind (leaves_storeBytes (Q := fun _ s =>
        Fills .scratch 0 iv.numel (storedWord mem t iv) mem s) ?_) fun _ s hs => ⟨_, s, rfl, rfl, hs⟩
      have hwords : storedWord mem t iv = fun i => mem.word .weights (t.offset.toNat + 4 * i) := by
        funext i
        rw [storedWord, if_neg (not_not.mpr hq)]
      rw [hwords]
      exact fills_copy
    · rw [h.alloc]
      exact Bool.noConfusion
    · exact not_or.mpr ⟨not_not.mpr hsize, UInt64.not_lt.mpr hend⟩
  · obtain ⟨hbits, hsize⟩ := h.quant hq
    rw [storedBytes] at hsize
    rw [if_pos hq, if_neg (by tauto), if_neg (not_not.mpr hsize), if_neg]
    · obtain ⟨gs, hgs⟩ := exists_groupSize hbits h.numel_ne
      have hload : (paiDequantizeF32 t.offset.toNat (t.offset.toNat + paiQuantValueBytes iv.numel
          (loadScheme iv.quant)) iv.numel (loadScheme iv.quant) .scratch 0).Leaves mem _ :=
        leaves_paiDequantizeF32 (by decide) hgs
      refine Prog.Leaves.bind hload fun _ s hs => ⟨_, s, rfl, rfl, ?_⟩
      have hwords : storedWord mem t iv = dequantWord mem (loadScheme iv.quant) t.offset.toNat
          (t.offset.toNat + paiQuantValueBytes iv.numel (loadScheme iv.quant)) gs := by
        funext i
        rw [storedWord, if_pos hq, quantGroupSize_eq hgs]
      rwa [hwords]
    · rw [h.alloc]
      exact Bool.noConfusion

/-- A load that succeeds has passed its checks. -/
lemma LoadAccepted.of_run {n : ℕ}
    (h : (loadValueF32 model malloc valueId).run mem = (.ok n, mem')) :
    ∃ t iv, LoadAccepted malloc model valueId t iv := by
  unfold loadValueF32 at h
  split at h
  · cases h
  · next t ht =>
    split at h
    · cases h
    · next iv hiv =>
      simp only at h
      change (if iv.numel = 0 ∨ 0x100000000 < iv.numel then _ else _ : Kernel ℕ).run mem = _ at h
      split_ifs at h with hn hq hbits hsize halloc hbad halloc
      · cases h
      · cases h
      · cases h
      · cases h
      · rw [not_or, Nat.not_lt] at hn
        exact ⟨t, iv, ht, hiv, hn.1, hn.2, fun _ => ⟨by tauto, not_not.mp hsize⟩,
          fun hz => absurd hz hq, Bool.not_eq_false _ ▸ halloc⟩
      · cases h
      · cases h
      · rw [not_or, Nat.not_lt] at hn
        rw [not_or, not_not, UInt64.not_lt] at hbad
        exact ⟨t, iv, ht, hiv, hn.1, hn.2, fun hne => absurd hne hq, fun _ => hbad,
          Bool.not_eq_false _ ▸ halloc⟩

end LoadValue

/-! ## The rounds of `pai_session_init` -/

/-- The bytes a round stores for the entry. -/
def entrySpan (model : Model) (t : PaiTensor) : ℕ :=
  match model.graph.value? t.valueId.toNat with
  | none => 0
  | some v =>
    match model.ir.valueAt t.valueId.toNat with
    | none => t.sizeBytes.toNat
    | some iv => if iv.quant.present ≠ 0 then 4 * (v.sizeBytes.toNat / 4) else t.sizeBytes.toNat

section Rounds

variable {model : Model} {t : PaiTensor} {mem mem' : Memory Space}

/-- The program has the value of every id the graph has, with the same type, shape and size. -/
lemma Model.Opened.valueAt_desc (hopen : model.Opened) {id : ℕ} {v : GraphValue}
    (hv : model.graph.value? id = some v) :
    ∃ iv, model.ir.valueAt id = some iv ∧ iv.WellFormed ∧ v.desc = iv.desc := by
  obtain ⟨h1, h2, -⟩ := Graph.value?_eq_some hv
  have hlen := hopen.values.length_eq
  have hlt : id - 1 < model.ir.values.length := by omega
  have hget := List.getElem?_eq_getElem hlt
  refine ⟨model.ir.values[id - 1], ?_, hopen.ir_accepted.values_wf _ (List.getElem_mem hlt), ?_⟩
  · rw [IrProgram.valueAt, if_neg (by omega), hget]
  · have hdesc := congrArg (fun l => l[id - 1]?) hopen.values
    simp only [List.getElem?_map] at hdesc
    rw [Graph.value?, if_neg (by omega)] at hv
    rw [hv, hget] at hdesc
    exact Option.some.inj hdesc

/-- What a round that returns has done. -/
lemma loadEntry_cases (hopen : model.Opened) (h : (loadEntry model t).run mem = (.ok (), mem')) :
    model.graph.value? t.valueId.toNat = none ∧ mem' = mem ∨
      ∃ v iv, model.graph.value? t.valueId.toNat = some v ∧
        model.ir.valueAt t.valueId.toNat = some iv ∧
        (iv.quant.present ≠ 0 ∧ QuantAccepted model t v iv.quant ∧
            (paiDequantizeF32 t.offset.toNat
              (t.offset.toNat + paiQuantValueBytes (v.sizeBytes.toNat / 4) (loadScheme iv.quant))
              (v.sizeBytes.toNat / 4) (loadScheme iv.quant) .region (entryOffset model t).toNat).run mem =
                (.ok (), mem') ∨
          iv.quant.present = 0 ∧ mem' = mem.put .region (entryOffset model t).toNat
            (mem.bytes .weights t.offset.toNat t.sizeBytes.toNat)) := by
  unfold loadEntry at h
  cases hv : model.graph.value? t.valueId.toNat with
  | none =>
    rw [hv] at h
    cases h
    exact Or.inl ⟨rfl, rfl⟩
  | some v =>
    rw [hv] at h
    obtain ⟨iv, hiv, -, -⟩ := hopen.valueAt_desc hv
    rw [hiv] at h
    simp only at h
    refine Or.inr ⟨v, iv, rfl, hiv, ?_⟩
    by_cases hq : iv.quant.present = 0
    · rw [if_neg (not_not.mpr hq)] at h
      by_cases hraw : RawAccepted model t
      · rw [loadRaw_accepted hraw] at h
        cases h
        exact Or.inr ⟨hq, rfl⟩
      · obtain ⟨e, hfail⟩ := loadRaw_refused hraw
        rw [hfail] at h
        cases h
    · rw [if_pos hq] at h
      by_cases hquant : QuantAccepted model t v iv.quant
      · rw [loadQuantized_accepted hquant] at h
        exact Or.inl ⟨hq, hquant, h⟩
      · obtain ⟨e, hfail⟩ := loadQuantized_refused hquant
        rw [hfail] at h
        cases h

/-- A round writes only its own range of the region. -/
lemma loadEntry_frame (hopen : model.Opened) (hmem : t ∈ model.manifest)
    (h : (loadEntry model t).run mem = (.ok (), mem')) {space : Space} {i : ℕ}
    (hout : space ≠ .region ∨ i < (entryOffset model t).toNat ∨
      (entryOffset model t).toNat + entrySpan model t ≤ i) : mem' space i = mem space i := by
  unfold entrySpan at hout
  rcases loadEntry_cases hopen h with ⟨-, rfl⟩ | ⟨v, iv, hv, hiv, hcase⟩
  · rfl
  · rw [hv, hiv] at hout
    simp only at hout
    rcases hcase with ⟨hq, hquant, hrun⟩ | ⟨hq, rfl⟩
    · rw [if_pos hq] at hout
      obtain ⟨-, gs, hgs⟩ := hquant.groupSize hopen hmem
      have hfill := (leaves_paiDequantizeF32 (by decide) hgs).of_run hrun
      exact hfill.outside space i hout
    · rw [if_neg (not_not.mpr hq)] at hout
      exact mem.put_apart (by rwa [Memory.length_bytes])

/-- A round does not change the weights. -/
lemma loadEntry_weights (hopen : model.Opened) (hmem : t ∈ model.manifest)
    (h : (loadEntry model t).run mem = (.ok (), mem')) (i : ℕ) : mem' .weights i = mem .weights i :=
  loadEntry_frame hopen hmem h (Or.inl (by decide))

/-- A round whose entry `load_value_f32` accepts leaves the words of the entry. -/
lemma loadEntry_fills (hopen : model.Opened) {malloc : ℕ → Bool} {iv : IrValue} {v : GraphValue}
    (hload : LoadAccepted malloc model t.valueId.toNat t iv)
    (hv : model.graph.value? t.valueId.toNat = some v) (hf32 : v.dtype = .f32)
    (h : (loadEntry model t).run mem = (.ok (), mem')) :
    Fills .region (entryOffset model t).toNat iv.numel (storedWord mem t iv) mem mem' := by
  have hwf := hopen.built.values_wf v (Graph.value?_eq_some hv).2.2
  obtain ⟨iv', hiv', -, hdesc⟩ := hopen.valueAt_desc hv
  obtain rfl : iv = iv' := Option.some.inj (hload.value.symm.trans hiv')
  have hshape : v.shape = iv.extents := congrArg (fun d => d.2.1) hdesc
  -- the executor counts the bytes of the value, the loader its elements
  have hcount : v.sizeBytes.toNat / 4 = iv.numel := by
    have hsize := hwf.size_f32 hf32
    have hnumel : iv.numel = elementCount iv.extents := hopen.numel hload.value
    rw [hshape] at hsize
    omega
  rcases loadEntry_cases hopen h with ⟨hnone, -⟩ | ⟨w, jv, hw, hjv, hcase⟩
  · cases hnone.symm.trans hv
  · obtain rfl : v = w := Option.some.inj (hv.symm.trans hw)
    obtain rfl : iv = jv := Option.some.inj (hload.value.symm.trans hjv)
    rcases hcase with ⟨hq, -, hrun⟩ | ⟨hq, rfl⟩
    · rw [hcount] at hrun
      obtain ⟨gs, hgs⟩ := exists_groupSize (hload.quant hq).1 hload.numel_ne
      have hfill := (leaves_paiDequantizeF32 (by decide) hgs).of_run hrun
      have hwords : storedWord mem t iv = dequantWord mem (loadScheme iv.quant) t.offset.toNat
          (t.offset.toNat + paiQuantValueBytes iv.numel (loadScheme iv.quant)) gs := by
        funext i
        rw [storedWord, if_pos hq, quantGroupSize_eq hgs]
      rwa [hwords]
    · have hwords : storedWord mem t iv = fun i => mem.word .weights (t.offset.toNat + 4 * i) := by
        funext i
        rw [storedWord, if_neg (not_not.mpr hq)]
      rw [hwords, (hload.raw hq).1, Nat.mul_comm]
      exact fills_copy

end Rounds

/-! ## Sessions -/

/-- The entries behind the first one of a value. -/
def laterEntries (model : Model) (valueId : ℕ) : List PaiTensor :=
  (model.manifest.dropWhile fun t => !(t.valueId.toNat == valueId)).tail

/-- No entry behind the first one of the value `v` reaches its planned range. -/
def LaterApart (model : Model) (valueId : ℕ) (v : GraphValue) : Prop :=
  ∀ u ∈ laterEntries model valueId,
    (entryOffset model u).toNat + entrySpan model u ≤
        (paiGraphMemPlanOffset model.memPlan valueId).toNat ∨
      (paiGraphMemPlanOffset model.memPlan valueId).toNat + v.sizeBytes.toNat ≤
        (entryOffset model u).toNat

section Sessions

variable {malloc : ℕ → Bool} {model : Model} {kvInit : UInt64 → UInt32 → UInt32 → PaiStatus}
  {mem mem' : Memory Space} {session : Session}

/-- A session that is made has gone through the whole manifest. -/
lemma paiSessionInit_run (h : (paiSessionInit model malloc kvInit).run mem = (.ok session, mem')) :
    (forEach (loadEntry model) model.manifest).run mem = (.ok (), mem') ∧
      session.graph = (paiSchedBuildPersistent model.graph model.memPlan .interactive fun _ => 0).1 := by
  unfold paiSessionInit at h
  generalize paiSchedBuildPersistent model.graph model.memPlan .interactive (fun _ => 0) = built at h ⊢
  rcases built with ⟨graph, e | plan⟩
  · cases h
  simp only at h
  split_ifs at h
  · cases h
  change Prog.run (Prog.bind _ _) mem = _ at h
  rw [Prog.run_bind] at h
  rcases hloop : (forEach (loadEntry model) model.manifest).run mem with ⟨e | u, mem₁⟩
  · rw [hloop] at h
    cases h
  · rw [hloop] at h
    simp only at h
    cases hkv : kvFails model kvInit with
    | none =>
      rw [hkv] at h
      cases h
      exact ⟨rfl, rfl⟩
    | some e =>
      rw [hkv] at h
      cases h

/-- Making a session does not change the weights. -/
lemma paiSessionInit_weights (hopen : model.Opened)
    (h : (paiSessionInit model malloc kvInit).run mem = (.ok session, mem')) (i : ℕ) :
    mem' .weights i = mem .weights i := by
  refine run_forEach_keeps (fun s => s .weights i = mem .weights i) ?_ rfl (paiSessionInit_run h).1
  intro t ht s s' hs hrun
  exact (loadEntry_weights hopen ht hrun i).trans hs

/-- The manifest is cut at the first entry of a value. -/
lemma exists_manifest_split {valueId : ℕ} {t : PaiTensor}
    (h : model.manifest.find? (fun t => t.valueId.toNat == valueId) = some t) :
    ∃ pre, model.manifest = pre ++ t :: laterEntries model valueId ∧ t.valueId.toNat = valueId := by
  unfold laterEntries
  generalize model.manifest = manifest at h ⊢
  induction manifest with
  | nil => cases h
  | cons u us ih =>
    by_cases hu : u.valueId.toNat = valueId
    · rw [List.find?_cons_of_pos (by simpa using hu)] at h
      cases h
      rw [List.dropWhile_cons_of_neg (by simp [hu])]
      exact ⟨[], rfl, hu⟩
    · rw [List.find?_cons_of_neg (by simpa using hu)] at h
      obtain ⟨pre, heq, hid⟩ := ih h
      rw [List.dropWhile_cons_of_pos (by simpa using hu)]
      exact ⟨u :: pre, congrArg (u :: ·) heq, hid⟩

/-- The region a session starts with holds, in the planned range of a value, the matrix that
`load_value_f32` loads, when no later entry reaches it. -/
theorem paiSessionInit_holds (hopen : model.Opened) {malloc' : ℕ → Bool} {valueId : ℕ} {t : PaiTensor}
    {iv : IrValue} {v : GraphValue} (hload : LoadAccepted malloc' model valueId t iv)
    (hv : model.graph.value? valueId = some v) (hf32 : v.dtype = .f32) (hlater : LaterApart model valueId v)
    (h : (paiSessionInit model malloc kvInit).run mem = (.ok session, mem')) {i : ℕ} (hi : i < iv.numel) :
    mem'.word .region (valuePtr model.memPlan valueId + 4 * i) = storedWord mem' t iv i := by
  obtain ⟨pre, hmanifest, hid⟩ := exists_manifest_split hload.entry
  have hall : ∀ u ∈ t :: laterEntries model valueId, u ∈ model.manifest := by
    intro u hu
    rw [hmanifest]
    exact List.mem_append_right pre hu
  subst hid
  obtain ⟨hrun, -⟩ := paiSessionInit_run h
  rw [hmanifest] at hrun
  obtain ⟨mem₁, mem₂, -, hround, hpost⟩ := run_forEach_append hrun
  have hfill := loadEntry_fills hopen hload hv hf32 hround
  have hbytes : v.sizeBytes.toNat = 4 * iv.numel := by
    obtain ⟨iv', hiv', -, hdesc⟩ := hopen.valueAt_desc hv
    obtain rfl : iv = iv' := Option.some.inj (hload.value.symm.trans hiv')
    have hsize := (hopen.built.values_wf v (Graph.value?_eq_some hv).2.2).size_f32 hf32
    rw [show v.shape = iv.extents from congrArg (fun d => d.2.1) hdesc] at hsize
    exact hsize.trans (congrArg (4 * ·) (hopen.numel hload.value).symm)
  -- the rounds behind the entry leave its words and the weights alone
  obtain ⟨hword, hweights⟩ := run_forEach_keeps
    (fun s => s.word .region ((entryOffset model t).toNat + 4 * i) = storedWord mem₁ t iv i ∧
      ∀ j, s .weights j = mem₁ .weights j) (fun u hu s s' hs hrun => by
        have hmem := hall u (List.mem_cons_of_mem t hu)
        refine ⟨?_, fun j => (loadEntry_weights hopen hmem hrun j).trans (hs.2 j)⟩
        rw [← hs.1]
        apply Memory.word_congr
        intro j hj
        apply loadEntry_frame hopen hmem hrun
        have hapart := hlater u hu
        change _ ≤ (entryOffset model t).toNat ∨ (entryOffset model t).toNat + _ ≤ _ at hapart
        exact Or.inr (by omega))
    ⟨hfill.inside i hi, fun j => hfill.outside .weights j (Or.inl (by decide))⟩ hpost
  rw [storedWord_congr hweights]
  exact hword

end Sessions

end Prospero
