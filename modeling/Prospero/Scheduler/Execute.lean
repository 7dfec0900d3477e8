import Mathlib.Data.List.Forall2
import Prospero.Scheduler.Scheduler

/-!
# The executor stays inside its operands

A step of the executor refuses its op before any access, or runs to its end and touches only the
planned ranges of the op: loads in the ranges of its inputs and outputs, stores in those of its
outputs (`Confined`).  This holds of every kind but `CONVERT`, whose element counts nothing compares;
for it the condition is `ConvertFits`.
-/

namespace Prospero

open Footprint

/-! ## Planned ranges -/

/-- The access lies in the planned range of one of the listed values. -/
def InRangeOf (graph : Graph) (memPlan : GraphMemPlan) (ids : List ℕ) (acc : Access Space) : Prop :=
  acc.space = .region ∧ ∃ id ∈ ids, valuePtr memPlan id ≤ acc.addr ∧
    acc.addr + acc.len ≤ valuePtr memPlan id + (graph.valueAt id).sizeBytes.toNat

/-- A load from the inputs or outputs of the op, or a store to its outputs. -/
def InsideOp (graph : Graph) (memPlan : GraphMemPlan) (op : GraphOp) (acc : Access Space) : Prop :=
  InRangeOf graph memPlan (if acc.isStore then op.outputs else op.inputs ++ op.outputs) acc

/-- The step refuses its op before any access, or runs to its end inside the ranges of the op. -/
def Confined (graph : Graph) (memPlan : GraphMemPlan) (op : GraphOp) (m : Kernel Unit) : Prop :=
  (∃ e, m = .fail e) ∨ m.Spec (InsideOp graph memPlan op) (fun _ => False) fun _ => True

/-- A `CONVERT` that is run does not have more input than output elements, unless both share one
range. -/
def ConvertFits (graph : Graph) (memPlan : GraphMemPlan) (op : GraphOp) : Prop :=
  op.kind = .convert → op.inputs.length = 1 → op.outputs.length = 1 →
    (graph.valueAt (op.inputs.getD 0 0)).dtype = .f32 →
    (graph.valueAt (op.outputs.getD 0 0)).dtype = .f32 →
    elementCount (graph.valueAt (op.inputs.getD 0 0)).shape ≤
        elementCount (graph.valueAt (op.outputs.getD 0 0)).shape ∨
      paiGraphMemPlanOffset memPlan (op.inputs.getD 0 0) =
        paiGraphMemPlanOffset memPlan (op.outputs.getD 0 0)

/-! ## Element counts -/

namespace GraphValue.WellFormed

variable {value : GraphValue}

/-- The size of an `f32` value. -/
lemma size_f32 (h : value.WellFormed) (hf32 : value.dtype = .f32) :
    value.sizeBytes.toNat = 4 * elementCount value.shape := by
  obtain ⟨-, -, -, hsize, -⟩ := paiTensorContiguousSize_spec h.size_eq
  rw [hsize, hf32, Nat.mul_comm]
  rfl

/-- `value_nelem` does not overflow on a value of the graph. -/
lemma nelem (h : value.WellFormed) : (valueNelem value).toNat = elementCount value.shape := by
  rw [valueNelem]
  exact toNat_foldl_of_contiguousSize h.size_eq

/-- The extents of a value are positive. -/
lemma dim_ne_zero (h : value.WellFormed) {i : ℕ} (hi : i < value.rank) : (value.dim i).toNat ≠ 0 := by
  obtain ⟨-, -, hpos, -, -⟩ := paiTensorContiguousSize_spec h.size_eq
  have hmem : value.dim i ∈ value.shape := by
    rw [GraphValue.dim, List.getD_eq_getElem _ _ hi]
    exact List.getElem_mem hi
  exact fun hz => hpos _ hmem (UInt64.toNat_inj.mp hz)

end GraphValue.WellFormed

lemma GraphValue.count_rank_one {value : GraphValue} (h : value.rank = 1) :
    elementCount value.shape = (value.dim 0).toNat := by
  obtain ⟨x, hx⟩ := List.length_eq_one_iff.mp h
  simp [elementCount, GraphValue.dim, hx]

lemma GraphValue.count_rank_two {value : GraphValue} (h : value.rank = 2) :
    elementCount value.shape = (value.dim 0).toNat * (value.dim 1).toNat := by
  obtain ⟨x, y, hxy⟩ := List.length_eq_two.mp h
  simp [elementCount, GraphValue.dim, hxy]

lemma GraphValue.count_rank_three {value : GraphValue} (h : value.rank = 3) :
    elementCount value.shape =
      (value.dim 0).toNat * (value.dim 1).toNat * (value.dim 2).toNat := by
  obtain ⟨x, y, z, hxyz⟩ := List.length_eq_three.mp h
  simp [elementCount, GraphValue.dim, hxyz, Nat.mul_assoc]

/-! ## Operands -/

/-- An `f32` operand of an op whose range the op may access. -/
structure F32Operand (graph : Graph) (memPlan : GraphMemPlan) (op : GraphOp) (id : ℕ)
    (isStore : Bool) : Prop where
  /-- The value is well formed. -/
  wf : (graph.valueAt id).WellFormed
  /-- The value is `f32`. -/
  f32 : (graph.valueAt id).dtype = .f32
  /-- Its range is one the op may access. -/
  covers : Covers (InsideOp graph memPlan op) (valuePtr memPlan id)
    (4 * elementCount (graph.valueAt id).shape) isStore

lemma F32Operand.covers_of_le {graph : Graph} {memPlan : GraphMemPlan} {op : GraphOp} {id : ℕ}
    {isStore : Bool} (h : F32Operand graph memPlan op id isStore) {n : ℕ}
    (hn : n ≤ elementCount (graph.valueAt id).shape) :
    Covers (InsideOp graph memPlan op) (valuePtr memPlan id) (4 * n) isStore :=
  h.covers.mono (by omega)

section Operands

variable {graph : Graph} {memPlan : GraphMemPlan} {op : GraphOp}

/-- The listed value is well formed. -/
lemma Graph.Built.valueAt_wf (h : graph.Built) {id : ℕ} (h1 : 1 ≤ id)
    (h2 : id ≤ graph.values.length) : (graph.valueAt id).WellFormed := by
  obtain ⟨value, hvalue⟩ := Graph.value?_of_le h1 h2
  rw [Graph.valueAt, hvalue]
  exact h.values_wf value (Graph.value?_eq_some hvalue).2.2

/-- The operands of the op are all `f32`. -/
def AllF32 (graph : Graph) (op : GraphOp) : Prop :=
  ∀ id ∈ op.inputs ++ op.outputs, (graph.valueAt id).dtype = .f32

/-- A value the op may access in the given way. -/
lemma f32Operand_of_mem (hbuilt : graph.Built) (hop : op.WellFormed graph.values.length)
    (hf32 : AllF32 graph op) {id : ℕ} {isStore : Bool}
    (hmem : id ∈ if isStore then op.outputs else op.inputs ++ op.outputs) :
    F32Operand graph memPlan op id isStore := by
  have hall : id ∈ op.inputs ++ op.outputs := by
    cases isStore with
    | false => exact hmem
    | true => exact List.mem_append_right _ hmem
  have hexist : 1 ≤ id ∧ id ≤ graph.values.length := by
    rcases List.mem_append.mp hall with hin | hout
    · exact hop.inputs_exist id hin
    · exact hop.outputs_exist id hout
  have hwf := hbuilt.valueAt_wf hexist.1 hexist.2
  refine ⟨hwf, hf32 id hall, ?_⟩
  intro off len hle
  refine ⟨rfl, id, hmem, by simp, ?_⟩
  have hsize := hwf.size_f32 (hf32 id hall)
  change valuePtr memPlan id + off + len ≤ _
  omega

lemma getD_mem {ids : List ℕ} {j : ℕ} (hj : j < ids.length) : ids.getD j 0 ∈ ids := by
  rw [List.getD_eq_getElem _ _ hj]
  exact List.getElem_mem hj

variable (memPlan) (hbuilt : graph.Built) (hop : op.WellFormed graph.values.length)
  (hf32 : AllF32 graph op)

include hbuilt hop hf32

/-- Input `j` may be loaded. -/
lemma input_operand {j : ℕ} (hj : j < op.inputs.length) :
    F32Operand graph memPlan op (op.inputs.getD j 0) false :=
  f32Operand_of_mem hbuilt hop hf32 (List.mem_append_left _ (getD_mem hj))

/-- Output `j` may be loaded and stored. -/
lemma output_operand {j : ℕ} (hj : j < op.outputs.length) (isStore : Bool) :
    F32Operand graph memPlan op (op.outputs.getD j 0) isStore := by
  apply f32Operand_of_mem hbuilt hop hf32
  cases isStore with
  | false => exact List.mem_append_right _ (getD_mem hj)
  | true => exact getD_mem hj

/-! ## The kinds -/

variable {memPlan}

/-- Kernels over one input and an output of the same length. -/
lemma confined_unary {kernel : Kernel Unit} {e : PaiStatus}
    (hkernel : ∀ {n : ℕ}, n ≠ 0 →
      n = (valueNelem (graph.valueAt (op.inputs.getD 0 0))).toNat →
      Covers (InsideOp graph memPlan op) (valuePtr memPlan (op.inputs.getD 0 0)) (4 * n) false →
      Covers (InsideOp graph memPlan op) (valuePtr memPlan (op.outputs.getD 0 0)) (4 * n) true →
      Covers (InsideOp graph memPlan op) (valuePtr memPlan (op.outputs.getD 0 0)) (4 * n) false →
      kernel.Spec (InsideOp graph memPlan op) (fun _ => False) fun _ => True) :
    Confined graph memPlan op
      (if op.inputs.length ≠ 1 ∨ op.outputs.length ≠ 1 ∨
          valueNelem (graph.valueAt (op.outputs.getD 0 0)) ≠
            valueNelem (graph.valueAt (op.inputs.getD 0 0)) then .fail e
       else kernel) := by
  split_ifs with hbad
  · exact Or.inl ⟨e, rfl⟩
  · simp only [not_or, not_not] at hbad
    obtain ⟨hni, hno, hcount⟩ := hbad
    have ha := input_operand memPlan hbuilt hop hf32 (j := 0) (by omega)
    have hc := output_operand memPlan hbuilt hop hf32 (j := 0) (by omega)
    have hna := ha.wf.nelem
    have hnc := (hc true).wf.nelem
    rw [hcount] at hnc
    refine Or.inr (hkernel (n := elementCount (graph.valueAt (op.inputs.getD 0 0)).shape) ?_ hna.symm
      ha.covers ((hc true).covers_of_le (by omega)) ((hc false).covers_of_le (by omega)))
    obtain ⟨-, -, -, hsize, hne⟩ := paiTensorContiguousSize_spec ha.wf.size_eq
    intro hz
    rw [hz, Nat.zero_mul] at hsize
    exact hne (UInt64.toNat_inj.mp hsize)

/-- Kernels over two inputs and an output of the same length. -/
lemma confined_binary (f : Float32 → Float32 → Float32) :
    Confined graph memPlan op
      (if op.inputs.length ≠ 2 ∨ op.outputs.length ≠ 1 ∨
          valueNelem (graph.valueAt (op.inputs.getD 0 0)) ≠
            valueNelem (graph.valueAt (op.inputs.getD 1 0)) ∨
          valueNelem (graph.valueAt (op.outputs.getD 0 0)) ≠
            valueNelem (graph.valueAt (op.inputs.getD 0 0)) then .fail paiErrMismatch
       else zipKernel f (valuePtr memPlan (op.inputs.getD 0 0)) (valuePtr memPlan (op.inputs.getD 1 0))
        (valuePtr memPlan (op.outputs.getD 0 0))
        (valueNelem (graph.valueAt (op.inputs.getD 0 0))).toNat) := by
  split_ifs with hbad
  · exact Or.inl ⟨_, rfl⟩
  · simp only [not_or, not_not] at hbad
    obtain ⟨hni, hno, hab, hca⟩ := hbad
    have ha := input_operand memPlan hbuilt hop hf32 (j := 0) (by omega)
    have hb := input_operand memPlan hbuilt hop hf32 (j := 1) (by omega)
    have hc := output_operand memPlan hbuilt hop hf32 (j := 0) (by omega) true
    have hna := ha.wf.nelem
    have hnb := hb.wf.nelem
    have hnc := hc.wf.nelem
    rw [← hab] at hnb
    rw [hca] at hnc
    exact Or.inr (spec_zipKernel (ha.covers_of_le (by omega)) (hb.covers_of_le (by omega))
      (hc.covers_of_le (by omega)))

end Operands

/-- The sizes of a product agree with the element counts of its operands. -/
lemma gemmDims_spec {a b c : GraphValue} {isGemv : Bool} {m n k : ℕ} (ha : a.WellFormed)
    (hb : b.WellFormed) (h : gemmDims a b c isGemv = some (m, n, k)) :
    m ≠ 0 ∧ n ≠ 0 ∧ k ≠ 0 ∧ elementCount a.shape = m * k ∧ elementCount b.shape = k * n ∧
      elementCount c.shape = m * n := by
  unfold gemmDims at h
  split_ifs at h with hgemv hrank hdims harank hrank hcrank hdims hcrank2 hdims hrank hdims <;>
    simp only [not_or, not_not] at * <;> cases h
  · obtain ⟨hra, hrb, hrc⟩ := hrank
    refine ⟨ha.dim_ne_zero (by omega), by omega, ha.dim_ne_zero (by omega), ?_, ?_, ?_⟩
    · exact GraphValue.count_rank_two hra
    · rw [GraphValue.count_rank_one hrb, hdims.1, Nat.mul_one]
    · rw [GraphValue.count_rank_one hrc, hdims.2, Nat.mul_one]
  · refine ⟨by omega, hb.dim_ne_zero (by omega), ha.dim_ne_zero (by omega), ?_, ?_, ?_⟩
    · rw [GraphValue.count_rank_one harank, Nat.one_mul]
    · rw [GraphValue.count_rank_two hrank.1, hrank.2]
    · rw [GraphValue.count_rank_one hcrank, hdims, Nat.one_mul]
  · refine ⟨by omega, hb.dim_ne_zero (by omega), ha.dim_ne_zero (by omega), ?_, ?_, ?_⟩
    · rw [GraphValue.count_rank_one harank, Nat.one_mul]
    · rw [GraphValue.count_rank_two hrank.1, hrank.2]
    · rw [GraphValue.count_rank_two hcrank2, hdims.1, hdims.2]
      rfl
  · obtain ⟨hbk, hrc, hcm, hcn⟩ := hdims
    refine ⟨ha.dim_ne_zero (by omega), hb.dim_ne_zero (by omega), ha.dim_ne_zero (by omega), ?_, ?_,
      ?_⟩
    · exact GraphValue.count_rank_two hrank.1
    · rw [GraphValue.count_rank_two hrank.2, hbk]
    · rw [GraphValue.count_rank_two hrc, hcm, hcn]

section Kinds

variable {malloc : ℕ → Bool} {graph : Graph} {memPlan : GraphMemPlan} {op : GraphOp}

variable (hbuilt : graph.Built) (hop : op.WellFormed graph.values.length)
  (hf32 : AllF32 graph op)

include hbuilt hop hf32

/-- `GEMM`, `MATMUL` and `GEMV`. -/
lemma confined_gemm (isGemv : Bool) :
    Confined graph memPlan op
      (if op.inputs.length ≠ 2 ∨ op.outputs.length ≠ 1 then .fail paiErrMismatch
       else runGemm graph memPlan (op.inputs.getD 0 0) (op.inputs.getD 1 0) (op.outputs.getD 0 0)
        isGemv) := by
  split_ifs with hbad
  · exact Or.inl ⟨_, rfl⟩
  · simp only [not_or, not_not] at hbad
    have ha := input_operand memPlan hbuilt hop hf32 (j := 0) (by omega)
    have hb := input_operand memPlan hbuilt hop hf32 (j := 1) (by omega)
    have hc := output_operand memPlan hbuilt hop hf32 (j := 0) (by omega) true
    unfold runGemm
    split
    · exact Or.inl ⟨_, rfl⟩
    · next m n k hdims =>
      obtain ⟨hm, hn, hk, hmk, hkn, hmn⟩ := gemmDims_spec ha.wf hb.wf hdims
      exact Or.inr (spec_paiRefGemmF32 hm hn hk (ha.covers_of_le hmk.ge) (hb.covers_of_le hkn.ge)
        (hc.covers_of_le hmn.ge))

/-- `RMSNORM`, with or without gain. -/
lemma confined_rmsnorm : Confined graph memPlan op (runRmsnorm graph memPlan op) := by
  unfold runRmsnorm
  by_cases hbad : op.inputs.length < 1 ∨ 2 < op.inputs.length ∨ op.outputs.length ≠ 1 ∨
      (graph.valueAt (op.inputs.getD 0 0)).rank < 1 ∨ 2 < (graph.valueAt (op.inputs.getD 0 0)).rank
  · exact Or.inl ⟨_, if_pos hbad⟩
  simp only [if_neg hbad]
  simp only [not_or, not_lt, not_not] at hbad
  obtain ⟨hni, hni', hno, hrank, hrank'⟩ := hbad
  have ha := input_operand memPlan hbuilt hop hf32 (j := 0) (by omega)
  have hc := output_operand memPlan hbuilt hop hf32 (j := 0) (by omega) true
  have hawf := ha.wf
  set a := graph.valueAt (op.inputs.getD 0 0) with hadef
  set c := graph.valueAt (op.outputs.getD 0 0) with hcdef
  set rows := if a.rank = 2 then a.dim 0 else 1 with hrows
  set cols := a.dim (a.rank - 1) with hcols
  by_cases hshape : c.rank ≠ a.rank ∨ c.dim (a.rank - 1) ≠ cols ∨ (a.rank = 2 ∧ c.dim 0 ≠ rows)
  · exact Or.inl ⟨_, if_pos hshape⟩
  simp only [if_neg hshape]
  simp only [not_or, not_not, not_and] at hshape
  obtain ⟨hcr, hcc, hc0⟩ := hshape
  have hcols0 : cols.toNat ≠ 0 := hawf.dim_ne_zero (by omega)
  -- the rows tile both buffers
  have hcount : elementCount a.shape = rows.toNat * cols.toNat ∧
      elementCount c.shape = rows.toNat * cols.toNat := by
    rcases Nat.lt_or_ge a.rank 2 with hone | htwo
    · have hone : a.rank = 1 := by omega
      rw [GraphValue.count_rank_one hone, GraphValue.count_rank_one (hcr.trans hone), hrows, hcols,
        if_neg (by omega), hone]
      rw [hcols, hone] at hcc
      rw [hcc]
      exact ⟨(Nat.one_mul _).symm, (Nat.one_mul _).symm⟩
    · have htwo : a.rank = 2 := by omega
      have hc0 := hc0 htwo
      rw [hrows, if_pos htwo] at hc0
      rw [GraphValue.count_rank_two htwo, GraphValue.count_rank_two (hcr.trans htwo), hrows, hcols,
        if_pos htwo, htwo]
      rw [hcols, htwo] at hcc
      rw [hcc, hc0]
      exact ⟨rfl, rfl⟩
  have hrow : ∀ r < rows.toNat, ∀ {id : ℕ} {isStore : Bool},
      F32Operand graph memPlan op id isStore →
      elementCount (graph.valueAt id).shape = rows.toNat * cols.toNat →
      Covers (InsideOp graph memPlan op) (valuePtr memPlan id + 4 * u64 (r * cols.toNat))
        (4 * cols.toNat) isStore := by
    intro r hr id isStore hid hn
    have hend : r * cols.toNat + cols.toNat ≤ rows.toNat * cols.toNat := by
      calc r * cols.toNat + cols.toNat = (r + 1) * cols.toNat := by rw [Nat.add_mul, Nat.one_mul]
        _ ≤ rows.toNat * cols.toNat := Nat.mul_le_mul_right _ hr
    have hw := u64_le (r * cols.toNat)
    refine hid.covers.shift ?_
    rw [hn]
    omega
  split_ifs with htwo hgain
  · exact Or.inl ⟨_, rfl⟩
  · simp only [not_or, not_not] at hgain
    have hg := input_operand memPlan hbuilt hop hf32 (j := 1) (by omega)
    have hgcount := GraphValue.count_rank_one hgain.1
    rw [hgain.2] at hgcount
    refine Or.inr (spec_forUpTo fun r hr => ?_)
    exact spec_paiRefRmsnormGammaF32 hcols0 (hrow r hr ha hcount.1) (hrow r hr hc hcount.2)
      (hg.covers_of_le hgcount.ge)
  · refine Or.inr (spec_forUpTo fun r hr => ?_)
    exact spec_paiRefRmsnormF32 hcols0 (hrow r hr ha hcount.1) (hrow r hr hc hcount.2)

/-- `CONCAT`. -/
lemma confined_concat {c : Prop} [Decidable c] :
    Confined graph memPlan op
      (if op.inputs.length ≠ 2 ∨ op.outputs.length ≠ 1 then .fail paiErrMismatch
       else if valueNelem (graph.valueAt (op.outputs.getD 0 0)) ≠
          valueNelem (graph.valueAt (op.inputs.getD 0 0)) +
            valueNelem (graph.valueAt (op.inputs.getD 1 0)) then .fail paiErrMismatch
       else if c then .fail paiErrMismatch
       else paiRefConcatF32 (valuePtr memPlan (op.inputs.getD 0 0))
        (valuePtr memPlan (op.inputs.getD 1 0)) (valuePtr memPlan (op.outputs.getD 0 0))
        (valueNelem (graph.valueAt (op.inputs.getD 0 0))).toNat
        (valueNelem (graph.valueAt (op.inputs.getD 1 0))).toNat) := by
  split_ifs with hbad hcount hc
  · exact Or.inl ⟨_, rfl⟩
  · exact Or.inl ⟨_, rfl⟩
  · exact Or.inl ⟨_, rfl⟩
  · simp only [not_or, not_not] at hbad hcount
    have ha := input_operand memPlan hbuilt hop hf32 (j := 0) (by omega)
    have hb := input_operand memPlan hbuilt hop hf32 (j := 1) (by omega)
    have hc := output_operand memPlan hbuilt hop hf32 (j := 0) (by omega) true
    have hna := ha.wf.nelem
    have hnb := hb.wf.nelem
    have hnc := hc.wf.nelem
    -- a quarter of the address space bounds each count, so the sum does not wrap
    have hsa := ha.wf.size_f32 ha.f32
    have hsb := hb.wf.size_f32 hb.f32
    have hla := (graph.valueAt (op.inputs.getD 0 0)).sizeBytes.toNat_lt
    have hlb := (graph.valueAt (op.inputs.getD 1 0)).sizeBytes.toNat_lt
    rw [hcount, UInt64.toNat_add, Nat.mod_eq_of_lt (by omega), hna, hnb] at hnc
    rw [hna, hnb]
    exact Or.inr (spec_paiRefConcatF32 ha.covers hb.covers (hc.covers_of_le hnc.le))

/-- `CONVERT`, when the output is large enough. -/
lemma confined_convert (hfits : ConvertFits graph memPlan op) (hkind : op.kind = .convert) :
    Confined graph memPlan op
      (if op.inputs.length ≠ 1 ∨ op.outputs.length ≠ 1 ∨
          (graph.valueAt (op.inputs.getD 0 0)).dtype ≠ (graph.valueAt (op.outputs.getD 0 0)).dtype
       then .fail paiErrUnsupported
       else paiRefCopyF32 (valuePtr memPlan (op.inputs.getD 0 0))
        (valuePtr memPlan (op.outputs.getD 0 0))
        (valueNelem (graph.valueAt (op.inputs.getD 0 0))).toNat) := by
  split_ifs with hbad
  · exact Or.inl ⟨_, rfl⟩
  · simp only [not_or, not_not] at hbad
    have ha := input_operand memPlan hbuilt hop hf32 (j := 0) (by omega)
    have hc := output_operand memPlan hbuilt hop hf32 (j := 0) (by omega) true
    rw [ha.wf.nelem]
    refine Or.inr (spec_paiRefCopyF32 ha.covers fun hne => ?_)
    rcases hfits hkind hbad.1 hbad.2.1 ha.f32 hc.f32 with hle | heq
    · exact hc.covers_of_le hle
    · exact absurd (congrArg UInt64.toNat heq) hne

/-- `ROPE`. -/
lemma confined_rope : Confined graph memPlan op (runRope graph memPlan op) := by
  unfold runRope
  by_cases hbad : op.inputs.length ≠ 3 ∨ op.outputs.length ≠ 1 ∨
      (graph.valueAt (op.inputs.getD 0 0)).rank < 2 ∨ 3 < (graph.valueAt (op.inputs.getD 0 0)).rank ∨
      (graph.valueAt (op.outputs.getD 0 0)).rank ≠ (graph.valueAt (op.inputs.getD 0 0)).rank
  · exact Or.inl ⟨_, if_pos hbad⟩
  simp only [if_neg hbad]
  simp only [not_or, not_lt, not_not] at hbad
  obtain ⟨hni, hno, hrank, hrank', hcr⟩ := hbad
  have ha := input_operand memPlan hbuilt hop hf32 (j := 0) (by omega)
  have hco := input_operand memPlan hbuilt hop hf32 (j := 1) (by omega)
  have hsi := input_operand memPlan hbuilt hop hf32 (j := 2) (by omega)
  have hc := output_operand memPlan hbuilt hop hf32 (j := 0) (by omega) true
  have hawf := ha.wf
  have hcowf := hco.wf
  have hcof32 := hco.f32
  have hcwf := hc.wf
  set a := graph.valueAt (op.inputs.getD 0 0) with hadef
  set c := graph.valueAt (op.outputs.getD 0 0) with hcdef
  set co := graph.valueAt (op.inputs.getD 1 0) with hcodef
  set si := graph.valueAt (op.inputs.getD 2 0) with hsidef
  set hd := a.dim (a.rank - 1) with hhd
  set heads := if a.rank = 3 then a.dim 1 else 1 with hheads
  split_ifs with hshape htables hsizes
  · exact Or.inl ⟨_, rfl⟩
  · exact Or.inl ⟨_, rfl⟩
  · exact Or.inl ⟨_, rfl⟩
  simp only [not_or, not_not, not_and] at hshape htables hsizes
  obtain ⟨hchd, hcseq, hcheads⟩ := hshape
  obtain ⟨hcor, hsir, hr2, hctx⟩ := htables
  obtain ⟨hrot, -, hseq, -, -, -⟩ := hsizes
  have hhd0 : hd.toNat ≠ 0 := hawf.dim_ne_zero (by omega)
  have hseq0 : (a.dim 0).toNat ≠ 0 := hawf.dim_ne_zero (by omega)
  have hr20 : (co.dim 1).toNat ≠ 0 := hcowf.dim_ne_zero (by omega)
  have hcocount := GraphValue.count_rank_two hcor
  have hsicount := GraphValue.count_rank_two hsir
  rw [← hr2, ← hctx] at hsicount
  -- the tables hold at most a quarter of the address space, so the doubled width does not wrap
  have hle : 2 * (co.dim 1).toNat ≤ hd.toNat := by
    have hsize := hcowf.size_f32 hcof32
    have hlt := co.sizeBytes.toNat_lt
    have hwidth : (co.dim 1).toNat ≤ (co.dim 0).toNat * (co.dim 1).toNat :=
      Nat.le_mul_of_pos_left _ (Nat.pos_of_ne_zero (hcowf.dim_ne_zero (by omega)))
    have hdouble : (2 * co.dim 1).toNat = 2 * (co.dim 1).toNat := by
      rw [UInt64.toNat_mul, Nat.mod_eq_of_lt (by change 2 * _ < 2 ^ 64; omega)]
      rfl
    have hnot := UInt64.le_iff_toNat_le.mp (UInt64.not_lt.mp hrot)
    omega
  have hctxle : (a.dim 0).toNat ≤ (co.dim 0).toNat :=
    UInt64.le_iff_toNat_le.mp (UInt64.not_lt.mp hseq)
  have hcount : heads.toNat ≠ 0 ∧
      elementCount a.shape = (a.dim 0).toNat * heads.toNat * hd.toNat ∧
      elementCount c.shape = (a.dim 0).toNat * heads.toNat * hd.toNat := by
    rcases Nat.lt_or_ge a.rank 3 with htwo | hthree
    · have htwo : a.rank = 2 := by omega
      rw [GraphValue.count_rank_two htwo, GraphValue.count_rank_two (hcr.trans htwo), hheads, hhd,
        if_neg (by omega), htwo]
      rw [hhd, htwo] at hchd
      rw [hchd, hcseq]
      have hone : (a.dim 0).toNat * (1 : UInt64).toNat = (a.dim 0).toNat := Nat.mul_one _
      rw [hone]
      exact ⟨by decide, rfl, rfl⟩
    · have hthree : a.rank = 3 := by omega
      have hch := hcheads hthree
      rw [hheads, if_pos hthree] at hch
      rw [GraphValue.count_rank_three hthree, GraphValue.count_rank_three (hcr.trans hthree), hheads,
        hhd, if_pos hthree, hthree]
      rw [hhd, hthree] at hchd
      rw [hchd, hcseq, hch]
      exact ⟨hawf.dim_ne_zero (by omega), rfl, rfl⟩
  obtain ⟨hheads0, hacount, hccount⟩ := hcount
  have hrows : (valueNelem c / hd).toNat = (a.dim 0).toNat * heads.toNat := by
    rw [UInt64.toNat_div, hcwf.nelem, hccount, Nat.mul_div_cancel _ (Nat.pos_of_ne_zero hhd0)]
  rw [hrows]
  exact Or.inr (spec_paiRefRopeF32 hhd0 hseq0 hheads0 hr20 hle hctxle (ha.covers_of_le hacount.ge)
    (hc.covers_of_le hccount.ge) (hco.covers_of_le hcocount.ge) (hsi.covers_of_le hsicount.ge))

/-- `ATTENTION`. -/
lemma confined_attention : Confined graph memPlan op (runAttention malloc graph memPlan op) := by
  unfold runAttention
  by_cases hbad : op.inputs.length ≠ 3 ∨ op.outputs.length ≠ 1 ∨
      (graph.valueAt (op.inputs.getD 0 0)).rank ≠ 3 ∨ (graph.valueAt (op.inputs.getD 1 0)).rank ≠ 3 ∨
      (graph.valueAt (op.outputs.getD 0 0)).rank ≠ 3
  · exact Or.inl ⟨_, if_pos hbad⟩
  simp only [if_neg hbad]
  simp only [not_or, not_not] at hbad
  obtain ⟨hni, hno, har, hbr, hcr⟩ := hbad
  have ha := input_operand memPlan hbuilt hop hf32 (j := 0) (by omega)
  have hb := input_operand memPlan hbuilt hop hf32 (j := 1) (by omega)
  have hv := input_operand memPlan hbuilt hop hf32 (j := 2) (by omega)
  have hc := output_operand memPlan hbuilt hop hf32 (j := 0) (by omega) true
  split_ifs with hshape
  · exact Or.inl ⟨_, rfl⟩
  simp only [not_or, not_not] at hshape
  obtain ⟨hb0, hb2, hvr, hv0, hv1, hv2, hc0, hc1, hc2, -, -, hmod⟩ := hshape
  have hacount := GraphValue.count_rank_three har
  have hbcount := GraphValue.count_rank_three hbr
  have hvcount := GraphValue.count_rank_three hvr
  have hccount := GraphValue.count_rank_three hcr
  rw [hb0, hb2] at hbcount
  rw [hv0, hv1, hv2] at hvcount
  rw [hc0, hc1, hc2] at hccount
  have hseq0 := ha.wf.dim_ne_zero (i := 0) (by omega)
  have hh0 := ha.wf.dim_ne_zero (i := 1) (by omega)
  have hd0 := ha.wf.dim_ne_zero (i := 2) (by omega)
  have hk0 := hb.wf.dim_ne_zero (i := 1) (by omega)
  have hmod' : ((graph.valueAt (op.inputs.getD 0 0)).dim 1).toNat %
      ((graph.valueAt (op.inputs.getD 1 0)).dim 1).toNat = 0 := by
    rw [← UInt64.toNat_mod, hmod]
    rfl
  by_cases hmalloc : malloc (u64 (((graph.valueAt (op.inputs.getD 0 0)).dim 0).toNat * 4)) = true
  · exact Or.inr (spec_paiRefAttentionF32 hh0 hk0 hseq0 hd0 hmod' hmalloc
      (ha.covers_of_le hacount.ge) (hb.covers_of_le hbcount.ge) (hv.covers_of_le hvcount.ge)
      (hc.covers_of_le hccount.ge))
  · refine Or.inl ⟨paiErrNomem, ?_⟩
    rw [paiRefAttentionF32, if_neg (by omega), if_pos (Bool.not_eq_true _ ▸ hmalloc)]

/-- Every kind is confined, `CONVERT` when its output is large enough. -/
lemma confined_runKind (hfits : ConvertFits graph memPlan op) :
    Confined graph memPlan op (runKind malloc graph memPlan op) := by
  cases hkind : op.kind <;> simp only [runKind, hkind]
  case none => exact Or.inl ⟨_, rfl⟩
  case add => exact confined_binary hbuilt hop hf32 _
  case mul => exact confined_binary hbuilt hop hf32 _
  case gemm => exact confined_gemm hbuilt hop hf32 false
  case gemv => exact confined_gemm hbuilt hop hf32 true
  case matmul => exact confined_gemm hbuilt hop hf32 false
  case relu =>
    refine confined_unary hbuilt hop hf32 fun _ hn ha hc _ => ?_
    rw [← hn]
    exact spec_mapKernel ha hc
  case softmax =>
    refine confined_unary hbuilt hop hf32 fun hne hn ha hc hback => ?_
    rw [← hn]
    exact spec_paiRefSoftmaxF32 hne ha hc hback
  case layernorm =>
    refine confined_unary hbuilt hop hf32 fun hne hn ha hc _ => ?_
    rw [← hn]
    exact spec_paiRefLayernormF32 hne ha hc
  case rmsnorm => exact confined_rmsnorm hbuilt hop hf32
  case rope => exact confined_rope hbuilt hop hf32
  case attention => exact confined_attention hbuilt hop hf32
  case reshape =>
    refine confined_unary hbuilt hop hf32 fun _ hn ha hc _ => ?_
    rw [← hn]
    exact spec_paiRefCopyF32 ha fun _ => hc
  case concat => exact confined_concat hbuilt hop hf32
  case convert => exact confined_convert hbuilt hop hf32 hfits hkind
  case copy =>
    refine confined_unary hbuilt hop hf32 fun _ hn ha hc _ => ?_
    rw [← hn]
    exact spec_paiRefCopyF32 ha fun _ => hc
  case silu =>
    refine confined_unary hbuilt hop hf32 fun _ hn ha hc _ => ?_
    rw [← hn]
    exact spec_mapKernel ha hc
  case custom => exact Or.inl ⟨_, rfl⟩

end Kinds

/-! ## Steps -/

section Steps

variable {malloc : ℕ → Bool} {graph : Graph} {memPlan : GraphMemPlan} {op : GraphOp}

/-- Past the type check every operand is `f32`. -/
lemma runOp_cases (malloc : ℕ → Bool) (graph : Graph) (memPlan : GraphMemPlan) (op : GraphOp) :
    (∃ e, runOp malloc graph memPlan op = .fail e) ∨
      (AllF32 graph op ∧ runOp malloc graph memPlan op = runKind malloc graph memPlan op) := by
  unfold runOp
  split_ifs with hbad
  · exact Or.inl ⟨_, rfl⟩
  · refine Or.inr ⟨?_, rfl⟩
    simp only [not_or, List.any_eq_true, not_exists, not_and, decide_eq_true_eq, not_not] at hbad
    intro id hid
    rcases List.mem_append.mp hid with hin | hout
    · exact hbad.1 id hin
    · exact hbad.2 id hout

/-- The step from the memory `mem` accesses only the ranges of its op, and a step that returns an
error has accessed nothing. -/
def StepInside (malloc : ℕ → Bool) (graph : Graph) (memPlan : GraphMemPlan) (op : GraphOp)
    (mem : Memory Space) : Prop :=
  (∀ acc ∈ (runOp malloc graph memPlan op).trace mem, InsideOp graph memPlan op acc) ∧
    ((∃ e, ((runOp malloc graph memPlan op).run mem).1 = .error e) →
      (runOp malloc graph memPlan op).trace mem = [])

/-- A confined step is inside from every memory. -/
lemma Confined.stepInside (h : Confined graph memPlan op (runOp malloc graph memPlan op))
    (mem : Memory Space) : StepInside malloc graph memPlan op mem := by
  rcases h with ⟨e, he⟩ | hspec
  · rw [StepInside, he]
    exact ⟨fun acc hacc => absurd hacc List.not_mem_nil, fun _ => rfl⟩
  · refine ⟨hspec.trace mem, ?_⟩
    rintro ⟨e, he⟩
    have hrun := hspec.run mem
    rw [he] at hrun
    exact absurd hrun id

/-- The copy of a `CONVERT` shows how much it writes. -/
lemma convertFits_of_stepInside (hbuilt : graph.Built) (hop : op.WellFormed graph.values.length)
    {mem : Memory Space} (h : StepInside malloc graph memPlan op mem) :
    ConvertFits graph memPlan op := by
  intro hkind hni hno hfin hfout
  by_cases heq : paiGraphMemPlanOffset memPlan (op.inputs.getD 0 0) =
      paiGraphMemPlanOffset memPlan (op.outputs.getD 0 0)
  · exact Or.inr heq
  refine Or.inl ?_
  obtain ⟨i, hi⟩ := List.length_eq_one_iff.mp hni
  obtain ⟨o, ho⟩ := List.length_eq_one_iff.mp hno
  simp only [hi, ho, List.getD_cons_zero] at heq hfin hfout ⊢
  have hexi := hop.inputs_exist i (by rw [hi]; exact List.mem_singleton_self i)
  have hexo := hop.outputs_exist o (by rw [ho]; exact List.mem_singleton_self o)
  have hwi := hbuilt.valueAt_wf hexi.1 hexi.2
  have hwo := hbuilt.valueAt_wf hexo.1 hexo.2
  have hne : valuePtr memPlan i ≠ valuePtr memPlan o := fun hp => heq (UInt64.toNat_inj.mp hp)
  have hsi := hwi.size_f32 hfin
  have hso := hwo.size_f32 hfout
  have hlt := (graph.valueAt i).sizeBytes.toNat_lt
  obtain ⟨-, -, -, -, hsize0⟩ := paiTensorContiguousSize_spec hwi.size_eq
  have hn0 : elementCount (graph.valueAt i).shape ≠ 0 := by
    intro hz
    rw [hz] at hsi
    exact hsize0 (UInt64.toNat_inj.mp hsi)
  -- the step is one copy of all input bytes
  have hrun : runOp malloc graph memPlan op =
      copyBytes (valuePtr memPlan o) (valuePtr memPlan i) (elementCount (graph.valueAt i).shape * 4) := by
    have hnelem := hwi.nelem
    rw [runOp, if_neg (by simp [hi, ho, hfin, hfout])]
    simp only [runKind, hkind, hi, ho, List.getD_cons_zero, List.length_singleton, hfin, hfout]
    rw [if_neg (by simp), paiRefCopyF32, hnelem, if_pos ⟨hne, hn0⟩, u64_of_lt (by omega)]
  have hstore := h.1
  rw [hrun] at hstore
  have hlast := hstore ⟨.region, valuePtr memPlan o, elementCount (graph.valueAt i).shape * 4, true⟩ (by
    change _ ∈ [_, _]
    rw [List.mem_cons, List.mem_singleton, Memory.length_bytes]
    exact Or.inr rfl)
  obtain ⟨-, id, hid, -, hend⟩ := hlast
  have hid : id = o := by
    change id ∈ op.outputs at hid
    rw [ho] at hid
    exact List.mem_singleton.mp hid
  subst hid
  change valuePtr memPlan id + elementCount (graph.valueAt i).shape * 4 ≤ _ at hend
  omega

/-- A step is inside exactly when its op is not a `CONVERT` into a smaller value. -/
theorem stepInside_iff (hbuilt : graph.Built) (hop : op.WellFormed graph.values.length)
    (mem : Memory Space) :
    StepInside malloc graph memPlan op mem ↔ ConvertFits graph memPlan op := by
  constructor
  · exact convertFits_of_stepInside hbuilt hop
  · intro hfits
    apply Confined.stepInside
    rcases runOp_cases malloc graph memPlan op with hfail | ⟨hf32, hrun⟩
    · exact Or.inl hfail
    · rw [hrun]
      exact confined_runKind hbuilt hop hf32 hfits

end Steps

/-! ## Whole executions -/

section Executions

variable (malloc : ℕ → Bool) (graph : Graph) (memPlan : GraphMemPlan)

/-- The steps an execution runs, each with the memory it starts from. -/
def stepRuns (steps : List SchedStep) (mem : Memory Space) : List (SchedStep × Memory Space) :=
  rounds (fun step => runOp malloc graph memPlan (graph.opAt step.opId)) steps mem

/-- The accesses of the loop are those of the steps it runs. -/
lemma trace_runSteps (stats : RunStats) (steps : List SchedStep) (mem : Memory Space) :
    (runSteps malloc graph memPlan stats steps).trace mem =
      (stepRuns malloc graph memPlan steps mem).flatMap fun r =>
        (runOp malloc graph memPlan (graph.opAt r.1.opId)).trace r.2 := by
  induction steps generalizing stats mem with
  | nil => rfl
  | cons step rest ih =>
    rw [runSteps, stepRuns, rounds, List.flatMap_cons]
    change (Prog.bind _ _).trace mem = _
    rw [Prog.trace_bind]
    congr 1
    rcases (runOp malloc graph memPlan (graph.opAt step.opId)).run mem with ⟨_ | _, mem'⟩
    · rfl
    · exact ih _ _

end Executions

/-- A successful pass over a list succeeded on every element, in order. -/
lemma forall₂_of_mapM {α β ε : Type} {f : α → Except ε β} {l : List α} {ys : List β}
    (h : l.mapM f = .ok ys) : List.Forall₂ (fun x y => f x = .ok y) l ys := by
  induction l generalizing ys with
  | nil =>
    cases h
    exact List.Forall₂.nil
  | cons x l ih =>
    rw [List.mapM_cons] at h
    cases hx : f x with
    | error e =>
      rw [hx] at h
      cases h
    | ok y =>
      cases hl : l.mapM f with
      | error e =>
        rw [hx, hl] at h
        cases h
      | ok rest =>
        rw [hx, hl] at h
        cases h
        exact List.Forall₂.cons hx (ih hl)

/-- A successful build of a sorted graph: step `s` is what the step loop computes for epoch `s`. -/
lemma schedBuildImpl_ok {graph graph' : Graph} {memPlan : GraphMemPlan} {policy : SchedPolicy}
    {hints : ℕ → UInt8} {persistent : Bool} {plan : SchedPlan}
    (h : schedBuildImpl graph memPlan policy hints persistent = (graph', .ok plan)) :
    graph' = graph.ensureSorted.1 ∧ plan.steps.length = graph'.ops.length ∧
      ∀ s step, plan.steps[s]? = some step → schedStep graph' policy hints
        (if persistent then graph'.lifeEndPersistent else graph'.lifeEnd) s = .ok step := by
  unfold schedBuildImpl at h
  by_cases hst : graph.ensureSorted.2 ≠ paiOk
  · simp only [if_pos hst] at h
    cases h
  simp only [if_neg hst] at h
  split at h
  · cases h
  · next steps hsteps =>
    cases h
    have hall := forall₂_of_mapM hsteps
    refine ⟨rfl, hall.length_eq.symm.trans List.length_range, fun s step hstep => ?_⟩
    obtain ⟨hlt, rfl⟩ := List.getElem?_eq_some_iff.mp hstep
    have hs := hall.get (hall.length_eq.symm ▸ hlt) hlt
    simpa using hs

/-- What a round of the step loop yields. -/
lemma schedStep_ok {graph : Graph} {policy : SchedPolicy} {hints : ℕ → UInt8} {lifeEnd : ℕ → ℕ}
    {s : ℕ} {step : SchedStep} (h : schedStep graph policy hints lifeEnd s = .ok step) :
    (∃ op, graph.op? step.opId = some op) ∧ step.epoch = s ∧
      step.producedBytes = graph.bytesWhere (fun v => graph.lifeStart v == s) ∧
      step.releasedBytes = graph.bytesWhere (fun v => lifeEnd v == s) ∧
      step.liveBytes =
        graph.bytesWhere (fun v => graph.lifeStart v < s && s < lifeEnd v) + step.producedBytes := by
  unfold schedStep at h
  simp only at h
  split at h
  · cases h
  · next op hop =>
    split at h
    · cases h
    · cases h
      exact ⟨⟨op, hop⟩, rfl, rfl, rfl, rfl⟩

/-- The steps of a plan are as many as the ops of the graph, and each names one of them. -/
lemma schedBuildImpl_steps {graph graph' : Graph} {memPlan : GraphMemPlan} {policy : SchedPolicy}
    {hints : ℕ → UInt8} {persistent : Bool} {plan : SchedPlan}
    (h : schedBuildImpl graph memPlan policy hints persistent = (graph', .ok plan)) :
    graph' = graph.ensureSorted.1 ∧ plan.steps.length = graph'.ops.length ∧
      ∀ step ∈ plan.steps, ∃ op, graph'.op? step.opId = some op := by
  obtain ⟨hgraph, hlen, hsteps⟩ := schedBuildImpl_ok h
  refine ⟨hgraph, hlen, fun step hstep => ?_⟩
  obtain ⟨s, hs⟩ := List.mem_iff_getElem?.mp hstep
  exact (schedStep_ok (hsteps s step hs)).1

/-- For every graph built through the API, every plan and schedule of it and every contents of the
region: an execution accesses memory in its steps only, and every step it runs stays inside the
ranges of its op, or refuses the op before any access, exactly when it runs no `CONVERT` into a value
with fewer elements. -/
theorem paiSchedExecute_inside_iff (malloc : ℕ → Bool) (qsort : Planner → List SortEntry)
    (calls : List GraphCall) (persistent persistent' : Bool) (policy : SchedPolicy)
    (hints : ℕ → UInt8) (graph graph' : Graph) (memPlan : GraphMemPlan) (plan : SchedPlan)
    (hplan : graphMemoryPlanImpl qsort (graphBuild calls) persistent = (graph, .ok memPlan))
    (hsched : schedBuildImpl graph memPlan policy hints persistent' = (graph', .ok plan)) :
    (∀ mem, (paiSchedExecute malloc graph' memPlan plan).trace mem =
      (stepRuns malloc graph' memPlan plan.steps mem).flatMap fun r =>
        (runOp malloc graph' memPlan (graph'.opAt r.1.opId)).trace r.2) ∧
    ((∀ mem, ∀ r ∈ stepRuns malloc graph' memPlan plan.steps mem,
        StepInside malloc graph' memPlan (graph'.opAt r.1.opId) r.2) ↔
      ∀ mem, ∀ r ∈ stepRuns malloc graph' memPlan plan.steps mem,
        ConvertFits graph' memPlan (graph'.opAt r.1.opId)) := by
  have hgraph : graph.Built := by
    have hfst := congrArg Prod.fst hplan
    unfold graphMemoryPlanImpl at hfst
    simp only at hfst
    split_ifs at hfst
    · exact hfst ▸ (graphBuilt_run calls).ensureSorted
    · exact hfst ▸ (graphBuilt_run calls).ensureSorted
  obtain ⟨hsorted, hlen, hops⟩ := schedBuildImpl_steps hsched
  have hgraph' : graph'.Built := hsorted ▸ hgraph.ensureSorted
  refine ⟨fun mem => ?_, ?_⟩
  · rw [paiSchedExecute, if_neg (by omega)]
    exact trace_runSteps malloc graph' memPlan _ plan.steps mem
  · refine forall_congr' fun mem => forall_congr' fun r => forall_congr' fun hr => ?_
    obtain ⟨op, hop⟩ := hops r.1 (mem_of_mem_rounds hr)
    apply stepInside_iff hgraph'
    rw [Graph.opAt, hop]
    exact hgraph'.op_wf hop

/-- A `CONVERT` of eight elements into a value of four. -/
def shrinkingConvert : List GraphCall :=
  [.addValue .f32 [8] 0, .addValue .f32 [4] 0, .addOp .convert [1] [2]]

/-- A `COPY` of four elements. -/
def plainCopy : List GraphCall :=
  [.addValue .f32 [4] 0, .addValue .f32 [4] 0, .addOp .copy [1] [2]]

/-- The equivalence at a copy. -/
theorem paiSchedExecute_inside_iff_copy :
    ∃ graph graph' memPlan plan,
      graphMemoryPlanImpl sortEntries (graphBuild plainCopy) false = (graph, .ok memPlan) ∧
      schedBuildImpl graph memPlan .interactive (fun _ => 0) false = (graph', .ok plan) ∧
      ((∀ mem, ∀ r ∈ stepRuns (fun _ => true) graph' memPlan plan.steps mem,
          StepInside (fun _ => true) graph' memPlan (graph'.opAt r.1.opId) r.2) ↔
        ∀ mem, ∀ r ∈ stepRuns (fun _ => true) graph' memPlan plan.steps mem,
          ConvertFits graph' memPlan (graph'.opAt r.1.opId)) := by
  refine ⟨_, _, _, _, rfl, rfl, ?_⟩
  exact (paiSchedExecute_inside_iff (fun _ => true) sortEntries plainCopy false false .interactive
    (fun _ => 0) _ _ _ _ rfl rfl).2

/-- The copy of a shrinking `CONVERT` ends sixteen bytes behind its output. -/
theorem paiSchedExecute_convert_overruns :
    ∃ graph graph' memPlan plan,
      graphMemoryPlanImpl sortEntries (graphBuild shrinkingConvert) false = (graph, .ok memPlan) ∧
      schedBuildImpl graph memPlan .interactive (fun _ => 0) false = (graph', .ok plan) ∧
      ∃ mem, ∃ r ∈ stepRuns (fun _ => true) graph' memPlan plan.steps mem,
        ¬ StepInside (fun _ => true) graph' memPlan (graph'.opAt r.1.opId) r.2 := by
  refine ⟨_, _, _, _, rfl, rfl, fun _ _ => 0, _, List.mem_cons_self, ?_⟩
  intro hinside
  have hbuilt : (graphBuild shrinkingConvert).ensureSorted.1.Built :=
    (graphBuilt_run shrinkingConvert).ensureSorted
  have hbuilt' := hbuilt.ensureSorted
  have hfits := convertFits_of_stepInside hbuilt' (hbuilt'.op_wf (o := 1) rfl) hinside
  rcases hfits rfl rfl rfl rfl rfl with hle | heq
  · exact absurd hle (by decide +kernel)
  · exact absurd heq (by decide +kernel)

end Prospero
