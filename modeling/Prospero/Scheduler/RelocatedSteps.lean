import Prospero.Scheduler.Execute
import Prospero.Scheduler.PlannedRun
import Prospero.Scheduler.RelocatedKernels

/-!
# Steps under two plans

A step of the executor computes its outputs from its inputs, wherever the plan puts them: under two plans that
keep the outputs of an op apart from its other operands, the step has the same outcome from regions that hold
the same inputs, and the same bytes in every output (`tracks_runOp`).

A `CONVERT` whose element counts differ copies part of its output only, or past its end; `ConvertWhole` leaves
it out.
-/

namespace Prospero

open Footprint

/-! ## Layouts of an op -/

/-- No operand of the op overlaps one of its outputs. -/
def Graph.OpApart (graph : Graph) (memPlan : GraphMemPlan) (op : GraphOp) : Prop :=
  ∀ u ∈ op.outputs, ∀ v ∈ op.inputs ++ op.outputs, v ≠ u →
    (graph.placeOf memPlan u).Apart (graph.placeOf memPlan v)

/-- A `CONVERT` that is run has as many input as output elements. -/
def Graph.ConvertWhole (graph : Graph) (op : GraphOp) : Prop :=
  op.kind = .convert → op.inputs.length = 1 → op.outputs.length = 1 → AllF32 graph op →
    elementCount (graph.valueAt (op.inputs.getD 0 0)).shape =
      elementCount (graph.valueAt (op.outputs.getD 0 0)).shape

/-- The operands of an op under two plans. -/
def Graph.stepRelocation (graph : Graph) (op : GraphOp) (memPlan memPlan' : GraphMemPlan)
    (h : graph.OpApart memPlan op) (h' : graph.OpApart memPlan' op) : Relocation ℕ where
  left := valuePtr memPlan
  right := valuePtr memPlan'
  size v := (graph.valueAt v).sizeBytes.toNat
  used := {v | v ∈ op.inputs ++ op.outputs}
  out := {v | v ∈ op.outputs}
  out_used _ hu := List.mem_append_right _ hu
  left_apart := h
  right_apart := h'

/-- The bytes of the inputs. -/
def Graph.inputCells (graph : Graph) (op : GraphOp) : Cells ℕ :=
  {x | x.1 ∈ op.inputs ∧ x.2 < (graph.valueAt x.1).sizeBytes.toNat}

/-- All bytes of the outputs are known. -/
def Graph.OutputsKnown (graph : Graph) (op : GraphOp) (T : Cells ℕ) : Prop :=
  ∀ u ∈ op.outputs, Known T u 0 (graph.valueAt u).sizeBytes.toNat

section Operands

variable {graph : Graph} {memPlan memPlan' : GraphMemPlan} {op : GraphOp}

/-- What holds of an `f32` input. -/
structure TrackedInput (graph : Graph) (op : GraphOp) (r : Relocation ℕ) (p p' v : ℕ) : Prop where
  /-- The value is well formed. -/
  wf : (graph.valueAt v).WellFormed
  /-- Its size. -/
  size : (graph.valueAt v).sizeBytes.toNat = 4 * elementCount (graph.valueAt v).shape
  /-- Its addresses. -/
  at_ptr : r.At v 0 p p'
  /-- Its bytes are known. -/
  known : Known (graph.inputCells op) v 0 (4 * elementCount (graph.valueAt v).shape)

/-- What holds of the only output of an op, an `f32`. -/
structure TrackedOutput (graph : Graph) (op : GraphOp) (r : Relocation ℕ) (p p' v : ℕ) : Prop where
  /-- The value is well formed. -/
  wf : (graph.valueAt v).WellFormed
  /-- Its element count fits the address space with room to spare. -/
  fits : 4 * elementCount (graph.valueAt v).shape < 0x10000000000000000
  /-- Its addresses. -/
  at_ptr : r.At v 0 p p'
  /-- Its bytes may be written. -/
  writable : r.Writable v 0 (4 * elementCount (graph.valueAt v).shape)
  /-- When they are known, all outputs are. -/
  done : ∀ T, Known T v 0 (4 * elementCount (graph.valueAt v).shape) → graph.OutputsKnown op T

lemma TrackedInput.known_of_le {r : Relocation ℕ} {p p' v n : ℕ} (hv : TrackedInput graph op r p p' v)
    (hn : n ≤ elementCount (graph.valueAt v).shape) : Known (graph.inputCells op) v 0 (4 * n) :=
  hv.known.of_le (by omega)

variable (h : graph.OpApart memPlan op) (h' : graph.OpApart memPlan' op) (hbuilt : graph.Built)
  (hop : op.WellFormed graph.values.length) (hf32 : AllF32 graph op)

include hbuilt hop hf32

lemma trackedInput {j : ℕ} (hj : j < op.inputs.length) :
    TrackedInput graph op (graph.stepRelocation op memPlan memPlan' h h')
      (valuePtr memPlan (op.inputs.getD j 0)) (valuePtr memPlan' (op.inputs.getD j 0))
      (op.inputs.getD j 0) := by
  have hmem := getD_mem hj
  have hexist := hop.inputs_exist _ hmem
  have hwf := hbuilt.valueAt_wf hexist.1 hexist.2
  have hsize := hwf.size_f32 (hf32 _ (List.mem_append_left _ hmem))
  exact ⟨hwf, hsize, ⟨rfl, rfl⟩, fun i hi => ⟨hmem, by dsimp only; omega⟩⟩

lemma trackedOutput (hno : op.outputs.length = 1) :
    TrackedOutput graph op (graph.stepRelocation op memPlan memPlan' h h')
      (valuePtr memPlan (op.outputs.getD 0 0)) (valuePtr memPlan' (op.outputs.getD 0 0))
      (op.outputs.getD 0 0) := by
  have hmem := getD_mem (show 0 < op.outputs.length by omega)
  have hexist := hop.outputs_exist _ hmem
  have hwf := hbuilt.valueAt_wf hexist.1 hexist.2
  have hsize := hwf.size_f32 (hf32 _ (List.mem_append_right _ hmem))
  have hlt := (graph.valueAt (op.outputs.getD 0 0)).sizeBytes.toNat_lt
  refine ⟨hwf, by omega, ⟨rfl, rfl⟩, ⟨hmem, ?_⟩, fun T hT u hu => ?_⟩
  · rw [Nat.zero_add]
    exact hsize.ge
  · obtain ⟨c, hc⟩ := List.length_eq_one_iff.mp hno
    rw [hc] at hu hT hsize
    obtain rfl := List.mem_singleton.mp hu
    exact hT.of_le hsize.le

end Operands

/-! ## The kinds -/

section Kinds

variable {malloc : ℕ → Bool} {graph : Graph} {memPlan memPlan' : GraphMemPlan} {op : GraphOp}
  {h : graph.OpApart memPlan op} {h' : graph.OpApart memPlan' op}

/-- The step under the one plan tracks the step under the other. -/
abbrev StepTracks (h : graph.OpApart memPlan op) (h' : graph.OpApart memPlan' op) (m m' : Kernel Unit) : Prop :=
  Tracks .region (graph.stepRelocation op memPlan memPlan' h h') (fun _ T => graph.OutputsKnown op T)
    (graph.inputCells op) m m'

variable (hbuilt : graph.Built) (hop : op.WellFormed graph.values.length) (hf32 : AllF32 graph op)

include hbuilt hop hf32

/-- Kernels over one input and an output of the same length. -/
lemma tracks_unary {kernel kernel' : Kernel Unit} {e : PaiStatus}
    (hkernel : ∀ n, op.inputs.length = 1 → op.outputs.length = 1 → n ≠ 0 → n = (valueNelem (graph.valueAt (op.inputs.getD 0 0))).toNat →
      4 * n < 0x10000000000000000 →
      TrackedInput graph op (graph.stepRelocation op memPlan memPlan' h h')
        (valuePtr memPlan (op.inputs.getD 0 0)) (valuePtr memPlan' (op.inputs.getD 0 0))
        (op.inputs.getD 0 0) →
      TrackedOutput graph op (graph.stepRelocation op memPlan memPlan' h h')
        (valuePtr memPlan (op.outputs.getD 0 0)) (valuePtr memPlan' (op.outputs.getD 0 0))
        (op.outputs.getD 0 0) →
      Known (graph.inputCells op) (op.inputs.getD 0 0) 0 (4 * n) →
      (graph.stepRelocation op memPlan memPlan' h h').Writable (op.outputs.getD 0 0) 0 (4 * n) →
      Tracks .region (graph.stepRelocation op memPlan memPlan' h h')
        (fun _ T => Known T (op.outputs.getD 0 0) 0 (4 * n)) (graph.inputCells op) kernel kernel') :
    StepTracks h h'
      (if op.inputs.length ≠ 1 ∨ op.outputs.length ≠ 1 ∨
          valueNelem (graph.valueAt (op.outputs.getD 0 0)) ≠
            valueNelem (graph.valueAt (op.inputs.getD 0 0)) then .fail e
       else kernel)
      (if op.inputs.length ≠ 1 ∨ op.outputs.length ≠ 1 ∨
          valueNelem (graph.valueAt (op.outputs.getD 0 0)) ≠
            valueNelem (graph.valueAt (op.inputs.getD 0 0)) then .fail e
       else kernel') := by
  split_ifs with hbad
  · exact .fail
  · simp only [not_or, not_not] at hbad
    obtain ⟨hni, hno, hcount⟩ := hbad
    have ha := trackedInput h h' hbuilt hop hf32 (j := 0) (by omega)
    have hc := trackedOutput h h' hbuilt hop hf32 hno
    have hcounts : elementCount (graph.valueAt (op.outputs.getD 0 0)).shape =
        elementCount (graph.valueAt (op.inputs.getD 0 0)).shape := by
      rw [← hc.wf.nelem, ← ha.wf.nelem, hcount]
    have hfits := hc.fits
    have hwrite := hc.writable
    have hdone := hc.done
    rw [hcounts] at hfits hwrite hdone
    refine (hkernel _ hni hno ?_ ha.wf.nelem.symm hfits ha hc ha.known hwrite).mono fun _ T hT => hdone T hT
    obtain ⟨-, -, -, hsize, hne⟩ := paiTensorContiguousSize_spec ha.wf.size_eq
    intro hz
    rw [hz, Nat.zero_mul] at hsize
    exact hne (UInt64.toNat_inj.mp hsize)

/-- Kernels over two inputs and an output of the same length. -/
lemma tracks_binary (f : Float32 → Float32 → Float32) :
    StepTracks h h'
      (if op.inputs.length ≠ 2 ∨ op.outputs.length ≠ 1 ∨
          valueNelem (graph.valueAt (op.inputs.getD 0 0)) ≠
            valueNelem (graph.valueAt (op.inputs.getD 1 0)) ∨
          valueNelem (graph.valueAt (op.outputs.getD 0 0)) ≠
            valueNelem (graph.valueAt (op.inputs.getD 0 0)) then .fail paiErrMismatch
       else zipKernel f (valuePtr memPlan (op.inputs.getD 0 0)) (valuePtr memPlan (op.inputs.getD 1 0))
        (valuePtr memPlan (op.outputs.getD 0 0)) (valueNelem (graph.valueAt (op.inputs.getD 0 0))).toNat)
      (if op.inputs.length ≠ 2 ∨ op.outputs.length ≠ 1 ∨
          valueNelem (graph.valueAt (op.inputs.getD 0 0)) ≠
            valueNelem (graph.valueAt (op.inputs.getD 1 0)) ∨
          valueNelem (graph.valueAt (op.outputs.getD 0 0)) ≠
            valueNelem (graph.valueAt (op.inputs.getD 0 0)) then .fail paiErrMismatch
       else zipKernel f (valuePtr memPlan' (op.inputs.getD 0 0)) (valuePtr memPlan' (op.inputs.getD 1 0))
        (valuePtr memPlan' (op.outputs.getD 0 0))
        (valueNelem (graph.valueAt (op.inputs.getD 0 0))).toNat) := by
  split_ifs with hbad
  · exact .fail
  · simp only [not_or, not_not] at hbad
    obtain ⟨hni, hno, hab, hca⟩ := hbad
    have ha := trackedInput h h' hbuilt hop hf32 (j := 0) (by omega)
    have hb := trackedInput h h' hbuilt hop hf32 (j := 1) (by omega)
    have hc := trackedOutput h h' hbuilt hop hf32 hno
    have hnb := hb.wf.nelem
    have hnc := hc.wf.nelem
    have hwrite := hc.writable
    have hdone := hc.done
    rw [← hab] at hnb
    rw [hca] at hnc
    rw [← hnc] at hwrite hdone
    exact (tracks_zipKernel ha.at_ptr hb.at_ptr hc.at_ptr (ha.known_of_le ha.wf.nelem.le)
      (hb.known_of_le hnb.le) hwrite).mono fun _ T hT => hdone T hT

/-- `GEMM`, `MATMUL` and `GEMV`. -/
lemma tracks_gemm (isGemv : Bool) :
    StepTracks h h'
      (if op.inputs.length ≠ 2 ∨ op.outputs.length ≠ 1 then .fail paiErrMismatch
       else runGemm graph memPlan (op.inputs.getD 0 0) (op.inputs.getD 1 0) (op.outputs.getD 0 0) isGemv)
      (if op.inputs.length ≠ 2 ∨ op.outputs.length ≠ 1 then .fail paiErrMismatch
       else runGemm graph memPlan' (op.inputs.getD 0 0) (op.inputs.getD 1 0) (op.outputs.getD 0 0)
        isGemv) := by
  split_ifs with hbad
  · exact .fail
  · simp only [not_or, not_not] at hbad
    have ha := trackedInput h h' hbuilt hop hf32 (j := 0) (by omega)
    have hb := trackedInput h h' hbuilt hop hf32 (j := 1) (by omega)
    have hc := trackedOutput h h' hbuilt hop hf32 hbad.2
    unfold runGemm
    split
    · exact .fail
    · next m n k hdims =>
      obtain ⟨hm, hn, hk, hmk, hkn, hmn⟩ := gemmDims_spec ha.wf hb.wf hdims
      have hfits := hc.fits
      have hwrite := hc.writable
      have hdone := hc.done
      rw [hmn] at hfits hwrite hdone
      exact (tracks_paiRefGemmF32 hm hn hk hfits ha.at_ptr hb.at_ptr hc.at_ptr (ha.known_of_le hmk.ge)
        (hb.known_of_le hkn.ge) hwrite).mono fun _ T hT => hdone T hT

/-- `CONCAT`. -/
lemma tracks_concat {c : Prop} [Decidable c] :
    StepTracks h h'
      (if op.inputs.length ≠ 2 ∨ op.outputs.length ≠ 1 then .fail paiErrMismatch
       else if valueNelem (graph.valueAt (op.outputs.getD 0 0)) ≠
          valueNelem (graph.valueAt (op.inputs.getD 0 0)) +
            valueNelem (graph.valueAt (op.inputs.getD 1 0)) then .fail paiErrMismatch
       else if c then .fail paiErrMismatch
       else paiRefConcatF32 (valuePtr memPlan (op.inputs.getD 0 0))
        (valuePtr memPlan (op.inputs.getD 1 0)) (valuePtr memPlan (op.outputs.getD 0 0))
        (valueNelem (graph.valueAt (op.inputs.getD 0 0))).toNat
        (valueNelem (graph.valueAt (op.inputs.getD 1 0))).toNat)
      (if op.inputs.length ≠ 2 ∨ op.outputs.length ≠ 1 then .fail paiErrMismatch
       else if valueNelem (graph.valueAt (op.outputs.getD 0 0)) ≠
          valueNelem (graph.valueAt (op.inputs.getD 0 0)) +
            valueNelem (graph.valueAt (op.inputs.getD 1 0)) then .fail paiErrMismatch
       else if c then .fail paiErrMismatch
       else paiRefConcatF32 (valuePtr memPlan' (op.inputs.getD 0 0))
        (valuePtr memPlan' (op.inputs.getD 1 0)) (valuePtr memPlan' (op.outputs.getD 0 0))
        (valueNelem (graph.valueAt (op.inputs.getD 0 0))).toNat
        (valueNelem (graph.valueAt (op.inputs.getD 1 0))).toNat) := by
  split_ifs with hbad hcount hc
  · exact .fail
  · exact .fail
  · exact .fail
  · simp only [not_or, not_not] at hbad hcount
    have ha := trackedInput h h' hbuilt hop hf32 (j := 0) (by omega)
    have hb := trackedInput h h' hbuilt hop hf32 (j := 1) (by omega)
    have hc := trackedOutput h h' hbuilt hop hf32 hbad.2
    have hnc := hc.wf.nelem
    have hsa := ha.size
    have hsb := hb.size
    have hla := (graph.valueAt (op.inputs.getD 0 0)).sizeBytes.toNat_lt
    have hlb := (graph.valueAt (op.inputs.getD 1 0)).sizeBytes.toNat_lt
    have hna := ha.wf.nelem
    have hnb := hb.wf.nelem
    have hfits := hc.fits
    have hwrite := hc.writable
    have hdone := hc.done
    rw [hcount, UInt64.toNat_add, Nat.mod_eq_of_lt (by omega)] at hnc
    rw [← hnc] at hfits hwrite hdone
    exact (tracks_paiRefConcatF32 hfits ha.at_ptr hb.at_ptr hc.at_ptr (ha.known_of_le hna.le)
      (hb.known_of_le hnb.le) hwrite).mono fun _ T hT => hdone T hT

omit hf32 in
/-- Operands at one address would overlap. -/
lemma OpApart.ptr_ne (hapart : graph.OpApart memPlan op) {u v : ℕ} (hu : u ∈ op.outputs) (hv : v ∈ op.inputs) :
    valuePtr memPlan v ≠ valuePtr memPlan u := by
  have hpos (w : ℕ) (hw : w ∈ op.inputs ++ op.outputs) : 0 < (graph.valueAt w).sizeBytes.toNat := by
    have hexist : 1 ≤ w ∧ w ≤ graph.values.length := by
      rcases List.mem_append.mp hw with hin | hout
      · exact hop.inputs_exist w hin
      · exact hop.outputs_exist w hout
    obtain ⟨-, -, -, -, hne⟩ := paiTensorContiguousSize_spec (hbuilt.valueAt_wf hexist.1 hexist.2).size_eq
    exact Nat.pos_of_ne_zero fun hz => hne (UInt64.toNat_inj.mp hz)
  intro heq
  have hin := List.mem_append_left op.outputs hv
  have hne : v ≠ u := fun h => hop.inputs_disjoint v hv (h ▸ hu)
  refine hapart u hu v hin hne (valuePtr memPlan u) ⟨le_rfl, ?_⟩ ⟨heq.le, ?_⟩
  · exact Nat.lt_add_of_pos_right (hpos u (List.mem_append_right _ hu))
  · change valuePtr memPlan u < valuePtr memPlan v + _
    rw [heq]
    exact Nat.lt_add_of_pos_right (hpos v hin)

/-- The copy kernel between operands of one length. -/
lemma tracks_copy {n : ℕ} (hni : op.inputs.length = 1) (hno : op.outputs.length = 1)
    (hfits : 4 * n < 0x10000000000000000)
    (ha : Known (graph.inputCells op) (op.inputs.getD 0 0) 0 (4 * n))
    (hc : (graph.stepRelocation op memPlan memPlan' h h').Writable (op.outputs.getD 0 0) 0 (4 * n)) :
    Tracks .region (graph.stepRelocation op memPlan memPlan' h h')
      (fun _ T => Known T (op.outputs.getD 0 0) 0 (4 * n)) (graph.inputCells op)
      (paiRefCopyF32 (valuePtr memPlan (op.inputs.getD 0 0)) (valuePtr memPlan (op.outputs.getD 0 0)) n)
      (paiRefCopyF32 (valuePtr memPlan' (op.inputs.getD 0 0)) (valuePtr memPlan' (op.outputs.getD 0 0)) n) := by
  have hin := getD_mem (show 0 < op.inputs.length by omega)
  have hout := getD_mem (show 0 < op.outputs.length by omega)
  exact tracks_paiRefCopyF32 hfits (trackedInput h h' hbuilt hop hf32 (by omega)).at_ptr
    (trackedOutput h h' hbuilt hop hf32 hno).at_ptr (OpApart.ptr_ne hbuilt hop h hout hin)
    (OpApart.ptr_ne hbuilt hop h' hout hin) ha hc

/-- `CONVERT` between operands of one length. -/
lemma tracks_convert (hwhole : graph.ConvertWhole op) (hkind : op.kind = .convert) :
    StepTracks h h'
      (if op.inputs.length ≠ 1 ∨ op.outputs.length ≠ 1 ∨
          (graph.valueAt (op.inputs.getD 0 0)).dtype ≠ (graph.valueAt (op.outputs.getD 0 0)).dtype
       then .fail paiErrUnsupported
       else paiRefCopyF32 (valuePtr memPlan (op.inputs.getD 0 0)) (valuePtr memPlan (op.outputs.getD 0 0))
        (valueNelem (graph.valueAt (op.inputs.getD 0 0))).toNat)
      (if op.inputs.length ≠ 1 ∨ op.outputs.length ≠ 1 ∨
          (graph.valueAt (op.inputs.getD 0 0)).dtype ≠ (graph.valueAt (op.outputs.getD 0 0)).dtype
       then .fail paiErrUnsupported
       else paiRefCopyF32 (valuePtr memPlan' (op.inputs.getD 0 0)) (valuePtr memPlan' (op.outputs.getD 0 0))
        (valueNelem (graph.valueAt (op.inputs.getD 0 0))).toNat) := by
  split_ifs with hbad
  · exact .fail
  · simp only [not_or, not_not] at hbad
    obtain ⟨hni, hno, -⟩ := hbad
    have ha := trackedInput h h' hbuilt hop hf32 (j := 0) (by omega)
    have hc := trackedOutput h h' hbuilt hop hf32 hno
    have hfits := hc.fits
    have hwrite := hc.writable
    have hdone := hc.done
    rw [← hwhole hkind hni hno hf32] at hfits hwrite hdone
    rw [ha.wf.nelem]
    exact (tracks_copy hbuilt hop hf32 hni hno hfits ha.known hwrite).mono fun _ T hT => hdone T hT

end Kinds

/-! ## Rows and heads -/

/-- A value of rank one or two as rows of columns. -/
lemma GraphValue.count_rows {value : GraphValue} (h1 : 1 ≤ value.rank) (h2 : value.rank ≤ 2) :
    elementCount value.shape = (if value.rank = 2 then value.dim 0 else 1).toNat *
      (value.dim (value.rank - 1)).toNat := by
  rcases Nat.lt_or_ge value.rank 2 with hone | htwo
  · have hone : value.rank = 1 := by omega
    rw [GraphValue.count_rank_one hone, if_neg (by omega), hone]
    exact (Nat.one_mul _).symm
  · have htwo : value.rank = 2 := by omega
    rw [GraphValue.count_rank_two htwo, if_pos htwo, htwo]

/-- A value of rank two or three as positions of heads. -/
lemma GraphValue.count_heads {value : GraphValue} (h2 : 2 ≤ value.rank) (h3 : value.rank ≤ 3) :
    elementCount value.shape = (value.dim 0).toNat * (if value.rank = 3 then value.dim 1 else 1).toNat *
      (value.dim (value.rank - 1)).toNat := by
  rcases Nat.lt_or_ge value.rank 3 with htwo | hthree
  · have htwo : value.rank = 2 := by omega
    rw [GraphValue.count_rank_two htwo, if_neg (by omega), htwo]
    change _ = _ * 1 * _
    rw [Nat.mul_one]
  · have hthree : value.rank = 3 := by omega
    rw [GraphValue.count_rank_three hthree, if_pos hthree, hthree]

section Rows

variable {malloc : ℕ → Bool} {graph : Graph} {memPlan memPlan' : GraphMemPlan} {op : GraphOp}
  {h : graph.OpApart memPlan op} {h' : graph.OpApart memPlan' op}

variable (hbuilt : graph.Built) (hop : op.WellFormed graph.values.length) (hf32 : AllF32 graph op)

include hbuilt hop hf32

/-- `RMSNORM`, with or without gain. -/
lemma tracks_rmsnorm : StepTracks h h' (runRmsnorm graph memPlan op) (runRmsnorm graph memPlan' op) := by
  unfold runRmsnorm
  by_cases hbad : op.inputs.length < 1 ∨ 2 < op.inputs.length ∨ op.outputs.length ≠ 1 ∨
      (graph.valueAt (op.inputs.getD 0 0)).rank < 1 ∨ 2 < (graph.valueAt (op.inputs.getD 0 0)).rank
  · simp only [if_pos hbad]
    exact .fail
  simp only [if_neg hbad]
  simp only [not_or, not_lt, not_not] at hbad
  obtain ⟨hni, hni', hno, hrank, hrank'⟩ := hbad
  have ha := trackedInput h h' hbuilt hop hf32 (j := 0) (by omega)
  have hc := trackedOutput h h' hbuilt hop hf32 hno
  have hacount := GraphValue.count_rows hrank hrank'
  have hcols0 := ha.wf.dim_ne_zero (i := (graph.valueAt (op.inputs.getD 0 0)).rank - 1) (by omega)
  set rows := if (graph.valueAt (op.inputs.getD 0 0)).rank = 2
    then (graph.valueAt (op.inputs.getD 0 0)).dim 0 else 1 with hrows
  set cols := (graph.valueAt (op.inputs.getD 0 0)).dim
    ((graph.valueAt (op.inputs.getD 0 0)).rank - 1) with hcols
  by_cases hshape : (graph.valueAt (op.outputs.getD 0 0)).rank ≠ (graph.valueAt (op.inputs.getD 0 0)).rank ∨
      (graph.valueAt (op.outputs.getD 0 0)).dim ((graph.valueAt (op.inputs.getD 0 0)).rank - 1) ≠ cols ∨
      ((graph.valueAt (op.inputs.getD 0 0)).rank = 2 ∧ (graph.valueAt (op.outputs.getD 0 0)).dim 0 ≠ rows)
  · rw [if_pos hshape, if_pos hshape]
    exact .fail
  rw [if_neg hshape, if_neg hshape]
  simp only [not_or, not_not, not_and] at hshape
  obtain ⟨hcr, hcc, hc0⟩ := hshape
  have hccount : elementCount (graph.valueAt (op.outputs.getD 0 0)).shape = rows.toNat * cols.toNat := by
    rw [GraphValue.count_rows (by omega) (by omega), hcr, hcc, hrows]
    split_ifs with hr
    · rw [hc0 hr, hrows, if_pos hr]
    · rfl
  have hfits := hc.fits
  have hwrite := hc.writable
  have hdone := hc.done
  have hknown := ha.known
  rw [hccount] at hfits hwrite hdone
  rw [hacount] at hknown
  -- row by row
  have hall (kernel kernel' : ℕ → Kernel Unit)
      (hrow : ∀ row T, graph.inputCells op ⊆ T → row < rows.toNat → row * cols.toNat < 0x10000000000000000 →
        row * cols.toNat + cols.toNat ≤ rows.toNat * cols.toNat →
        Tracks .region (graph.stepRelocation op memPlan memPlan' h h')
          (fun _ T => Known T (op.outputs.getD 0 0) (0 + 4 * (row * cols.toNat)) (4 * cols.toNat)) T
          (kernel row) (kernel' row)) :
      StepTracks h h' (forUpTo rows.toNat kernel) (forUpTo rows.toNat kernel') := by
    refine Tracks.mono (tracks_forUpTo
      (I := fun row T => Known T (op.outputs.getD 0 0) 0 (4 * (row * cols.toNat))) ?_
      fun row T hT hlt hI => ?_) fun _ T hT => hdone T hT
    · rw [Nat.zero_mul]
      exact known_zero
    have hend : row * cols.toNat + cols.toNat ≤ rows.toNat * cols.toNat := by
      calc row * cols.toNat + cols.toNat = (row + 1) * cols.toNat := by rw [Nat.add_mul, Nat.one_mul]
        _ ≤ rows.toNat * cols.toNat := Nat.mul_le_mul_right _ hlt
    rw [Nat.add_mul, Nat.one_mul, Nat.mul_add]
    exact (hrow row T hT hlt (by omega) hend).grow.mono fun _ _ hdone => (hI.mono hdone.1).append hdone.2
  split_ifs with htwo hgain
  · exact .fail
  · simp only [not_or, not_not] at hgain
    have hg := trackedInput h h' hbuilt hop hf32 (j := 1) (by omega)
    have hgcount := GraphValue.count_rank_one hgain.1
    rw [hgain.2] at hgcount
    refine hall _ _ fun row T hT _ hfit hend => ?_
    rw [u64_of_lt hfit]
    exact tracks_paiRefRmsnormGammaF32 hcols0 (ha.at_ptr.shift _) (hc.at_ptr.shift _) hg.at_ptr
      ((hknown.mono hT).part (by omega)) ((hg.known_of_le hgcount.ge).mono hT) (hwrite.part (by omega))
  · refine hall _ _ fun row T hT _ hfit hend => ?_
    rw [u64_of_lt hfit]
    exact tracks_paiRefRmsnormF32 hcols0 (ha.at_ptr.shift _) (hc.at_ptr.shift _)
      ((hknown.mono hT).part (by omega)) (hwrite.part (by omega))

/-- `ROPE`. -/
lemma tracks_rope : StepTracks h h' (runRope graph memPlan op) (runRope graph memPlan' op) := by
  unfold runRope
  by_cases hbad : op.inputs.length ≠ 3 ∨ op.outputs.length ≠ 1 ∨
      (graph.valueAt (op.inputs.getD 0 0)).rank < 2 ∨ 3 < (graph.valueAt (op.inputs.getD 0 0)).rank ∨
      (graph.valueAt (op.outputs.getD 0 0)).rank ≠ (graph.valueAt (op.inputs.getD 0 0)).rank
  · simp only [if_pos hbad]
    exact .fail
  simp only [if_neg hbad]
  simp only [not_or, not_lt, not_not] at hbad
  obtain ⟨hni, hno, hrank, hrank', hcr⟩ := hbad
  have ha := trackedInput h h' hbuilt hop hf32 (j := 0) (by omega)
  have hco := trackedInput h h' hbuilt hop hf32 (j := 1) (by omega)
  have hsi := trackedInput h h' hbuilt hop hf32 (j := 2) (by omega)
  have hc := trackedOutput h h' hbuilt hop hf32 hno
  have hacount := GraphValue.count_heads hrank hrank'
  have hccount : elementCount (graph.valueAt (op.outputs.getD 0 0)).shape = _ :=
    GraphValue.count_heads (by omega) (by omega)
  have hheads0 : (if (graph.valueAt (op.inputs.getD 0 0)).rank = 3
      then (graph.valueAt (op.inputs.getD 0 0)).dim 1 else 1).toNat ≠ 0 := by
    split_ifs with hthree
    · exact ha.wf.dim_ne_zero (by omega)
    · decide
  set heads := if (graph.valueAt (op.inputs.getD 0 0)).rank = 3
    then (graph.valueAt (op.inputs.getD 0 0)).dim 1 else 1 with hheads
  split_ifs with hshape htables hsizes
  · exact .fail
  · exact .fail
  · exact .fail
  simp only [not_or, not_not, not_and] at hshape htables hsizes
  obtain ⟨hchd, hcseq, hcheads⟩ := hshape
  obtain ⟨hcor, hsir, hr2, hctx⟩ := htables
  obtain ⟨hrot, -, hseq, -, -, -⟩ := hsizes
  have hwidth : (if (graph.valueAt (op.outputs.getD 0 0)).rank = 3
      then (graph.valueAt (op.outputs.getD 0 0)).dim 1 else 1) = heads := by
    rw [hcr, hheads]
    split_ifs with hthree
    · rw [hcheads hthree, hheads, if_pos hthree]
    · rfl
  rw [hwidth, hcr, hchd, hcseq] at hccount
  have hhd0 := ha.wf.dim_ne_zero (i := (graph.valueAt (op.inputs.getD 0 0)).rank - 1) (by omega)
  have hseq0 := ha.wf.dim_ne_zero (i := 0) (by omega)
  have hr20 := hco.wf.dim_ne_zero (i := 1) (by omega)
  have hcocount := GraphValue.count_rank_two hcor
  have hsicount := GraphValue.count_rank_two hsir
  rw [← hr2, ← hctx] at hsicount
  have hle : 2 * ((graph.valueAt (op.inputs.getD 1 0)).dim 1).toNat ≤
      ((graph.valueAt (op.inputs.getD 0 0)).dim ((graph.valueAt (op.inputs.getD 0 0)).rank - 1)).toNat := by
    have hsize := hco.size
    have hlt := (graph.valueAt (op.inputs.getD 1 0)).sizeBytes.toNat_lt
    have hcols : ((graph.valueAt (op.inputs.getD 1 0)).dim 1).toNat ≤
        ((graph.valueAt (op.inputs.getD 1 0)).dim 0).toNat *
          ((graph.valueAt (op.inputs.getD 1 0)).dim 1).toNat :=
      Nat.le_mul_of_pos_left _ (Nat.pos_of_ne_zero (hco.wf.dim_ne_zero (by omega)))
    have hdouble : (2 * (graph.valueAt (op.inputs.getD 1 0)).dim 1).toNat =
        2 * ((graph.valueAt (op.inputs.getD 1 0)).dim 1).toNat := by
      rw [UInt64.toNat_mul, Nat.mod_eq_of_lt (by change 2 * _ < 2 ^ 64; omega)]
      rfl
    have hnot := UInt64.le_iff_toNat_le.mp (UInt64.not_lt.mp hrot)
    omega
  have hctxle := UInt64.le_iff_toNat_le.mp (UInt64.not_lt.mp hseq)
  have hfits := hc.fits
  have hwrite := hc.writable
  have hdone := hc.done
  have hknown := ha.known
  rw [hccount] at hfits hwrite hdone
  rw [hacount] at hknown
  rw [UInt64.toNat_div, hc.wf.nelem, hccount, Nat.mul_div_cancel _ (Nat.pos_of_ne_zero hhd0)]
  exact (tracks_paiRefRopeF32 hhd0 hseq0 hheads0 hr20 hle hctxle hfits ha.at_ptr hco.at_ptr hsi.at_ptr
    hc.at_ptr hknown (hco.known_of_le hcocount.ge) (hsi.known_of_le hsicount.ge) hwrite).mono
    fun _ T hT => hdone T hT

/-- `ATTENTION`. -/
lemma tracks_attention :
    StepTracks h h' (runAttention malloc graph memPlan op) (runAttention malloc graph memPlan' op) := by
  unfold runAttention
  by_cases hbad : op.inputs.length ≠ 3 ∨ op.outputs.length ≠ 1 ∨
      (graph.valueAt (op.inputs.getD 0 0)).rank ≠ 3 ∨ (graph.valueAt (op.inputs.getD 1 0)).rank ≠ 3 ∨
      (graph.valueAt (op.outputs.getD 0 0)).rank ≠ 3
  · simp only [if_pos hbad]
    exact .fail
  simp only [if_neg hbad]
  simp only [not_or, not_not] at hbad
  obtain ⟨hni, hno, har, hbr, hcr⟩ := hbad
  have ha := trackedInput h h' hbuilt hop hf32 (j := 0) (by omega)
  have hb := trackedInput h h' hbuilt hop hf32 (j := 1) (by omega)
  have hv := trackedInput h h' hbuilt hop hf32 (j := 2) (by omega)
  have hc := trackedOutput h h' hbuilt hop hf32 hno
  split_ifs with hshape
  · exact .fail
  simp only [not_or, not_not] at hshape
  obtain ⟨hb0, hb2, hvr, hv0, hv1, hv2, hc0, hc1, hc2, -, -, hmod⟩ := hshape
  have hacount := GraphValue.count_rank_three har
  have hbcount := GraphValue.count_rank_three hbr
  have hvcount := GraphValue.count_rank_three hvr
  have hccount := GraphValue.count_rank_three hcr
  rw [hb0, hb2] at hbcount
  rw [hv0, hv1, hv2] at hvcount
  rw [hc0, hc1, hc2] at hccount
  have hseq0 := ha.wf.dim_ne_zero (i := 0) (by omega)
  have hh0 := ha.wf.dim_ne_zero (i := 1) (by omega)
  have hd0 := ha.wf.dim_ne_zero (i := 2) (by omega)
  have hk0 := hb.wf.dim_ne_zero (i := 1) (by omega)
  have hmod' : ((graph.valueAt (op.inputs.getD 0 0)).dim 1).toNat %
      ((graph.valueAt (op.inputs.getD 1 0)).dim 1).toNat = 0 := by
    rw [← UInt64.toNat_mod, hmod]
    rfl
  by_cases hmalloc : malloc (u64 (((graph.valueAt (op.inputs.getD 0 0)).dim 0).toNat * 4)) = true
  · have hfits := hc.fits
    have hwrite := hc.writable
    have hdone := hc.done
    rw [hccount] at hfits hwrite hdone
    exact (tracks_paiRefAttentionF32 hh0 hk0 hseq0 hd0 hmod' hmalloc hfits ha.at_ptr hb.at_ptr hv.at_ptr
      hc.at_ptr (ha.known_of_le hacount.ge) (hb.known_of_le hbcount.ge) (hv.known_of_le hvcount.ge)
      hwrite).mono fun _ T hT => hdone T hT
  · have hgood : ¬ (((graph.valueAt (op.inputs.getD 0 0)).dim 1).toNat = 0 ∨
        ((graph.valueAt (op.inputs.getD 1 0)).dim 1).toNat = 0 ∨
        ((graph.valueAt (op.inputs.getD 0 0)).dim 0).toNat = 0 ∨
        ((graph.valueAt (op.inputs.getD 0 0)).dim 2).toNat = 0 ∨
        ((graph.valueAt (op.inputs.getD 0 0)).dim 1).toNat %
          ((graph.valueAt (op.inputs.getD 1 0)).dim 1).toNat ≠ 0) := by tauto
    rw [Bool.not_eq_true] at hmalloc
    rw [paiRefAttentionF32, paiRefAttentionF32, if_neg hgood, if_neg hgood, if_pos hmalloc, if_pos hmalloc]
    exact .fail

/-- Every kind, `CONVERT` when it fills its output. -/
lemma tracks_runKind (hwhole : graph.ConvertWhole op) :
    StepTracks h h' (runKind malloc graph memPlan op) (runKind malloc graph memPlan' op) := by
  cases hkind : op.kind <;> simp only [runKind, hkind]
  case none => exact .fail
  case add => exact tracks_binary hbuilt hop hf32 _
  case mul => exact tracks_binary hbuilt hop hf32 _
  case gemm => exact tracks_gemm hbuilt hop hf32 false
  case gemv => exact tracks_gemm hbuilt hop hf32 true
  case matmul => exact tracks_gemm hbuilt hop hf32 false
  case relu =>
    refine tracks_unary hbuilt hop hf32 fun n _ _ _ hn _ ha hc hknown hwrite => ?_
    rw [← hn]
    exact tracks_mapKernel ha.at_ptr hc.at_ptr hknown hwrite
  case softmax =>
    refine tracks_unary hbuilt hop hf32 fun n _ _ hne hn _ ha hc hknown hwrite => ?_
    rw [← hn]
    exact tracks_paiRefSoftmaxF32 hne ha.at_ptr hc.at_ptr hknown hwrite
  case layernorm =>
    refine tracks_unary hbuilt hop hf32 fun n _ _ hne hn _ ha hc hknown hwrite => ?_
    rw [← hn]
    exact tracks_paiRefLayernormF32 hne ha.at_ptr hc.at_ptr hknown hwrite
  case rmsnorm => exact tracks_rmsnorm hbuilt hop hf32
  case rope => exact tracks_rope hbuilt hop hf32
  case attention => exact tracks_attention hbuilt hop hf32
  case reshape =>
    refine tracks_unary hbuilt hop hf32 fun n hni hno _ hn hfits _ _ hknown hwrite => ?_
    rw [← hn]
    exact tracks_copy hbuilt hop hf32 hni hno hfits hknown hwrite
  case concat => exact tracks_concat hbuilt hop hf32
  case convert => exact tracks_convert hbuilt hop hf32 hwhole hkind
  case copy =>
    refine tracks_unary hbuilt hop hf32 fun n hni hno _ hn hfits _ _ hknown hwrite => ?_
    rw [← hn]
    exact tracks_copy hbuilt hop hf32 hni hno hfits hknown hwrite
  case silu =>
    refine tracks_unary hbuilt hop hf32 fun n _ _ _ hn _ ha hc hknown hwrite => ?_
    rw [← hn]
    exact tracks_mapKernel ha.at_ptr hc.at_ptr hknown hwrite
  case custom => exact .fail

end Rows

/-! ## Steps -/

section Steps

variable {malloc : ℕ → Bool} {graph : Graph} {memPlan memPlan' : GraphMemPlan} {op : GraphOp}

/-- A step under two plans: the type check and the kernel of the kind. -/
lemma tracks_runOp (hbuilt : graph.Built) (hop : op.WellFormed graph.values.length)
    (hwhole : graph.ConvertWhole op) (h : graph.OpApart memPlan op) (h' : graph.OpApart memPlan' op) :
    StepTracks h h' (runOp malloc graph memPlan op) (runOp malloc graph memPlan' op) := by
  unfold runOp
  split_ifs with hbad
  · exact .fail
  · simp only [not_or, List.any_eq_true, not_exists, not_and, decide_eq_true_eq, not_not] at hbad
    refine tracks_runKind hbuilt hop (fun id hid => ?_) hwhole
    rcases List.mem_append.mp hid with hin | hout
    · exact hbad.1 id hin
    · exact hbad.2 id hout

end Steps

end Prospero
