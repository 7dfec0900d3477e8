import Prospero.Models.Embed

/-!
# Output rows of the embedding's op

The layout of the embedding matrix is guessed from its extents and the executor's is fixed by the op.
`RowsMatch` says that the output rows on one-hot input rows are the vectors read from a stored matrix, and
`AlignedWith` when that is so (`rowsMatch_iff`).

With the input as the row vector of a `GEMM` or `MATMUL` the layouts are the same.  A `GEMV` multiplies from
the other side, so that a square matrix is read by rows where the op computes with a column; an input on the
right is multiplied by the matrix from the left, where no row of the matrix is an output row.

### Outline

* `embedMatrix_spec` : the loaded matrix is the stored one.
* `Runs.product` : an op that executes is a product of the input and the parameter.
* one lemma `rowsMatch_…` for each place of the input.
-/

namespace Prospero

open Buffer ByteString Footprint Reader

/-! ## Alignment -/

section Statements

variable {R : Type} [Field R] (value : UInt32 → R) (model : Model) (found : EmbedParam) (op : GraphOp)
  (input : ℕ) (mem : Memory Space)

/-- Element `i` of the parameter in the region. -/
def regionElement (i : ℕ) : R :=
  value (mem.word .region (valuePtr model.memPlan found.valueId + 4 * i))

/-- The matrix in the region and the stored matrix `stored` agree where the op and the embedding path
read them. -/
def AlignedWith (stored : ℕ → R) : Prop :=
  let vocab := model.info.vocabSize.toNat
  let dim := found.dim.toNat
  let region := regionElement value model found mem
  if found.valueId = input then vocab = 1 ∧ stored 0 = 1
  else if op.kind = .gemv then
    ∀ t < vocab, ∀ d < dim,
      region (d * vocab + t) = stored (if found.rowMajor then t * dim + d else d * vocab + t)
  else if found.inputAt = 0 then
    ∀ t < vocab, ∀ d < dim, region (t * dim + d) = stored (t * dim + d)
  else
    dim = vocab ∧ found.rowMajor = true ∧ ∀ r < vocab,
      (∀ k < vocab, k ≠ r → region (r * vocab + k) = 0) ∧
        ∀ t < vocab, ∀ j < vocab,
          stored (t * vocab + j) = if j = t then region (r * vocab + r) else 0

end Statements

/-! ## The loaded matrix -/

section Matrix

variable {R : Type} {value : UInt32 → R} {malloc : ℕ → Bool} {model : Model} {found : EmbedParam}
  {inputId : ℕ} {io : IrOp} {iv : IrValue} {mem : Memory Space}

/-- The extents of a matrix. -/
lemma IrValue.extents_of_rank_two {iv : IrValue} (h : iv.rank = 2) :
    iv.extents = [iv.shape.val.getD 0 0, iv.shape.val.getD 1 0] := by
  unfold IrValue.extents
  rw [h]
  obtain ⟨dims, hdims⟩ := iv.shape
  obtain _ | ⟨a, _ | ⟨b, rest⟩⟩ := dims
  · cases hdims
  · cases hdims
  · rfl

/-- The extents the parameter has in the program. -/
lemma EmbedFound.extents (h : EmbedFound model found inputId io iv) :
    iv.extents = [iv.shape.val.getD 0 0, iv.shape.val.getD 1 0] ∧
      iv.shape.val.getD 0 0 = (if found.rowMajor then model.info.vocabSize.toUInt64 else found.dim) ∧
      iv.shape.val.getD 1 0 = (if found.rowMajor then found.dim else model.info.vocabSize.toUInt64) := by
  refine ⟨IrValue.extents_of_rank_two h.value.2.2, ?_⟩
  have hlayout := h.layout
  split_ifs at hlayout ⊢
  · exact hlayout
  · exact ⟨hlayout.2.2, hlayout.2.1⟩

/-- The elements of the parameter are those of the embedding. -/
lemma EmbedFound.numel (h : EmbedFound model found inputId io iv) (hopen : model.Opened) :
    iv.numel = found.dim.toNat * model.info.vocabSize.toNat := by
  obtain ⟨hext, hfirst, hsecond⟩ := h.extents
  have hnumel : iv.numel = elementCount iv.extents := hopen.numel h.value.1
  rw [hnumel, hext, hfirst, hsecond, elementCount]
  have hvocab : model.info.vocabSize.toUInt64.toNat = model.info.vocabSize.toNat :=
    UInt32.toNat_toUInt64 _
  split_ifs
  · simp [hvocab, Nat.mul_comm]
  · simp [hvocab]

/-- The embedding has a dimension. -/
lemma EmbedFound.dim_ne (h : EmbedFound model found inputId io iv) (hload : iv.numel ≠ 0)
    (hopen : model.Opened) : found.dim ≠ 0 := by
  rintro hz
  rw [h.numel hopen, hz] at hload
  exact hload (Nat.zero_mul _)

/-- The matrix that is loaded is the stored one, and it is loaded when the checks pass. -/
lemma embedMatrix_spec (hfind : findEmbedParam model = some found)
    (h : EmbedFound model found inputId io iv) (maxElements : ℕ) (f : EmbedParam) (mat : ℕ → R) :
    embedMatrix value malloc model maxElements mem = .ok (f, mat) →
      f = found ∧ found.dim ≤ 0xFFFFFFFF ∧ ∃ t, LoadAccepted malloc model found.valueId t iv ∧
        ∀ i < found.dim.toNat * model.info.vocabSize.toNat, mat i = value (storedWord mem t iv i) := by
  unfold embedMatrix
  rw [hfind]
  simp only
  split_ifs with hdim hmax
  · exact fun h => absurd h (by simp)
  · exact fun h => absurd h (by simp)
  rcases hrun : (loadValueF32 model malloc found.valueId).run mem with ⟨e | n, mem'⟩
  · exact fun h => absurd h (by simp)
  simp only
  split_ifs with hn
  · exact fun h => absurd h (by simp)
  intro hres
  cases hres
  obtain ⟨t, iv', hload⟩ := LoadAccepted.of_run hrun
  obtain rfl : iv = iv' := Option.some.inj (h.value.1.symm.trans hload.value)
  obtain ⟨hnumel, hfill⟩ := (loadValueF32_leaves hload).of_run hrun
  rw [not_or, UInt64.not_lt] at hdim
  refine ⟨rfl, hdim.2, t, hload, fun i hi => ?_⟩
  have hword := hfill.inside i (by rw [← hnumel, not_not.mp hn]; exact hi)
  rw [Nat.zero_add] at hword
  exact congrArg value hword

lemma exists_embedMatrix (hopen : model.Opened) (hfind : findEmbedParam model = some found)
    (h : EmbedFound model found inputId io iv) {t : PaiTensor}
    (hload : LoadAccepted malloc model found.valueId t iv) (hdim : found.dim ≤ 0xFFFFFFFF) :
    ∃ mat, embedMatrix value malloc model found.dim.toNat mem = .ok (found, mat) ∧
      ∀ i < found.dim.toNat * model.info.vocabSize.toNat, mat i = value (storedWord mem t iv i) := by
  have hleaves : (loadValueF32 model malloc found.valueId).Leaves mem _ := loadValueF32_leaves hload
  obtain ⟨n, mem', hrun, hnumel, hfill⟩ := hleaves
  refine ⟨fun i => value (mem'.word .scratch (4 * i)), ?_, fun i hi => ?_⟩
  · unfold embedMatrix
    rw [hfind]
    simp only
    rw [if_neg (not_or.mpr ⟨h.dim_ne hload.numel_ne hopen, UInt64.not_lt.mpr hdim⟩),
      if_neg (Nat.lt_irrefl _), hrun]
    simp only
    rw [if_neg (by rw [hnumel, h.numel hopen, not_not])]
  · have hword := hfill.inside i (by rw [h.numel hopen]; exact hi)
    rw [Nat.zero_add] at hword
    exact congrArg value hword

end Matrix

/-! ## Output rows -/

/-- The graph runs the program of the model. -/
structure Runs (model : Model) (graph : Graph) : Prop where
  /-- The graph is well formed. -/
  built : graph.Built
  /-- It has the values of the program. -/
  values : HasValues graph model.ir.values
  /-- It has the ops of the program. -/
  ops : HasOps graph model.ir.ops

section Runs

variable {model : Model} {graph : Graph}

/-- The shape of a value of the program. -/
lemma Runs.shape (h : Runs model graph) {id : ℕ} (h1 : 1 ≤ id) {iv : IrValue}
    (hiv : model.ir.valueAt id = some iv) : (graph.valueAt id).shape = iv.extents := by
  rw [IrProgram.valueAt, if_neg (by omega)] at hiv
  have hdesc := congrArg (fun l => l[id - 1]?) h.values
  simp only [List.getElem?_map, hiv, Option.map_some] at hdesc
  obtain ⟨v, hv, heq⟩ := Option.map_eq_some_iff.mp hdesc
  rw [Graph.valueAt, Graph.value?, if_neg (by omega), hv]
  exact congrArg (fun d => d.2.1) heq

/-- The op of the parameter consumes it and the input, writes another value, and its sizes agree. -/
structure Product (graph : Graph) (found : EmbedParam) (op : GraphOp) (input a b c m n k : ℕ) : Prop where
  /-- Every operand is `f32`. -/
  f32 : AllF32 graph op
  /-- The consumed values. -/
  inputs : op.inputs = [a, b]
  /-- The produced value. -/
  outputs : op.outputs = [c]
  /-- The output is no input. -/
  apart : a ≠ c ∧ b ≠ c
  /-- The sizes. -/
  dims : gemmDims (graph.valueAt a) (graph.valueAt b) (graph.valueAt c) (op.kind = .gemv) = some (m, n, k)
  /-- They are positive. -/
  pos : m ≠ 0 ∧ n ≠ 0 ∧ k ≠ 0
  /-- The left operand has as many elements as the product needs. -/
  count_left : elementCount (graph.valueAt a).shape = m * k
  /-- The right one, too. -/
  count_right : elementCount (graph.valueAt b).shape = k * n
  /-- One operand is the input, the other one the parameter. -/
  operands : found.inputAt = 0 ∧ a = input ∧ b = found.valueId ∨
    found.inputAt ≠ 0 ∧ b = input ∧ a = found.valueId
  /-- The parameter exists. -/
  param_pos : 1 ≤ found.valueId

/-- An op that executes is such a product. -/
lemma Runs.product (h : Runs model graph) {found : EmbedParam} {input : ℕ} {io : IrOp} {iv : IrValue}
    (hfound : EmbedFound model found input io iv) {op : GraphOp} (hop : graph.op? found.op = some op)
    {malloc : ℕ → Bool} {mem mem' : Memory Space}
    (hexec : (runOp malloc graph model.memPlan op).run mem = (.ok (), mem')) :
    (op.kind = .gemm ∨ op.kind = .gemv ∨ op.kind = .matmul) ∧
      ∃ a b c m n k, Product graph found op input a b c m n k := by
  obtain ⟨op', hop', hdesc⟩ := h.ops.op? hfound.op_at.1 hfound.op_at.2
  obtain rfl : op = op' := Option.some.inj (hop.symm.trans hop')
  have hkind : op.kind = .gemm ∨ op.kind = .gemv ∨ op.kind = .matmul := by
    have hk : op.kind = irToGraphKind io.kind := congrArg (fun d => d.1) hdesc
    rcases hfound.kind with hio | hio | hio
    · exact Or.inl (hk.trans (congrArg irToGraphKind hio))
    · exact Or.inr (Or.inl (hk.trans (congrArg irToGraphKind hio)))
    · exact Or.inr (Or.inr (hk.trans (congrArg irToGraphKind hio)))
  refine ⟨hkind, ?_⟩
  obtain ⟨hf32, a, b, c, ⟨m, n, k⟩, hin, hout, hdims⟩ := runOp_product hkind hexec
  have hwf := h.built.op_wf hop
  have hmem (id : ℕ) (hid : id ∈ op.inputs) : id ≠ c ∧ (graph.valueAt id).WellFormed := by
    constructor
    · rintro rfl
      exact hwf.inputs_disjoint id hid (by rw [hout]; exact List.mem_singleton_self id)
    · exact h.built.valueAt_wf (hwf.inputs_exist id hid).1 (hwf.inputs_exist id hid).2
  obtain ⟨hac, ha⟩ := hmem a (by rw [hin]; exact List.mem_cons_self)
  obtain ⟨hbc, hb⟩ := hmem b (by rw [hin]; exact List.mem_cons_of_mem a (List.mem_singleton_self b))
  obtain ⟨hm, hn, hk, hleft, hright, -⟩ := gemmDims_spec ha hb hdims
  have hinputs : op.inputs = io.inputs.map UInt16.toNat := congrArg (fun d => d.2.1) hdesc
  have hparam : 1 ≤ found.valueId := by
    have hmem := List.mem_of_getElem? hfound.param_at.1
    rw [← hinputs] at hmem
    exact (hwf.inputs_exist _ hmem).1
  refine ⟨a, b, c, m, n, k, hf32, hin, hout, ⟨hac, hbc⟩, hdims, ⟨hm, hn, hk⟩, hleft, hright, ?_, hparam⟩
  -- the two positions are different ones of a list of two
  have hi := hfound.input_at
  obtain ⟨hp, hne⟩ := hfound.param_at
  rw [← hinputs, hin] at hi hp
  have hilt := (List.getElem?_eq_some_iff.mp hi).1
  have hplt := (List.getElem?_eq_some_iff.mp hp).1
  simp only [List.length_cons, List.length_nil] at hilt hplt
  rcases Nat.eq_zero_or_pos found.inputAt with hz | hpos
  · rw [hz] at hi
    rw [show found.paramAt = 1 by omega] at hp
    exact Or.inl ⟨hz, Option.some.inj hi, Option.some.inj hp⟩
  · rw [show found.inputAt = 1 by omega] at hi
    rw [show found.paramAt = 0 by omega] at hp
    exact Or.inr ⟨by omega, Option.some.inj hi, Option.some.inj hp⟩

end Runs

section Rows

variable {R : Type} [Field R] [LinearOrder R] {value : UInt32 → R} {model : Model} {graph : Graph}
  {found : EmbedParam} {op : GraphOp} {input a b c m n k : ℕ} {mem : Memory Space} {x : ℕ → R} {r t : ℕ}

/-- An operand of the op on the input `x`. -/
def operand (value : UInt32 → R) (model : Model) (graph : Graph) (input : ℕ) (mem : Memory Space)
    (x : ℕ → R) (id i : ℕ) : R :=
  Exact.readF32 (Exact.fillF32 (planned value model.memPlan mem) (some input)
    (elementCount (graph.valueAt input).shape) x) (some id) i

omit [LinearOrder R] in
lemma operand_input {i : ℕ} (hi : i < elementCount (graph.valueAt input).shape) :
    operand value model graph input mem x input i = x i := by
  rw [operand, Exact.readF32, Exact.fillF32, Arrays.Store.fill_self, if_pos hi]

omit [LinearOrder R] in
lemma operand_param (hne : found.valueId ≠ input) (i : ℕ) :
    operand value model graph input mem x found.valueId i = regionElement value model found mem i :=
  Exact.readF32_fill_ne _ x (fun h => hne (Option.some.inj h)) i

/-- The sizes of a product with two matrices, or a row vector and a matrix. -/
lemma gemmDims_false {a b c : GraphValue} (h : gemmDims a b c false = some (m, n, k)) :
    (a.rows = m ∧ a.cols = k) ∧ (b.rank = 2 ∧ b.rows = k ∧ b.cols = n) ∧ c.rows = m ∧ c.cols = n := by
  unfold gemmDims at h
  simp only [Bool.false_eq_true, if_false] at h
  unfold GraphValue.rows GraphValue.cols
  split_ifs at h with harank hb hcrank hdims hcrank2 hdims hrank hdims <;> cases h <;>
    simp only [not_or, not_not] at *
  · simp [harank, hb, hcrank, hdims]
  · simp [harank, hb, hcrank2, hdims]
  · simp [hrank, hdims]

/-- The sizes of a product of a matrix and a column vector. -/
lemma gemmDims_true {a b c : GraphValue} (h : gemmDims a b c true = some (m, n, k)) :
    n = 1 ∧ (a.rows = m ∧ a.cols = k) ∧ (b.rank = 1 ∧ b.cols = k) ∧ c.rows = 1 ∧ c.cols = m := by
  unfold gemmDims at h
  simp only [if_true] at h
  unfold GraphValue.rows GraphValue.cols
  split_ifs at h with hrank hdims
  cases h
  simp only [not_or, not_not] at hrank hdims
  simp [hrank, hdims]

/-- An output row of a product with two matrices, or a row vector and a matrix. -/
lemma outputRow_product (h : Product graph found op input a b c m n k) (hkind : op.kind ≠ .gemv)
    (hr : r < m) :
    outputRow value graph model.memPlan op input mem x r = (List.range n).map fun j =>
      ∑ l ∈ Finset.range k, operand value model graph input mem x a (r * k + l) *
        operand value model graph input mem x b (l * n + j) := by
  have hdims := h.dims
  rw [decide_eq_false hkind] at hdims
  obtain ⟨-, -, -, hcols⟩ := gemmDims_false hdims
  unfold outputRow
  rw [h.outputs]
  simp only [List.getD_cons_zero, hcols]
  apply List.map_congr_left
  intro j hj
  exact readF32_runProduct h.f32 h.inputs h.outputs h.apart.1 h.apart.2 h.dims h.pos.1 h.pos.2.1
    h.pos.2.2 _ hr (List.mem_range.mp hj)

/-- The output of a product of a matrix and a column vector. -/
lemma outputRow_gemv (h : Product graph found op input a b c m n k) (hkind : op.kind = .gemv) :
    outputRow value graph model.memPlan op input mem x 0 = (List.range m).map fun d =>
      ∑ l ∈ Finset.range k, operand value model graph input mem x a (d * k + l) *
        operand value model graph input mem x b l := by
  have hdims := h.dims
  rw [decide_eq_true hkind] at hdims
  obtain ⟨rfl, -, -, -, hcols⟩ := gemmDims_true hdims
  unfold outputRow
  rw [h.outputs]
  simp only [List.getD_cons_zero, hcols]
  apply List.map_congr_left
  intro d hd
  have hentry := readF32_runProduct h.f32 h.inputs h.outputs h.apart.1 h.apart.2 h.dims h.pos.1
    h.pos.2.1 h.pos.2.2 (Exact.fillF32 (planned value model.memPlan mem) (some input)
      (elementCount (graph.valueAt input).shape) x) (List.mem_range.mp hd) Nat.zero_lt_one
  rw [Nat.mul_one, Nat.add_zero] at hentry
  rw [Nat.zero_mul, Nat.zero_add, hentry]
  unfold Exact.gemmEntry operand
  simp only [Nat.mul_one, Nat.add_zero]

omit [LinearOrder R] in
/-- A sum against a one-hot vector. -/
lemma sum_oneHot {f g : ℕ → R} (hf : ∀ l < k, f l = if l = t then 1 else 0) (ht : t < k) :
    ∑ l ∈ Finset.range k, f l * g l = g t := by
  rw [Finset.sum_eq_single_of_mem t (Finset.mem_range.mpr ht)]
  · rw [hf t ht, if_pos rfl, one_mul]
  · intro l hl hne
    rw [hf l (Finset.mem_range.mp hl), if_neg hne, zero_mul]

end Rows

/-! ## The places of the input -/

section Places

variable {R : Type} [Field R] [LinearOrder R] {value : UInt32 → R} {model : Model} {graph : Graph}
  {found : EmbedParam} {op : GraphOp} {input a b c m n k : ℕ} {io : IrOp} {iv : IrValue}
  {mem : Memory Space} {stored : ℕ → R}

/-- Every output row on a one-hot input row is the vector read from `stored`. -/
def RowsMatch (value : UInt32 → R) (model : Model) (graph : Graph) (found : EmbedParam) (op : GraphOp)
    (input : ℕ) (mem : Memory Space) (stored : ℕ → R) : Prop :=
  ∀ t < model.info.vocabSize.toNat, ∀ r, r < (graph.valueAt input).rows →
    r < (graph.valueAt (op.outputs.getD 0 0)).rows →
    ∀ x, OneHotRow x model.info.vocabSize.toNat r t →
      outputRow value graph model.memPlan op input mem x r =
        tokenVector found stored model.info.vocabSize.toNat t

/-- An input with row `r` the one-hot vector of `t`, and nothing else. -/
def oneHotInput (vocab r t : ℕ) (i : ℕ) : R := if i = r * vocab + t then 1 else 0

omit [LinearOrder R] in
lemma oneHotRow_oneHotInput (vocab r t : ℕ) : OneHotRow (oneHotInput (R := R) vocab r t) vocab r t := by
  intro j _
  unfold oneHotInput
  simp only [Nat.add_left_cancel_iff]

/-- The parameter as the executor sees it. -/
lemma EmbedFound.rows_cols (hfound : EmbedFound model found input io iv) (hruns : Runs model graph)
    (hpos : 1 ≤ found.valueId) :
    (graph.valueAt found.valueId).rank = 2 ∧
      (graph.valueAt found.valueId).rows =
        (if found.rowMajor then model.info.vocabSize.toNat else found.dim.toNat) ∧
      (graph.valueAt found.valueId).cols =
        (if found.rowMajor then found.dim.toNat else model.info.vocabSize.toNat) ∧
      (found.rowMajor = false → found.dim.toNat ≠ model.info.vocabSize.toNat) := by
  obtain ⟨hext, hfirst, hsecond⟩ := hfound.extents
  have hshape := (hruns.shape hpos hfound.value.1).trans hext
  have hvocab : model.info.vocabSize.toUInt64.toNat = model.info.vocabSize.toNat :=
    UInt32.toNat_toUInt64 _
  have hrank : (graph.valueAt found.valueId).rank = 2 := congrArg List.length hshape
  have h0 : (graph.valueAt found.valueId).dim 0 = iv.shape.val.getD 0 0 := by
    rw [GraphValue.dim, hshape]
    rfl
  have h1 : (graph.valueAt found.valueId).dim 1 = iv.shape.val.getD 1 0 := by
    rw [GraphValue.dim, hshape]
    rfl
  refine ⟨hrank, ?_, ?_, ?_⟩
  · rw [GraphValue.rows, if_pos hrank, h0, hfirst]
    split_ifs
    · exact hvocab
    · rfl
  · rw [GraphValue.cols, hrank, h1, hsecond]
    split_ifs
    · rfl
    · exact hvocab
  · intro hrow heq
    have hlayout := hfound.layout
    rw [hrow] at hlayout
    simp only [Bool.false_eq_true, if_false] at hlayout
    apply hlayout.1
    rw [hlayout.2.2]
    exact UInt64.toNat_inj.mp (heq.trans hvocab.symm)

omit [Field R] [LinearOrder R] in
lemma tokenVector_eq_iff {f : ℕ → R} {d t : ℕ} (hd : d = found.dim.toNat) (vocab : ℕ) :
    (List.range d).map f = tokenVector found stored vocab t ↔
      ∀ e < found.dim.toNat, f e = tokenElement found stored vocab t e := by
  subst hd
  unfold tokenVector
  rw [List.map_inj_left]
  simp only [List.mem_range]

variable (hruns : Runs model graph) (hfound : EmbedFound model found input io iv)
  (hprod : Product graph found op input a b c m n k)
  (hcols : (graph.valueAt input).cols = model.info.vocabSize.toNat)

include hruns hfound hprod hcols

/-- The input on the left of a `GEMM` or `MATMUL`. -/
lemma rowsMatch_left (hkind : op.kind ≠ .gemv) (hat : found.inputAt = 0) (hne : found.valueId ≠ input) :
    RowsMatch value model graph found op input mem stored ↔
      ∀ t < model.info.vocabSize.toNat, ∀ d < found.dim.toNat,
        regionElement value model found mem (t * found.dim.toNat + d) =
          stored (t * found.dim.toNat + d) := by
  obtain ⟨rfl, rfl⟩ : a = input ∧ b = found.valueId := by
    rcases hprod.operands with ⟨-, ha, hb⟩ | ⟨hz, -, -⟩
    · exact ⟨ha, hb⟩
    · exact absurd hat hz
  have hdims := hprod.dims
  rw [decide_eq_false hkind] at hdims
  obtain ⟨⟨harows, hacols⟩, ⟨-, hbrows, hbcols⟩, hcrows, -⟩ := gemmDims_false hdims
  obtain ⟨-, hprows, hpcols, hsquare⟩ := hfound.rows_cols hruns hprod.param_pos
  obtain rfl : k = model.info.vocabSize.toNat := hacols.symm.trans hcols
  have hrow : found.rowMajor = true := by
    by_contra hrow
    rw [Bool.not_eq_true] at hrow
    rw [hrow, if_neg Bool.false_ne_true] at hprows
    exact hsquare hrow (hprows.symm.trans hbrows)
  rw [hrow, if_pos rfl] at hpcols
  have hn : n = found.dim.toNat := hbcols.symm.trans hpcols
  -- the row of the matrix that the one-hot vector picks
  have hpick (t : ℕ) (ht : t < model.info.vocabSize.toNat) (r : ℕ) (hr : r < m) (x : ℕ → R)
      (hx : OneHotRow x model.info.vocabSize.toNat r t) :
      outputRow value graph model.memPlan op a mem x r = (List.range n).map fun d =>
        regionElement value model found mem (t * n + d) := by
    rw [outputRow_product hprod hkind hr]
    apply List.map_congr_left
    intro d _
    rw [sum_oneHot (t := t) (fun l hl => ?_) ht, operand_param hne]
    rw [operand_input (by rw [hprod.count_left]; exact Exact.row_lt hr hl)]
    exact hx l hl
  unfold RowsMatch
  rw [hprod.outputs]
  simp only [List.getD_cons_zero, harows, hcrows]
  constructor
  · intro h t ht d hd
    have hm : 0 < m := Nat.pos_of_ne_zero hprod.pos.1
    have hvec := h t ht 0 hm hm _ (oneHotRow_oneHotInput _ 0 t)
    rw [hpick t ht 0 hm _ (oneHotRow_oneHotInput _ 0 t), tokenVector_eq_iff hn] at hvec
    have helem := hvec d hd
    rwa [tokenElement, hrow, if_pos rfl, hn] at helem
  · intro h t ht r hr _ x hx
    rw [hpick t ht r hr x hx, tokenVector_eq_iff hn]
    intro d hd
    rw [tokenElement, hrow, if_pos rfl, hn]
    exact h t ht d hd

/-- The input of a `GEMV`. -/
lemma rowsMatch_gemv (hkind : op.kind = .gemv) :
    found.valueId ≠ input ∧ (RowsMatch value model graph found op input mem stored ↔
      ∀ t < model.info.vocabSize.toNat, ∀ d < found.dim.toNat,
        regionElement value model found mem (d * model.info.vocabSize.toNat + t) =
          stored (if found.rowMajor then t * found.dim.toNat + d
            else d * model.info.vocabSize.toNat + t)) := by
  have hdims := hprod.dims
  rw [decide_eq_true hkind] at hdims
  obtain ⟨-, ⟨harows, hacols⟩, ⟨hbrank, hbcols⟩, hcrows, -⟩ := gemmDims_true hdims
  obtain ⟨hprank, hprows, hpcols, -⟩ := hfound.rows_cols hruns hprod.param_pos
  -- the matrix is on the left, as its rank is two
  obtain ⟨rfl, rfl⟩ : b = input ∧ a = found.valueId := by
    rcases hprod.operands with ⟨-, -, hb⟩ | ⟨-, hb, ha⟩
    · rw [hb, hprank] at hbrank
      exact absurd hbrank (by decide)
    · exact ⟨hb, ha⟩
  have hne : found.valueId ≠ b := by
    intro heq
    rw [heq, hbrank] at hprank
    exact absurd hprank (by decide)
  refine ⟨hne, ?_⟩
  obtain rfl : k = model.info.vocabSize.toNat := hbcols.symm.trans hcols
  have hm : m = found.dim.toNat := by
    rw [← harows, hprows]
    split_ifs with hrow
    · rw [hacols, if_pos hrow] at hpcols
      exact hpcols
    · rfl
  have hbrows : (graph.valueAt b).rows = 1 := by
    rw [GraphValue.rows, if_neg (by omega)]
  have hcount : elementCount (graph.valueAt b).shape = model.info.vocabSize.toNat := by
    rw [GraphValue.count_rank_one hbrank, ← hbcols, GraphValue.cols, hbrank]
  have hpick (t : ℕ) (ht : t < model.info.vocabSize.toNat) (x : ℕ → R)
      (hx : OneHotRow x model.info.vocabSize.toNat 0 t) :
      outputRow value graph model.memPlan op b mem x 0 = (List.range m).map fun d =>
        regionElement value model found mem (d * model.info.vocabSize.toNat + t) := by
    rw [outputRow_gemv hprod hkind]
    apply List.map_congr_left
    intro d _
    simp only [mul_comm (operand value model graph b mem x found.valueId _)]
    rw [sum_oneHot (t := t) (fun l hl => ?_) ht, operand_param hne]
    rw [operand_input (by rw [hcount]; exact hl)]
    have hxl := hx l hl
    rwa [Nat.zero_mul, Nat.zero_add] at hxl
  unfold RowsMatch
  rw [hprod.outputs]
  simp only [List.getD_cons_zero, hbrows, hcrows]
  constructor
  · intro h t ht
    have hvec := h t ht 0 Nat.zero_lt_one Nat.zero_lt_one _ (oneHotRow_oneHotInput _ 0 t)
    rw [hpick t ht _ (oneHotRow_oneHotInput _ 0 t), tokenVector_eq_iff hm] at hvec
    exact hvec
  · intro h t ht r hr _ x hx
    obtain rfl : r = 0 := by omega
    rw [hpick t ht x hx, tokenVector_eq_iff hm]
    exact h t ht

/-- The input on the right of a `GEMM` or `MATMUL`. -/
lemma rowsMatch_right (hkind : op.kind ≠ .gemv) (hat : found.inputAt ≠ 0) (hne : found.valueId ≠ input) :
    RowsMatch value model graph found op input mem stored ↔
      found.dim.toNat = model.info.vocabSize.toNat ∧ found.rowMajor = true ∧
        ∀ r < model.info.vocabSize.toNat,
          (∀ k < model.info.vocabSize.toNat, k ≠ r →
            regionElement value model found mem (r * model.info.vocabSize.toNat + k) = 0) ∧
          ∀ t < model.info.vocabSize.toNat, ∀ j < model.info.vocabSize.toNat,
            stored (t * model.info.vocabSize.toNat + j) =
              if j = t then regionElement value model found mem (r * model.info.vocabSize.toNat + r)
              else 0 := by
  obtain ⟨rfl, rfl⟩ : b = input ∧ a = found.valueId := by
    rcases hprod.operands with ⟨hz, -, -⟩ | ⟨-, hb, ha⟩
    · exact absurd hz hat
    · exact ⟨hb, ha⟩
  have hdims := hprod.dims
  rw [decide_eq_false hkind] at hdims
  obtain ⟨⟨harows, hacols⟩, ⟨-, hbrows, hbcols⟩, hcrows, -⟩ := gemmDims_false hdims
  obtain ⟨-, hprows, hpcols, hsquare⟩ := hfound.rows_cols hruns hprod.param_pos
  obtain rfl : n = model.info.vocabSize.toNat := hbcols.symm.trans hcols
  obtain ⟨hm, hn, hk⟩ := hprod.pos
  -- row `r` of the matrix times the input
  have hrow (r : ℕ) (hr : r < m) (x : ℕ → R) :
      outputRow value graph model.memPlan op b mem x r =
        (List.range model.info.vocabSize.toNat).map fun j => ∑ l ∈ Finset.range k,
          regionElement value model found mem (r * k + l) * x (l * model.info.vocabSize.toNat + j) := by
    rw [outputRow_product hprod hkind hr]
    apply List.map_congr_left
    intro j hj
    refine Finset.sum_congr rfl fun l hl => ?_
    rw [operand_param hne, operand_input]
    rw [hprod.count_right]
    exact Exact.row_lt (Finset.mem_range.mp hl) (List.mem_range.mp hj)
  have hone (r t : ℕ) (hr : r < k) (f : ℕ → R) (j : ℕ) (hj : j < model.info.vocabSize.toNat)
      (ht : t < model.info.vocabSize.toNat) :
      (∑ l ∈ Finset.range k, f l * oneHotInput model.info.vocabSize.toNat r t
        (l * model.info.vocabSize.toNat + j)) = if j = t then f r else 0 := by
    rw [Finset.sum_eq_single_of_mem r (Finset.mem_range.mpr hr)]
    · unfold oneHotInput
      simp only [Nat.add_left_cancel_iff, mul_ite, mul_one, mul_zero]
    · intro l _ hlr
      unfold oneHotInput
      rw [if_neg, mul_zero]
      intro heq
      apply hlr
      rw [← Exact.row_div (i := l) hj, heq, Exact.row_div ht]
  unfold RowsMatch
  rw [hprod.outputs]
  simp only [List.getD_cons_zero, hbrows, hcrows]
  constructor
  · intro h
    have hvocab : 0 < model.info.vocabSize.toNat := Nat.pos_of_ne_zero hn
    -- the rows have the length of the vocabulary
    have hdim : found.dim.toNat = model.info.vocabSize.toNat := by
      have hvec := h 0 hvocab 0 (Nat.pos_of_ne_zero hk) (Nat.pos_of_ne_zero hm) _
        (oneHotRow_oneHotInput _ 0 0)
      rw [hrow 0 (Nat.pos_of_ne_zero hm)] at hvec
      have hlen := congrArg List.length hvec
      rw [tokenVector, List.length_map, List.length_map, List.length_range, List.length_range] at hlen
      exact hlen.symm
    have hmajor : found.rowMajor = true := by
      by_contra hmajor
      exact hsquare (Bool.not_eq_true _ ▸ hmajor) hdim
    rw [hmajor, if_pos rfl] at hprows hpcols
    obtain rfl : k = model.info.vocabSize.toNat := hacols.symm.trans (hpcols.trans hdim)
    obtain rfl : m = model.info.vocabSize.toNat := harows.symm.trans hprows
    refine ⟨hdim, hmajor, fun r hr => ?_⟩
    have hstored (t : ℕ) (ht : t < model.info.vocabSize.toNat) (x : ℕ → R)
        (hx : OneHotRow x model.info.vocabSize.toNat r t) (j : ℕ) (hj : j < model.info.vocabSize.toNat) :
        (∑ l ∈ Finset.range model.info.vocabSize.toNat,
          regionElement value model found mem (r * model.info.vocabSize.toNat + l) *
            x (l * model.info.vocabSize.toNat + j)) =
          stored (t * model.info.vocabSize.toNat + j) := by
      have hvec := h t ht r hr hr x hx
      rw [hrow r hr, tokenVector_eq_iff hdim.symm] at hvec
      have helem := hvec j (hdim ▸ hj)
      rwa [tokenElement, hmajor, if_pos rfl, hdim] at helem
    have hdiag (t : ℕ) (ht : t < model.info.vocabSize.toNat) (j : ℕ) (hj : j < model.info.vocabSize.toNat) :
        stored (t * model.info.vocabSize.toNat + j) =
          if j = t then regionElement value model found mem (r * model.info.vocabSize.toNat + r) else 0 := by
      rw [← hstored t ht _ (oneHotRow_oneHotInput _ r t) j hj, hone r t hr _ j hj ht]
    refine ⟨fun l hl hlr => ?_, hdiag⟩
    -- another row of the input brings in its element
    have hx : OneHotRow (fun i => oneHotInput (R := R) model.info.vocabSize.toNat r 0 i +
        oneHotInput model.info.vocabSize.toNat l 0 i) model.info.vocabSize.toNat r 0 := by
      intro j hj
      change oneHotInput model.info.vocabSize.toNat r 0 _ + oneHotInput model.info.vocabSize.toNat l 0 _ =
        _
      have hapart : r * model.info.vocabSize.toNat + j ≠ l * model.info.vocabSize.toNat + 0 := by
        intro heq
        apply hlr
        rw [← Exact.row_div (i := r) hj, heq, Exact.row_div hvocab]
      rw [oneHotRow_oneHotInput _ r 0 j hj, oneHotInput, if_neg hapart, add_zero]
    have hsum := hstored 0 hvocab _ hx 0 hvocab
    rw [hdiag 0 hvocab 0 hvocab, if_pos rfl] at hsum
    simp only [mul_add, Finset.sum_add_distrib] at hsum
    rw [hone r 0 hr _ 0 hvocab hvocab, hone l 0 hl _ 0 hvocab hvocab, if_pos rfl, if_pos rfl] at hsum
    exact left_eq_add.mp hsum.symm
  · rintro ⟨hdim, hmajor, hdiag⟩ t ht r hr hr' x hx
    rw [hmajor, if_pos rfl] at hprows hpcols
    obtain rfl : k = model.info.vocabSize.toNat := hacols.symm.trans (hpcols.trans hdim)
    rw [hrow r hr', tokenVector_eq_iff hdim.symm]
    intro j hj
    rw [hdim] at hj
    obtain ⟨hoff, hstored⟩ := hdiag r hr
    rw [tokenElement, hmajor, if_pos rfl, hdim, hstored t ht j hj,
      Finset.sum_eq_single_of_mem r (Finset.mem_range.mpr hr), hx j hj, mul_ite, mul_one, mul_zero]
    intro l hl hlr
    rw [hoff l (Finset.mem_range.mp hl) hlr, zero_mul]

/-- The input is the parameter itself. -/
lemma rowsMatch_same (heq : found.valueId = input) :
    RowsMatch value model graph found op input mem stored ↔
      model.info.vocabSize.toNat = 1 ∧ stored 0 = 1 := by
  have hkind : op.kind ≠ .gemv := by
    intro hkind
    have hgemv : _ ∧ (RowsMatch value model graph found op input mem stored ↔ _) :=
      rowsMatch_gemv hruns hfound hprod hcols hkind
    exact hgemv.1 heq
  obtain ⟨rfl, rfl⟩ : a = input ∧ b = input := by
    rcases hprod.operands with ⟨-, ha, hb⟩ | ⟨-, hb, ha⟩
    · exact ⟨ha, hb.trans heq⟩
    · exact ⟨ha.trans heq, hb⟩
  have hdims := hprod.dims
  rw [decide_eq_false hkind] at hdims
  obtain ⟨⟨harows, hacols⟩, ⟨-, hbrows, hbcols⟩, hcrows, -⟩ := gemmDims_false hdims
  obtain rfl : k = model.info.vocabSize.toNat := hacols.symm.trans hcols
  obtain rfl : n = model.info.vocabSize.toNat := hbcols.symm.trans hcols
  obtain rfl : m = model.info.vocabSize.toNat := harows.symm.trans hbrows
  obtain ⟨-, hprows, hpcols, hsquare⟩ := hfound.rows_cols hruns hprod.param_pos
  rw [heq, hbrows] at hprows
  rw [heq, hcols] at hpcols
  have hmajor : found.rowMajor = true := by
    by_contra hmajor
    rw [Bool.not_eq_true] at hmajor
    rw [hmajor, if_neg Bool.false_ne_true] at hprows
    exact hsquare hmajor hprows.symm
  rw [hmajor, if_pos rfl] at hpcols
  have hvocab : 0 < model.info.vocabSize.toNat := Nat.pos_of_ne_zero hprod.pos.1
  -- the product is the row of the token of the input itself
  have hpick (t : ℕ) (ht : t < model.info.vocabSize.toNat) (r : ℕ) (hr : r < model.info.vocabSize.toNat)
      (x : ℕ → R) (hx : OneHotRow x model.info.vocabSize.toNat r t) :
      outputRow value graph model.memPlan op b mem x r = (List.range model.info.vocabSize.toNat).map
        fun j => x (t * model.info.vocabSize.toNat + j) := by
    have hin (i j : ℕ) (hi : i < model.info.vocabSize.toNat) (hj : j < model.info.vocabSize.toNat) :
        operand value model graph b mem x b (i * model.info.vocabSize.toNat + j) =
          x (i * model.info.vocabSize.toNat + j) := by
      rw [operand_input]
      rw [hprod.count_left]
      exact Exact.row_lt hi hj
    rw [outputRow_product hprod hkind hr]
    apply List.map_congr_left
    intro j hj
    rw [sum_oneHot (t := t) (fun l hl => ?_) ht, hin t j ht (List.mem_range.mp hj)]
    rw [hin r l hr hl]
    exact hx l hl
  unfold RowsMatch
  rw [hprod.outputs]
  simp only [List.getD_cons_zero, harows, hcrows]
  constructor
  · intro h
    have hstored (t : ℕ) (ht : t < model.info.vocabSize.toNat) (r : ℕ)
        (hr : r < model.info.vocabSize.toNat) (x : ℕ → R)
        (hx : OneHotRow x model.info.vocabSize.toNat r t) :
        x (t * model.info.vocabSize.toNat + 0) = stored (t * model.info.vocabSize.toNat + 0) := by
      have hvec := h t ht r hr hr x hx
      rw [hpick t ht r hr x hx, tokenVector_eq_iff hpcols] at hvec
      have helem := hvec 0 (hpcols ▸ hvocab)
      rwa [tokenElement, hmajor, if_pos rfl, ← hpcols] at helem
    have hone := hstored 0 hvocab 0 hvocab _ (oneHotRow_oneHotInput _ 0 0)
    rw [oneHotInput, if_pos rfl, Nat.zero_mul, Nat.add_zero] at hone
    refine ⟨?_, hone.symm⟩
    by_contra hmany
    -- the same token in another row leaves its own row empty
    have hzero := hstored 0 hvocab 1 (by omega) _ (oneHotRow_oneHotInput _ 1 0)
    rw [oneHotInput, if_neg (by omega), Nat.zero_mul, Nat.add_zero, ← hone] at hzero
    exact zero_ne_one hzero
  · rintro ⟨hvone, hstored⟩ t ht r hr _ x hx
    rw [hpick t ht r hr x hx, tokenVector_eq_iff hpcols]
    intro j hj
    obtain rfl : t = 0 := by omega
    obtain rfl : r = 0 := by omega
    obtain rfl : j = 0 := by omega
    have hx0 := hx 0 hvocab
    rw [if_pos rfl, Nat.zero_mul, Nat.add_zero] at hx0
    rw [tokenElement, hmajor, if_pos rfl, Nat.zero_mul, Nat.zero_mul, Nat.add_zero, hx0, hstored]

/-- The two paths agree on a matrix exactly when it is aligned with the region. -/
lemma rowsMatch_iff :
    RowsMatch value model graph found op input mem stored ↔
      AlignedWith value model found op input mem stored := by
  unfold AlignedWith
  by_cases hsame : found.valueId = input
  · rw [if_pos hsame]
    exact rowsMatch_same hruns hfound hprod hcols hsame
  rw [if_neg hsame]
  by_cases hkind : op.kind = .gemv
  · rw [if_pos hkind]
    exact (rowsMatch_gemv hruns hfound hprod hcols hkind).2
  rw [if_neg hkind]
  by_cases hat : found.inputAt = 0
  · rw [if_pos hat]
    exact rowsMatch_left hruns hfound hprod hcols hkind hat hsame
  · rw [if_neg hat]
    exact rowsMatch_right hruns hfound hprod hcols hkind hat hsame

end Places

end Prospero
