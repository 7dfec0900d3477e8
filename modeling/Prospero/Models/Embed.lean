import Prospero.Cpu.Backends
import Prospero.Graph.BridgeOps
import Prospero.Models.LoadedWords

/-!
# Text embeddings

`pai_model_embed` (`models/model.c`): the embedding parameter is found by its shape, loaded apart from any
session, and the rows of the tokens of a text are averaged.  Which axis is the vocabulary is guessed from
the extents, the first one first.

Sums and quotients are over a field `R`, and `value` is the number a stored pattern stands for, so that no
rounding hides whether two paths compute the same thing.  What the executor computes with the parameter is
`outputRow`: the op runs by `run_gemm` on the region of a session, with the input overwritten.

### Outline

* `findEmbedParam`, `embedMatrix`, `paiModelEmbed` : the source functions.
* `Exact.runGemm`, `Exact.runProduct` : the executor's step, on one array for each value.
* `EmbedFound` : what `find_embed_param` has checked (`findEmbedParam_spec`).
* `productDims` : an op that executes has the operands of a product (`runOp_product`).
-/

namespace Prospero

open Buffer ByteString Footprint Reader

/-! ## Finding the parameter -/

/-- `PAI_IR_OP_GEMM`. -/
abbrev paiIrOpGemm : UInt8 := 3
/-- `PAI_IR_OP_GEMV`. -/
abbrev paiIrOpGemv : UInt8 := 4
/-- `PAI_IR_OP_MATMUL`. -/
abbrev paiIrOpMatmul : UInt8 := 5

/-- What `find_embed_param` finds: the returned id and layout, and where it was found. -/
structure EmbedParam where
  /-- The op, `oi`. -/
  op : ℕ
  /-- The operand that is the graph input, `j`. -/
  inputAt : ℕ
  /-- The operand that is the parameter, `k`. -/
  paramAt : ℕ
  /-- The parameter. -/
  valueId : ℕ
  /-- `*out_row_major` -/
  rowMajor : Bool
  /-- `*out_dim` -/
  dim : UInt64
deriving DecidableEq

section Find

variable (model : Model)

/-- The body of the innermost loop of `find_embed_param`: the layout of a candidate. -/
def embedLayout (cand : ℕ) : Option (Bool × UInt64) :=
  if cand = 0 ∨ model.ir.values.length < cand then none
  else
    match model.ir.valueAt cand with
    | none => none
    | some iv =>
      if iv.kind ≠ paiIrValueParam ∨ iv.rank ≠ 2 then none
      else if iv.shape.val.getD 0 0 = model.info.vocabSize.toUInt64 then
        some (true, iv.shape.val.getD 1 0)
      else if iv.shape.val.getD 1 0 = model.info.vocabSize.toUInt64 then
        some (false, iv.shape.val.getD 0 0)
      else none

/-- The loops over the operands of op `oi`. -/
def findInOp (inputId : ℕ) (op : IrOp) (oi : ℕ) : Option EmbedParam :=
  if op.kind ≠ paiIrOpGemm ∧ op.kind ≠ paiIrOpGemv ∧ op.kind ≠ paiIrOpMatmul then none
  else
    (List.range op.inputs.length).findSome? fun j =>
      if (op.inputs.getD j 0).toNat ≠ inputId then none
      else
        (List.range op.inputs.length).findSome? fun k =>
          if k = j then none
          else
            let cand := (op.inputs.getD k 0).toNat
            (embedLayout model cand).map fun layout => ⟨oi, j, k, cand, layout.1, layout.2⟩

/-- `find_embed_param`. -/
def findEmbedParam : Option EmbedParam :=
  let inputId := (model.ir.inputIds.head?.getD 0).toNat
  if inputId = 0 ∨ model.info.vocabSize = 0 then none
  else (model.ir.ops.zipIdx 1).findSome? fun x => findInOp model inputId x.1 x.2

/-- `find_embed_param` has found the parameter with these checks. -/
structure EmbedFound (found : EmbedParam) (inputId : ℕ) (op : IrOp) (iv : IrValue) : Prop where
  /-- The first graph input. -/
  input : model.ir.inputIds.head?.map UInt32.toNat = some inputId
  /-- There is a vocabulary. -/
  vocab_ne : model.info.vocabSize ≠ 0
  /-- The op of the program. -/
  op_at : 1 ≤ found.op ∧ model.ir.ops[found.op - 1]? = some op
  /-- It is a product. -/
  kind : op.kind = paiIrOpGemm ∨ op.kind = paiIrOpGemv ∨ op.kind = paiIrOpMatmul
  /-- It consumes the input. -/
  input_at : (op.inputs.map UInt16.toNat)[found.inputAt]? = some inputId
  /-- It consumes the parameter, in another place. -/
  param_at : (op.inputs.map UInt16.toNat)[found.paramAt]? = some found.valueId ∧
    found.paramAt ≠ found.inputAt
  /-- The parameter is a matrix. -/
  value : model.ir.valueAt found.valueId = some iv ∧ iv.kind = paiIrValueParam ∧ iv.rank = 2
  /-- One of its extents is the vocabulary, the other one the dimension. -/
  layout : if found.rowMajor then
      iv.shape.val.getD 0 0 = model.info.vocabSize.toUInt64 ∧ iv.shape.val.getD 1 0 = found.dim
    else iv.shape.val.getD 0 0 ≠ model.info.vocabSize.toUInt64 ∧
      iv.shape.val.getD 1 0 = model.info.vocabSize.toUInt64 ∧ iv.shape.val.getD 0 0 = found.dim

end Find

/-! ## Embedding a text -/

section Embed

variable {R : Type} [Field R] (value : UInt32 → R) (malloc : ℕ → Bool) (model : Model)

/-- `pai_model_embed` up to the loaded matrix. -/
def embedMatrix (maxElements : ℕ) (mem : Memory Space) : Except PaiStatus (EmbedParam × (ℕ → R)) :=
  match findEmbedParam model with
  | none => .error paiErrUnsupported
  | some found =>
    if found.dim = 0 ∨ 0xFFFFFFFF < found.dim then .error paiErrUnsupported
    else if maxElements < found.dim.toNat then .error paiErrNomem
    else
      match (loadValueF32 model malloc found.valueId).run mem with
      | (.error e, _) => .error e
      | (.ok n, mem') =>
        if n ≠ found.dim.toNat * model.info.vocabSize.toNat then .error paiErrMismatch
        else .ok (found, fun i => value (mem'.word .scratch (4 * i)))

/-- What is added to element `d` for the token `t`. -/
def tokenElement (found : EmbedParam) (mat : ℕ → R) (vocab t d : ℕ) : R :=
  mat (if found.rowMajor then t * found.dim.toNat + d else d * vocab + t)

/-- The vector that is added for the token `t`. -/
def tokenVector (found : EmbedParam) (mat : ℕ → R) (vocab t : ℕ) : List R :=
  (List.range found.dim.toNat).map (tokenElement found mat vocab t)

/-- One round of the loop over the ids; ids outside the vocabulary are skipped. -/
def embedAdd (found : EmbedParam) (mat : ℕ → R) (vocab : ℕ) (acc : List R × ℕ) (tok : UInt32) :
    List R × ℕ :=
  if vocab ≤ tok.toNat then acc
  else (acc.1.zipWith (· + ·) (tokenVector found mat vocab tok.toNat), acc.2 + 1)

/-- The ids of a text. -/
def embedIds (text : List UInt8) : Except PaiStatus (List UInt32) :=
  let text := cString text
  paiTokEncode model.tokenizer (text.take (text.length % 0x100000000)) paiTokMaxInput

/-- `pai_model_embed`. -/
def paiModelEmbed (text : List UInt8) (maxElements : ℕ) (mem : Memory Space) :
    Except PaiStatus (List R) :=
  match embedMatrix value malloc model maxElements mem with
  | .error e => .error e
  | .ok (found, mat) =>
    if malloc (found.dim.toNat * 4) = false ∨ malloc (paiTokMaxInput * 4) = false then .error paiErrNomem
    else
      match embedIds model text with
      | .error e => .error e
      | .ok ids =>
        let acc := ids.foldl (embedAdd found mat model.info.vocabSize.toNat)
          (List.replicate found.dim.toNat 0, 0)
        if acc.2 = 0 then .error paiErrMismatch else .ok (acc.1.map fun x => x / (acc.2 : R))

end Embed

/-! ## The executor's product -/

section Execute

variable {R : Type} [Field R] (value : UInt32 → R)

/-- The planned region as one array for each value. -/
def planned (memPlan : GraphMemPlan) (mem : Memory Space) : Exact.Memory R
  | .f32 (some id), i => value (mem.word .region (valuePtr memPlan id + 4 * i))
  | .f32 none, _ => 0
  | .i8 _, _ => 0

/-- `run_gemm`. -/
def Exact.runGemm (graph : Graph) (aId bId cId : ℕ) (isGemv : Bool) : Exact.Kernel R PaiStatus :=
  match gemmDims (graph.valueAt aId) (graph.valueAt bId) (graph.valueAt cId) isGemv with
  | none => pure paiErrMismatch
  | some (m, n, k) => Exact.paiRefGemmF32 m n k (some aId) (some bId) (some cId)

/-- The executor's step for a `GEMM`, `GEMV` or `MATMUL`. -/
def Exact.runProduct (graph : Graph) (op : GraphOp) : Exact.Kernel R PaiStatus :=
  if (op.inputs.any fun id => (graph.valueAt id).dtype ≠ .f32) ∨
      (op.outputs.any fun id => (graph.valueAt id).dtype ≠ .f32) then pure paiErrUnsupported
  else if op.inputs.length ≠ 2 ∨ op.outputs.length ≠ 1 then pure paiErrMismatch
  else
    Exact.runGemm graph (op.inputs.getD 0 0) (op.inputs.getD 1 0) (op.outputs.getD 0 0)
      (op.kind = .gemv)

/-- The rows of a vector or matrix. -/
def GraphValue.rows (v : GraphValue) : ℕ := if v.rank = 2 then (v.dim 0).toNat else 1

/-- The length of a row. -/
def GraphValue.cols (v : GraphValue) : ℕ := (v.dim (v.rank - 1)).toNat

/-- Row `r` of the output of the op, run on the region `mem` with the input overwritten by `x`. -/
def outputRow (graph : Graph) (memPlan : GraphMemPlan) (op : GraphOp) (input : ℕ) (mem : Memory Space)
    (x : ℕ → R) (r : ℕ) : List R :=
  let s := Exact.fillF32 (planned value memPlan mem) (some input)
    (elementCount (graph.valueAt input).shape) x
  let out := op.outputs.getD 0 0
  (List.range (graph.valueAt out).cols).map fun j =>
    Exact.readF32 (Exact.runProduct graph op s).2.1 (some out) (r * (graph.valueAt out).cols + j)

/-- Row `r` of `x`, in rows of `cols`, is the one-hot vector of `t`. -/
def OneHotRow (x : ℕ → R) (cols r t : ℕ) : Prop := ∀ j < cols, x (r * cols + j) = if j = t then 1 else 0

/-- The mean of some rows of length `n`. -/
def meanRow (n : ℕ) (rows : List (List R)) : List R :=
  (List.range n).map fun d => (rows.map fun row => row.getD d 0).sum / (rows.length : R)

end Execute

/-! ## What is found -/

section Found

variable {model : Model}

lemma embedLayout_spec {cand : ℕ} {layout : Bool × UInt64} (h : embedLayout model cand = some layout) :
    ∃ iv, model.ir.valueAt cand = some iv ∧ iv.kind = paiIrValueParam ∧ iv.rank = 2 ∧
      if layout.1 then iv.shape.val.getD 0 0 = model.info.vocabSize.toUInt64 ∧
        iv.shape.val.getD 1 0 = layout.2
      else iv.shape.val.getD 0 0 ≠ model.info.vocabSize.toUInt64 ∧
        iv.shape.val.getD 1 0 = model.info.vocabSize.toUInt64 ∧ iv.shape.val.getD 0 0 = layout.2 := by
  unfold embedLayout at h
  split_ifs at h
  cases hiv : model.ir.valueAt cand with
  | none =>
    rw [hiv] at h
    cases h
  | some iv =>
    rw [hiv] at h
    simp only at h
    split_ifs at h with hkind hfirst hsecond
    · cases h
      rw [not_or, not_not, not_not] at hkind
      exact ⟨iv, rfl, hkind.1, hkind.2, by simpa using hfirst⟩
    · cases h
      rw [not_or, not_not, not_not] at hkind
      exact ⟨iv, rfl, hkind.1, hkind.2, by simpa using ⟨hfirst, hsecond⟩⟩

/-- A position with an element. -/
lemma getElem?_map_toNat {ids : List UInt16} {i : ℕ} (hi : i < ids.length) :
    (ids.map UInt16.toNat)[i]? = some (ids.getD i 0).toNat := by
  rw [List.getElem?_map, List.getElem?_eq_getElem hi, List.getD_eq_getElem _ _ hi, Option.map_some]

/-- What `find_embed_param` returns has passed its checks. -/
lemma findEmbedParam_spec {found : EmbedParam} (h : findEmbedParam model = some found) :
    ∃ inputId op iv, EmbedFound model found inputId op iv := by
  unfold findEmbedParam at h
  simp only at h
  split_ifs at h with hnone
  rw [not_or] at hnone
  obtain ⟨hinput, hvocab⟩ := hnone
  have hhead : model.ir.inputIds.head?.map UInt32.toNat =
      some (model.ir.inputIds.head?.getD 0).toNat := by
    cases hids : model.ir.inputIds.head? with
    | none =>
      rw [hids] at hinput
      exact absurd rfl hinput
    | some id => rfl
  generalize (model.ir.inputIds.head?.getD 0).toNat = inputId at h hhead
  obtain ⟨⟨op, oi⟩, hop, h⟩ := List.exists_of_findSome?_eq_some h
  obtain ⟨hlo, -, hget⟩ := List.mem_zipIdx hop
  unfold findInOp at h
  split_ifs at h with hkind
  obtain ⟨j, hj, h⟩ := List.exists_of_findSome?_eq_some h
  split_ifs at h with hjin
  obtain ⟨k, hk, h⟩ := List.exists_of_findSome?_eq_some h
  split_ifs at h with hkj
  obtain ⟨layout, hlayout, rfl⟩ := Option.map_eq_some_iff.mp h
  obtain ⟨iv, hiv, hparam, hrank, hshape⟩ := embedLayout_spec hlayout
  have hj := List.mem_range.mp hj
  have hk := List.mem_range.mp hk
  refine ⟨inputId, op, iv, hhead, hvocab, ⟨hlo, ?_⟩, by tauto, ?_, ⟨getElem?_map_toNat hk, hkj⟩,
    ⟨hiv, hparam, hrank⟩, hshape⟩
  · rw [hget]
    exact List.getElem?_eq_getElem _
  · rw [getElem?_map_toNat hj, not_not.mp hjin]

end Found

/-! ## Ops that execute -/

section Product

variable {malloc : ℕ → Bool} {graph : Graph} {memPlan : GraphMemPlan} {op : GraphOp}

/-- An op that executes as a product has two operands whose sizes agree, and one output. -/
lemma runOp_product {mem mem' : Memory Space} (hkind : op.kind = .gemm ∨ op.kind = .gemv ∨ op.kind = .matmul)
    (h : (runOp malloc graph memPlan op).run mem = (.ok (), mem')) :
    AllF32 graph op ∧ ∃ a b c dims, op.inputs = [a, b] ∧ op.outputs = [c] ∧
      gemmDims (graph.valueAt a) (graph.valueAt b) (graph.valueAt c) (op.kind = .gemv) = some dims := by
  rcases runOp_cases malloc graph memPlan op with ⟨e, hfail⟩ | ⟨hf32, heq⟩
  · rw [hfail] at h
    cases h
  rw [heq] at h
  refine ⟨hf32, ?_⟩
  have hrun : (if op.inputs.length ≠ 2 ∨ op.outputs.length ≠ 1 then .fail paiErrMismatch
      else runGemm graph memPlan (op.inputs.getD 0 0) (op.inputs.getD 1 0) (op.outputs.getD 0 0)
        (op.kind = .gemv) : Kernel Unit).run mem = (.ok (), mem') := by
    unfold runKind at h
    rcases hkind with hk | hk | hk
    all_goals
      simp only [hk] at h ⊢
      exact h
  split_ifs at hrun with hlen
  · cases hrun
  rw [not_or, not_not, not_not] at hlen
  obtain ⟨a, b, hab⟩ := List.length_eq_two.mp hlen.1
  obtain ⟨c, hc⟩ := List.length_eq_one_iff.mp hlen.2
  refine ⟨a, b, c, ?_⟩
  rw [hab, hc] at hrun
  unfold runGemm at hrun
  split at hrun
  · cases hrun
  · next m n k hdims => exact ⟨(m, n, k), hab, hc, hdims⟩

variable {R : Type} [Field R] [LinearOrder R]

/-- The entries of the output of a product. -/
lemma readF32_runProduct {a b c m n k : ℕ} (hf32 : AllF32 graph op) (hin : op.inputs = [a, b])
    (hout : op.outputs = [c]) (hac : a ≠ c) (hbc : b ≠ c)
    (hdims : gemmDims (graph.valueAt a) (graph.valueAt b) (graph.valueAt c) (op.kind = .gemv) =
      some (m, n, k)) (hm : m ≠ 0) (hn : n ≠ 0) (hk : k ≠ 0) (s : Exact.Memory R) {i j : ℕ} (hi : i < m)
    (hj : j < n) :
    Exact.readF32 (Exact.runProduct graph op s).2.1 (some c) (i * n + j) =
      Exact.gemmEntry n k (some a) (some b) s i j := by
  have hfail : ¬ ((op.inputs.any fun id => (graph.valueAt id).dtype ≠ .f32) ∨
      (op.outputs.any fun id => (graph.valueAt id).dtype ≠ .f32)) := by
    simp only [List.any_eq_true, decide_eq_true_eq, not_or, not_exists, not_and, not_not]
    exact ⟨fun id hid => hf32 id (List.mem_append_left _ hid),
      fun id hid => hf32 id (List.mem_append_right _ hid)⟩
  have hlen : ¬ (op.inputs.length ≠ 2 ∨ op.outputs.length ≠ 1) := by
    rw [hin, hout]
    simp
  have hrun : (Exact.runProduct graph op : Exact.Kernel R PaiStatus) =
      Exact.paiRefGemmF32 m n k (some a) (some b) (some c) := by
    unfold Exact.runProduct
    rw [if_neg hfail, if_neg hlen, hin, hout]
    unfold Exact.runGemm
    simp only [List.getD_cons_zero, List.getD_cons_succ, hdims]
  have hsep : (Exact.CpuOp.gemm (R := R) m n k (some a) (some b) (some c)).Separate :=
    Or.inr ⟨fun h => hac (Option.some.inj h), fun h => hbc (Option.some.inj h)⟩
  have hcomputed : (Exact.CpuOp.gemm m n k (some a) (some b) (some c)).ComputedBy (fun _ => (0 : R)) s _ :=
    Exact.gemmScalar_computedBy hsep
  have hmeaning := hcomputed.1
  rw [Exact.CpuOp.meaning, if_neg (by simp [hm, hn, hk])] at hmeaning
  have hmem := (Prod.mk.inj hmeaning).2
  rw [hrun]
  change Exact.readF32 (Exact.gemmScalar m n k (some a) (some b) (some c) s).2.1 _ _ = _
  rw [hmem, Exact.readF32, Exact.fillF32, Arrays.Store.fill_self, if_pos (Exact.row_lt hi hj),
    Exact.row_div hj, Exact.row_mod hj]

end Product

end Prospero
