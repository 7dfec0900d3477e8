import Prospero.Models.EmbedRows
import Prospero.Models.Generate

/-!
# Embeddings against the executor

The vector that `pai_model_embed` adds for a token is to be the row that the op of the embedding parameter
computes for the one-hot vector of the token.  `EmbedAgrees` says so for every token, every input with that
row and, with it, for the mean of a text; `EmbedAligned` is the relation between the matrix in the region of
a session and the stored one under which it holds (`paiModelEmbed_agrees_iff`).  Where no later entry of the
manifest reaches the parameter, the two matrices are the same and only the layouts are left to agree.
-/

namespace Prospero

open Buffer ByteString Footprint Reader

/-! ## Agreement -/

section Statements

variable {R : Type} [Field R] (value : UInt32 → R) (malloc : ℕ → Bool) (model : Model) (graph : Graph)
  (found : EmbedParam) (op : GraphOp) (input : ℕ) (mem : Memory Space)

/-- The vectors of the embedding path are the output rows of the op on one-hot vectors, and its result
for a text is their mean over the tokens of the vocabulary. -/
structure EmbedAgrees : Prop where
  /-- One token. -/
  vectors : ∀ maxElements mat, embedMatrix value malloc model maxElements mem = .ok (found, mat) →
    ∀ t < model.info.vocabSize.toNat, ∀ r, r < (graph.valueAt input).rows →
      r < (graph.valueAt (op.outputs.getD 0 0)).rows →
      ∀ x, OneHotRow x model.info.vocabSize.toNat r t →
        outputRow value graph model.memPlan op input mem x r =
          tokenVector found mat model.info.vocabSize.toNat t
  /-- A text. -/
  mean : ∀ maxElements text out ids, paiModelEmbed value malloc model text maxElements mem = .ok out →
    embedIds model text = .ok ids → ∀ r, r < (graph.valueAt input).rows →
      r < (graph.valueAt (op.outputs.getD 0 0)).rows →
      ∀ x : ℕ → ℕ → R, (∀ t < model.info.vocabSize.toNat, OneHotRow (x t) model.info.vocabSize.toNat r t) →
        out = meanRow (graph.valueAt (op.outputs.getD 0 0)).cols
          ((ids.filter fun tok => tok.toNat < model.info.vocabSize.toNat).map fun tok =>
            outputRow value graph model.memPlan op input mem (x tok.toNat) r)

/-- The two agree with the entry that `load_value_f32` takes, if it takes one and the dimension can be
returned. -/
def EmbedAligned : Prop :=
  ∀ t iv, LoadAccepted malloc model found.valueId t iv → found.dim ≤ 0xFFFFFFFF →
    AlignedWith value model found op input mem fun i => value (storedWord mem t iv i)

end Statements

/-! ## The mean -/

section Mean

variable {R : Type} [Field R] {value : UInt32 → R} {malloc : ℕ → Bool} {model : Model} {mem : Memory Space}

/-- The loop over the ids adds up the vectors of the tokens of the vocabulary. -/
lemma foldl_embedAdd (found : EmbedParam) (mat : ℕ → R) (vocab : ℕ) (ids : List UInt32) (f : ℕ → R) (n : ℕ) :
    ids.foldl (embedAdd found mat vocab) ((List.range found.dim.toNat).map f, n) =
      ((List.range found.dim.toNat).map fun d => f d +
        ((ids.filter fun tok => tok.toNat < vocab).map fun tok =>
          tokenElement found mat vocab tok.toNat d).sum,
        n + (ids.filter fun tok => tok.toNat < vocab).length) := by
  induction ids generalizing f n with
  | nil => simp
  | cons tok ids ih =>
    rw [List.foldl_cons, embedAdd]
    by_cases htok : vocab ≤ tok.toNat
    · rw [if_pos htok, ih, List.filter_cons_of_neg (by simpa using htok)]
    · have hadd : List.zipWith (· + ·) ((List.range found.dim.toNat).map f)
          (tokenVector found mat vocab tok.toNat) =
          (List.range found.dim.toNat).map fun d => f d + tokenElement found mat vocab tok.toNat d := by
        rw [tokenVector, List.zipWith_map, List.zipWith_self]
      rw [if_neg htok, hadd, ih, List.filter_cons_of_pos (by simpa using htok), List.length_cons]
      congr 1
      · apply List.map_congr_left
        intro d _
        rw [List.map_cons, List.sum_cons, add_assoc]
      · omega

lemma tokenVector_getD (found : EmbedParam) (mat : ℕ → R) (vocab t : ℕ) {d : ℕ} (hd : d < found.dim.toNat) :
    (tokenVector found mat vocab t).getD d 0 = tokenElement found mat vocab t d := by
  rw [tokenVector, List.getD_eq_getElem?_getD, List.getElem?_map, List.getElem?_range hd]
  rfl

/-- A successful embedding is the mean of the vectors of the tokens of the vocabulary, of which there is
one. -/
lemma paiModelEmbed_eq_mean {text : List UInt8} {maxElements : ℕ} {out : List R} {ids : List UInt32}
    (h : paiModelEmbed value malloc model text maxElements mem = .ok out)
    (hids : embedIds model text = .ok ids) :
    ∃ found mat, embedMatrix value malloc model maxElements mem = .ok (found, mat) ∧
      (ids.filter fun tok => tok.toNat < model.info.vocabSize.toNat) ≠ [] ∧
      out = meanRow found.dim.toNat ((ids.filter fun tok => tok.toNat < model.info.vocabSize.toNat).map
        fun tok => tokenVector found mat model.info.vocabSize.toNat tok.toNat) := by
  unfold paiModelEmbed at h
  split at h
  · cases h
  · next found mat hmat =>
    split_ifs at h
    simp only [hids] at h
    have hzero : List.replicate found.dim.toNat (0 : R) = (List.range found.dim.toNat).map fun _ => 0 := by
      rw [List.map_const', List.length_range]
    rw [hzero, foldl_embedAdd] at h
    simp only at h
    split_ifs at h with hcount
    cases h
    rw [Nat.zero_add] at hcount
    refine ⟨found, mat, hmat, fun hnil => hcount (congrArg List.length hnil), ?_⟩
    unfold meanRow
    rw [List.map_map]
    apply List.map_congr_left
    intro d hd
    rw [Function.comp_apply, zero_add, Nat.zero_add, List.length_map, List.map_map]
    congr 2
    apply List.map_congr_left
    intro tok _
    exact (tokenVector_getD found mat _ _ (List.mem_range.mp hd)).symm

end Mean

/-! ## Sessions of opened models -/

section Sessions

variable {malloc : ℕ → Bool} {inflate : List UInt8 → ℕ → Option (List UInt8)}
  {qsort : Planner → List SortEntry} {blob : List UInt8} {model : Model}

/-- The graph of an opened model has the ops of its program. -/
lemma ops_of_openBlob (h : paiModelOpenBlob malloc inflate qsort blob = .ok model) :
    HasOps model.graph model.ir.ops := by
  unfold paiModelOpenBlob at h
  obtain ⟨container, -, h⟩ := bind_eq_ok h
  obtain ⟨metaSec, -, h⟩ := bind_eq_ok h
  obtain ⟨info, -, h⟩ := bind_eq_ok h
  obtain ⟨manifestSec, -, h⟩ := bind_eq_ok h
  obtain ⟨manifest, -, h⟩ := bind_eq_ok h
  obtain ⟨⟨weights, weightsBytes⟩, -, h⟩ := bind_eq_ok h
  obtain ⟨irSec, -, h⟩ := bind_eq_ok h
  obtain ⟨ir, hir, h⟩ := bind_eq_ok h
  obtain ⟨graph, hgraph, h⟩ := bind_eq_ok h
  obtain ⟨memPlan, -, h⟩ := bind_eq_ok h
  obtain ⟨tokenizer, -, h⟩ := bind_eq_ok h
  cases h
  have hops := paiIrToGraph_ops ((post_paiIrDecode irSec).of_ok hir) (liftStatus_eq_ok hgraph)
  change HasOps (graphMemoryPlanImpl qsort graph true).1 ir.ops
  unfold graphMemoryPlanImpl
  simp only
  split_ifs
  · exact hops.ensureSorted
  · exact hops.ensureSorted

/-- The graph of a session is that of its model, sorted. -/
lemma graph_of_session {kvInit : UInt64 → UInt32 → UInt32 → PaiStatus} {mem mem' : Memory Space}
    {session : Session} (h : (paiSessionInit model malloc kvInit).run mem = (.ok session, mem')) :
    session.graph = model.graph.ensureSorted.1 := by
  rw [(paiSessionInit_run h).2]
  unfold paiSchedBuildPersistent schedBuildImpl
  simp only
  split_ifs
  · rfl
  · split <;> rfl

/-- A session runs the program of its model. -/
lemma runs_session (hopen : paiModelOpenBlob malloc inflate qsort blob = .ok model) {malloc' : ℕ → Bool}
    {kvInit : UInt64 → UInt32 → UInt32 → PaiStatus} {mem mem' : Memory Space} {session : Session}
    (h : (paiSessionInit model malloc' kvInit).run mem = (.ok session, mem')) :
    Runs model session.graph ∧ session.graph.values = model.graph.values := by
  have hopened := opened_of_openBlob hopen
  have hvalues : model.graph.ensureSorted.1.values = model.graph.values := by
    unfold Graph.ensureSorted paiGraphTopoSort
    split_ifs <;> rfl
  rw [graph_of_session h]
  refine ⟨⟨hopened.built.ensureSorted, ?_, (ops_of_openBlob hopen).ensureSorted⟩, hvalues⟩
  change model.graph.ensureSorted.1.values.map GraphValue.desc = _
  rw [hvalues]
  exact hopened.values

end Sessions

/-! ## The theorem -/

section Agreement

variable {R : Type} [Field R] [LinearOrder R] {value : UInt32 → R} {malloc : ℕ → Bool} {model : Model}
  {graph : Graph} {found : EmbedParam} {op : GraphOp} {input : ℕ} {io : IrOp} {iv : IrValue}
  {mem : Memory Space}

omit [Field R] [LinearOrder R] in
/-- Two matrices with the same elements give the same vectors. -/
lemma tokenVector_congr {mat mat' : ℕ → R} {vocab t : ℕ} (ht : t < vocab)
    (h : ∀ i < found.dim.toNat * vocab, mat i = mat' i) :
    tokenVector found mat vocab t = tokenVector found mat' vocab t := by
  apply List.map_congr_left
  intro d hd
  have hd := List.mem_range.mp hd
  unfold tokenElement
  split_ifs
  · exact h _ (by rw [Nat.mul_comm found.dim.toNat]; exact Exact.row_lt ht hd)
  · exact h _ (Exact.row_lt hd ht)

omit [LinearOrder R] in
/-- Agreement on single tokens is that on the stored matrix, and gives the agreement on texts. -/
lemma embedAgrees_iff (hopen : model.Opened) (hfind : findEmbedParam model = some found)
    (hfound : EmbedFound model found input io iv) :
    EmbedAgrees value malloc model graph found op input mem ↔
      ∀ t, LoadAccepted malloc model found.valueId t iv → found.dim ≤ 0xFFFFFFFF →
        RowsMatch value model graph found op input mem fun i => value (storedWord mem t iv i) := by
  constructor
  · intro h t hload hdim tok htok r hin hout x hx
    have hmatrix : ∃ mat, embedMatrix value malloc model found.dim.toNat mem = .ok (found, mat) ∧ _ :=
      exists_embedMatrix hopen hfind hfound hload hdim
    obtain ⟨mat, hmat, heq⟩ := hmatrix
    rw [h.vectors _ mat hmat tok htok r hin hout x hx]
    exact tokenVector_congr htok heq
  · intro h
    have hvectors : ∀ maxElements mat, embedMatrix value malloc model maxElements mem = .ok (found, mat) →
        RowsMatch value model graph found op input mem mat := by
      intro maxElements mat hmat tok htok r hin hout x hx
      obtain ⟨-, hdim, t, hload, heq⟩ := embedMatrix_spec hfind hfound maxElements found mat hmat
      rw [h t hload hdim tok htok r hin hout x hx]
      exact (tokenVector_congr htok heq).symm
    refine ⟨hvectors, fun maxElements text out ids hres hids r hin hout x hx => ?_⟩
    obtain ⟨f, mat, hmat, hsome, rfl⟩ := paiModelEmbed_eq_mean hres hids
    obtain ⟨rfl, -⟩ := embedMatrix_spec hfind hfound maxElements f mat hmat
    have hrows : ∀ tok ∈ ids.filter fun tok => tok.toNat < model.info.vocabSize.toNat,
        outputRow value graph model.memPlan op input mem (x tok.toNat) r =
          tokenVector f mat model.info.vocabSize.toNat tok.toNat := by
      intro tok htok
      have htok := (List.mem_filter.mp htok).2
      rw [decide_eq_true_eq] at htok
      exact hvectors maxElements mat hmat _ htok r hin hout _ (hx _ htok)
    -- the rows have the length of the vectors
    have hcols : (graph.valueAt (op.outputs.getD 0 0)).cols = f.dim.toNat := by
      obtain ⟨tok, htok⟩ := List.exists_mem_of_ne_nil _ hsome
      have hlen := congrArg List.length (hrows tok htok)
      rw [outputRow, tokenVector] at hlen
      simpa only [List.length_map, List.length_range] using hlen
    rw [hcols, List.map_congr_left hrows]

section Executed

variable {malloc malloc' : ℕ → Bool} {inflate : List UInt8 → ℕ → Option (List UInt8)}
  {qsort : Planner → List SortEntry} {kvInit : UInt64 → UInt32 → UInt32 → PaiStatus} {blob : List UInt8}
  {session : Session} {mem' mem'' : Memory Space}
  (hopen : paiModelOpenBlob malloc inflate qsort blob = .ok model)
  (hinit : (paiSessionInit model malloc' kvInit).run mem = (.ok session, mem'))
  (hop : session.graph.op? found.op = some op)
  (hexec : (runOp malloc' session.graph model.memPlan op).run mem' = (.ok (), mem''))

include hopen hinit hop hexec

/-- The two paths agree exactly when the region and the stored matrix are aligned. -/
lemma embedAgrees_iff_aligned {id : UInt32} (hfind : findEmbedParam model = some found)
    (hinput : model.ir.inputIds.head? = some id)
    (hvocab : (session.graph.valueAt id.toNat).cols = model.info.vocabSize.toNat) {malloc'' : ℕ → Bool} :
    EmbedAgrees value malloc'' model session.graph found op id.toNat mem' ↔
      EmbedAligned value malloc'' model found op id.toNat mem' := by
  obtain ⟨hruns, -⟩ := runs_session hopen hinit
  obtain ⟨inputId, io, iv, hfound⟩ := findEmbedParam_spec hfind
  obtain rfl : id.toNat = inputId := by
    have hhead := hfound.input
    rw [hinput] at hhead
    exact Option.some.inj hhead
  obtain ⟨-, a, b, c, m, n, k, hprod⟩ := hruns.product hfound hop hexec
  rw [embedAgrees_iff (opened_of_openBlob hopen) hfind hfound]
  unfold EmbedAligned
  constructor
  · intro h t iv' hload hdim
    obtain rfl : iv = iv' := Option.some.inj (hfound.value.1.symm.trans hload.value)
    exact (rowsMatch_iff hruns hfound hprod hvocab).mp (h t hload hdim)
  · intro h t hload hdim
    exact (rowsMatch_iff hruns hfound hprod hvocab).mpr (h t iv hload hdim)

/-- The region holds the stored matrix, if no later entry reaches it. -/
lemma region_holds_stored (hfind : findEmbedParam model = some found) {malloc'' : ℕ → Bool} {t : PaiTensor}
    (hload : LoadAccepted malloc'' model found.valueId t iv)
    (hlater : LaterApart model found.valueId (session.graph.valueAt found.valueId)) {i : ℕ}
    (hi : i < iv.numel) :
    mem'.word .region (valuePtr model.memPlan found.valueId + 4 * i) = storedWord mem' t iv i := by
  obtain ⟨hruns, hvalues⟩ := runs_session hopen hinit
  obtain ⟨inputId, io, iv', hfound⟩ := findEmbedParam_spec hfind
  obtain ⟨-, a, b, c, m, n, k, hprod⟩ := hruns.product hfound hop hexec
  have hmem : found.valueId ∈ op.inputs := by
    rw [hprod.inputs]
    rcases hprod.operands with ⟨-, -, hb⟩ | ⟨-, -, ha⟩
    · rw [← hb]
      exact List.mem_cons_of_mem a (List.mem_singleton_self b)
    · rw [← ha]
      exact List.mem_cons_self
  obtain ⟨h1, h2⟩ := (hruns.built.op_wf hop).inputs_exist _ hmem
  obtain ⟨v, hv⟩ := Graph.value?_of_le h1 h2
  have hat : session.graph.valueAt found.valueId = v := by
    rw [Graph.valueAt, hv]
    rfl
  have hv' : model.graph.value? found.valueId = some v := by
    rw [Graph.value?, hvalues] at hv
    exact hv
  have hf32 := hprod.f32 _ (List.mem_append_left _ hmem)
  rw [hat] at hf32 hlater
  exact paiSessionInit_holds (opened_of_openBlob hopen) hload hv' hf32 hlater hinit hi

end Executed

/-- For every opened model with an embedding parameter whose input has the vocabulary as its last extent,
every session of it and every run of the op of the parameter that succeeds: the vectors of the embedding
path are the op's output rows on one-hot inputs, and an embedding their mean, exactly when the region and
the stored matrix are aligned; and where no later entry of the manifest reaches the parameter, the two hold
the same words. -/
theorem paiModelEmbed_agrees_iff (value : UInt32 → R) (malloc malloc' malloc'' : ℕ → Bool)
    (inflate : List UInt8 → ℕ → Option (List UInt8)) (qsort : Planner → List SortEntry)
    (kvInit : UInt64 → UInt32 → UInt32 → PaiStatus) (blob : List UInt8) (model : Model)
    (found : EmbedParam) (session : Session) (op : GraphOp) (input : UInt32) (mem mem' mem'' : Memory Space)
    (hopen : paiModelOpenBlob malloc inflate qsort blob = .ok model)
    (hfind : findEmbedParam model = some found) (hinput : model.ir.inputIds.head? = some input)
    (hinit : (paiSessionInit model malloc' kvInit).run mem = (.ok session, mem'))
    (hvocab : (session.graph.valueAt input.toNat).cols = model.info.vocabSize.toNat)
    (hop : session.graph.op? found.op = some op)
    (hexec : (runOp malloc' session.graph model.memPlan op).run mem' = (.ok (), mem'')) :
    (EmbedAgrees value malloc'' model session.graph found op input.toNat mem' ↔
        EmbedAligned value malloc'' model found op input.toNat mem') ∧
      ∀ t iv, LoadAccepted malloc'' model found.valueId t iv →
        LaterApart model found.valueId (session.graph.valueAt found.valueId) →
        ∀ i < iv.numel, mem'.word .region (valuePtr model.memPlan found.valueId + 4 * i) =
          storedWord mem' t iv i :=
  ⟨embedAgrees_iff_aligned hopen hinit hop hexec hfind hinput hvocab,
    fun _ _ hload hlater _ hi => region_holds_stored hopen hinit hop hexec hfind hload hlater hi⟩

end Agreement

/-! ## A square matrix behind a `GEMV` -/

/-- A container with a square embedding matrix, multiplied from the left by a `GEMV`. -/
def gemvContainer : List UInt8 :=
  packContainer ⟨[109], 1, 1, 0, 0, 2, 0⟩ [⟨[119], 2, .f32, 2, padDims [2, 2], 0, 16⟩]
    (leBytes 4 0 ++ oneF32 ++ leBytes 4 0 ++ leBytes 4 0)
    (irBuild [.addValue .f32 [2] 16 1 0, .addValue .f32 [2, 2] 16 2 0, .addValue .f32 [2] 16 4 0,
      .addOp 4 0 [2, 1] [3], .setInput 1, .setOutput 3]) none

lemma gemvProgram_accepted : (irBuild [.addValue .f32 [2] 16 1 0, .addValue .f32 [2, 2] 16 2 0,
    .addValue .f32 [2] 16 4 0, .addOp 4 0 [2, 1] [3], .setInput 1, .setOutput 3]).Accepted :=
  ⟨irBuilt_run _, by unfold IrOp.HasOperands; decide +kernel⟩

/-- Memory that holds the weights of a model. -/
def weightsMemory (model : Model) : Memory Space
  | .weights, i => model.weights.getD i 0
  | _, _ => 0

/-- The session of a model and the region it starts with, if it can be made. -/
def startSession (model : Model) : Option (Session × Memory Space) :=
  match (paiSessionInit model (fun _ => true) fun _ _ _ => paiOk).run (weightsMemory model) with
  | (.ok session, mem) => some (session, mem)
  | (.error _, _) => none

set_option maxRecDepth 20000 in
/-- What the example container is opened to, and what its session holds. -/
lemma gemvContainer_opens : ∃ model,
    paiModelOpenBlob (fun _ => true) (fun _ _ => none) sortEntries gemvContainer = .ok model ∧
      decide (findEmbedParam model = some ⟨1, 1, 0, 2, true, 2⟩ ∧ model.ir.inputIds.head? = some 1 ∧
        model.info.vocabSize = 2 ∧ model.manifest = [⟨[119], 2, .f32, 2, padDims [2, 2], 0, 16⟩] ∧
        (model.ir.valueAt 2).map (fun iv => iv.quant.present) = some 0 ∧
        ((loadValueF32 model (fun _ => true) 2).run fun _ _ => 0).1.isOk = true ∧
        (startSession model).map (fun s => (s.1.graph.op? 1, (s.1.graph.valueAt 1).cols)) =
          some (some ⟨.gemv, [2, 1], [3], 0⟩, 2) ∧
        (startSession model).map (fun s =>
          ((runOp (fun _ => true) s.1.graph model.memPlan ⟨.gemv, [2, 1], [3], 0⟩).run s.2).1.isOk) =
            some true ∧
        (startSession model).map (fun s => (s.2.word .weights 4, s.2.word .weights 8)) =
          some (0x3F800000, 0)) = true :=
  exists_of_packContainer rfl rfl (buildable_of_test (by decide +kernel)) gemvProgram_accepted
    (by decide +kernel)

/-- The numbers zero and one. -/
def oneOrZero (w : UInt32) : ℚ := if w = 0x3F800000 then 1 else 0

/-- A session of the example container. -/
lemma exists_gemvSession : ∃ model session mem' mem'' t iv,
    paiModelOpenBlob (fun _ => true) (fun _ _ => none) sortEntries gemvContainer = .ok model ∧
    findEmbedParam model = some ⟨1, 1, 0, 2, true, 2⟩ ∧ model.ir.inputIds.head? = some 1 ∧
    model.info.vocabSize = 2 ∧
    (paiSessionInit model (fun _ => true) fun _ _ _ => paiOk).run (weightsMemory model) =
      (.ok session, mem') ∧
    (session.graph.valueAt 1).cols = 2 ∧ session.graph.op? 1 = some ⟨.gemv, [2, 1], [3], 0⟩ ∧
    (runOp (fun _ => true) session.graph model.memPlan ⟨.gemv, [2, 1], [3], 0⟩).run mem' =
      (.ok (), mem'') ∧
    LoadAccepted (fun _ => true) model 2 t iv ∧ LaterApart model 2 (session.graph.valueAt 2) ∧
    storedWord mem' t iv 1 = 0x3F800000 ∧ storedWord mem' t iv 2 = 0 := by
  obtain ⟨model, hopen, heval⟩ := gemvContainer_opens
  obtain ⟨hfind, hinput, hvocab, hmanifest, hpresent, hload, hgraph, hexec, hwords⟩ :=
    of_decide_eq_true heval
  cases hstart : startSession model with
  | none =>
    rw [hstart] at hgraph
    cases hgraph
  | some s =>
    obtain ⟨session, mem'⟩ := s
    rw [hstart] at hgraph hexec hwords
    simp only [Option.map_some, Option.some.injEq, Prod.mk.injEq] at hgraph hexec hwords
    have hinit : (paiSessionInit model (fun _ => true) fun _ _ _ => paiOk).run (weightsMemory model) =
        (.ok session, mem') := by
      unfold startSession at hstart
      split at hstart
      · next session' mem₁ hrun =>
        cases hstart
        exact hrun
      · cases hstart
    rcases hrun : (runOp (fun _ => true) session.graph model.memPlan ⟨.gemv, [2, 1], [3], 0⟩).run mem' with
      ⟨e | u, mem''⟩
    · rw [hrun] at hexec
      cases hexec
    rcases hloaded : (loadValueF32 model (fun _ => true) 2).run fun _ _ => 0 with ⟨e | n, mem₂⟩
    · rw [hloaded] at hload
      cases hload
    obtain ⟨t, iv, haccepted⟩ := LoadAccepted.of_run hloaded
    have hraw : iv.quant.present = 0 := by
      rw [haccepted.value] at hpresent
      exact Option.some.inj hpresent
    have hentry : t = ⟨[119], 2, .f32, 2, padDims [2, 2], 0, 16⟩ := by
      have hentry := haccepted.entry
      rw [hmanifest] at hentry
      exact (Option.some.inj hentry).symm
    have hstored (i : ℕ) : storedWord mem' t iv i = mem'.word .weights (4 * i) := by
      rw [storedWord, if_neg (not_not.mpr hraw), hentry]
      exact congrArg (mem'.word .weights) (Nat.zero_add _)
    refine ⟨model, session, mem', mem'', t, iv, hopen, hfind, hinput, hvocab, hinit, hgraph.2, hgraph.1,
      hrun, haccepted, ?_, (hstored 1).trans hwords.1, (hstored 2).trans hwords.2⟩
    intro u hu
    unfold laterEntries at hu
    rw [hmanifest] at hu
    exact absurd hu List.not_mem_nil

/-- The equivalence at the example container, whose region holds the stored matrix. -/
theorem paiModelEmbed_agrees_iff_gemv : ∃ (model : Model) (session : Session) (mem' : Memory Space)
    (t : PaiTensor) (iv : IrValue),
    (EmbedAgrees oneOrZero (fun _ => true) model session.graph ⟨1, 1, 0, 2, true, 2⟩
        ⟨.gemv, [2, 1], [3], 0⟩ 1 mem' ↔
      EmbedAligned oneOrZero (fun _ => true) model ⟨1, 1, 0, 2, true, 2⟩ ⟨.gemv, [2, 1], [3], 0⟩ 1 mem') ∧
    LoadAccepted (fun _ => true) model 2 t iv ∧
    ∀ i < iv.numel, mem'.word .region (valuePtr model.memPlan 2 + 4 * i) = storedWord mem' t iv i := by
  obtain ⟨model, session, mem', mem'', t, iv, hopen, hfind, hinput, hvocab, hinit, hcols, hop, hexec,
    hload, hlater, -, -⟩ := exists_gemvSession
  have hvalue : (session.graph.valueAt (1 : UInt32).toNat).cols = model.info.vocabSize.toNat := by
    rw [hvocab]
    exact hcols
  have h := paiModelEmbed_agrees_iff oneOrZero (fun _ => true) (fun _ => true) (fun _ => true)
    (fun _ _ => none) sortEntries (fun _ _ _ => paiOk) gemvContainer model _ session _ 1 _ mem' mem'' hopen
    hfind hinput hinit hvalue hop hexec
  exact ⟨model, session, mem', t, iv, h.1, hload, h.2 t iv hload hlater⟩

/-- With a square matrix behind a `GEMV` the vector of a token is a row and the output a column: for the
matrix with rows `(0, 1)` and `(0, 0)` the two differ. -/
theorem gemvContainer_disagrees : ∃ model session mem' mem'',
    paiModelOpenBlob (fun _ => true) (fun _ _ => none) sortEntries gemvContainer = .ok model ∧
    findEmbedParam model = some ⟨1, 1, 0, 2, true, 2⟩ ∧ model.ir.inputIds.head? = some 1 ∧
    (paiSessionInit model (fun _ => true) fun _ _ _ => paiOk).run (weightsMemory model) =
      (.ok session, mem') ∧
    (session.graph.valueAt 1).cols = model.info.vocabSize.toNat ∧
    session.graph.op? 1 = some ⟨.gemv, [2, 1], [3], 0⟩ ∧
    (runOp (fun _ => true) session.graph model.memPlan ⟨.gemv, [2, 1], [3], 0⟩).run mem' =
      (.ok (), mem'') ∧
    ¬ EmbedAgrees oneOrZero (fun _ => true) model session.graph ⟨1, 1, 0, 2, true, 2⟩
      ⟨.gemv, [2, 1], [3], 0⟩ 1 mem' := by
  obtain ⟨model, session, mem', mem'', t, iv, hopen, hfind, hinput, hvocab, hinit, hcols, hop, hexec,
    hload, hlater, hone, htwo⟩ := exists_gemvSession
  have hvalue : (session.graph.valueAt 1).cols = model.info.vocabSize.toNat := by
    rw [hvocab]
    exact hcols
  refine ⟨model, session, mem', mem'', hopen, hfind, hinput, hinit, hvalue, hop, hexec, fun h => ?_⟩
  have haligned := (embedAgrees_iff_aligned hopen hinit hop hexec hfind hinput hvalue).mp h t iv hload
    (by decide)
  unfold AlignedWith at haligned
  rw [if_neg (by decide), if_pos rfl, hvocab] at haligned
  -- element one of the vector of token zero
  have helem : regionElement oneOrZero model ⟨1, 1, 0, 2, true, 2⟩ mem' 2 = oneOrZero (storedWord mem' t iv 1) :=
    haligned 0 (by decide) 1 (by decide)
  obtain ⟨inputId, io, iv', hfound⟩ := findEmbedParam_spec hfind
  obtain rfl : iv' = iv := Option.some.inj (hfound.value.1.symm.trans hload.value)
  have hnumel : iv'.numel = 4 := by
    rw [hfound.numel (opened_of_openBlob hopen), hvocab]
    rfl
  have hregion := region_holds_stored hopen hinit hop hexec hfind hload hlater
    (show 2 < iv'.numel by omega)
  rw [regionElement, hregion, hone, htwo] at helem
  exact absurd helem (by decide)

end Prospero
