import Prospero.Models.SessionHistory

/-!
# Generations do not depend on earlier calls

A step of a generation clears the whole graph input before it sets the one-hot floats, so what it computes
depends on the values that no op produces, the input apart, and it leaves these alone
(`Planned.determined_sessionGenerate`), as long as the stores of the step stay inside the input and the sampled
floats inside the output (`GenerationFits`).  Then a generation is the same as on a new session, whatever calls
came before it (`sessionGenerate_independent`).

Nothing in the code ensures the condition, and a float behind the input changes a weight for good
(`rememberingContainer_remembers`).

### Outline

* `determined_sessionSequence`, `determined_sessionTokens`: the two loops.
* `Planned.step_keeps`, `Planned.after_keeps`: what one call and what a sequence of calls leaves alone.
* `sessionGenerate_independent`: the generation behind any calls.
-/

namespace Prospero

open Buffer ByteString Footprint Reader SharedStore

/-! ## Generations -/

section Loops

variable {σ : Type} {model : Model} {code : SamplerCode σ} {exec : Memory Space → Option PaiStatus × Memory Space}
  {cancels : List (List UInt8) → Bool} {eosToken : UInt32} {keep S : Set (Space × ℕ)}

lemma determined_sampleFloats {sampler : σ} {addr n : ℕ} (hknown : bytesOf .region addr (4 * n) ⊆ S) :
    Determined keep (fun _ T => T = S) S (sampleFloats code sampler addr n) := by
  unfold sampleFloats
  split_ifs
  · exact .ret rfl
  · refine Determined.bind (determined_loadBytes hknown) ?_
    rintro bs T ⟨-, rfl⟩
    exact .ret rfl

/-- The one-hot floats of `n` positions. -/
lemma determined_feedTokens {inPtr inSize vocab i n len : ℕ} (hlen : i + n ≤ len) (hids : idBytes len ⊆ S)
    (hroom : 4 * (len * vocab) ≤ inSize) (hin : ∀ x ∈ bytesOf .region inPtr inSize, x ∉ keep) :
    Determined keep (fun _ T => S ⊆ T) S (feedTokens inPtr vocab i n) := by
  induction n generalizing i S with
  | zero => exact .ret subset_rfl
  | succ n ih =>
    have hid : bytesOf .scratch (4 * i) 4 ⊆ S :=
      (bytesOf_subset (Nat.zero_le _) (by omega)).trans hids
    refine Determined.bind (determined_loadBytes hid) ?_
    rintro bs T ⟨-, rfl⟩
    split_ifs with hvocab
    · exact .ret subset_rfl
    -- the position is below `len` and the id below `vocab`
    have hmul : (i + 1) * vocab ≤ len * vocab := Nat.mul_le_mul_right vocab (by omega)
    rw [Nat.add_mul, Nat.one_mul] at hmul
    have hone : oneF32.length = 4 := rfl
    refine Determined.bind (determined_storeBytes fun x hx => hin x ?_) ?_
    · exact bytesOf_subset (Nat.le_add_right _ _) (by omega) hx
    · rintro - T rfl
      exact (ih (by omega) (hids.trans Set.subset_union_left)).mono
        fun _ _ h => Set.subset_union_left.trans h

/-- The loop over a sequence. -/
lemma determined_sessionSequence {inPtr inSize outPtr outSize ctx vocab left seqLen : ℕ} {g : GenState σ}
    (hexec : ExecKeeps keep exec inPtr inSize outPtr outSize) (hpos : seqLen ≠ 0)
    (hin : 4 * ((ctx - 1) * vocab) ≤ inSize) (hout : 4 * ((ctx - 1) * vocab) ≤ outSize)
    (hS : keep ∪ idBytes seqLen ⊆ S) :
    Determined keep (fun _ _ => True) S
      (sessionSequence model code exec cancels eosToken inPtr outPtr inSize ctx vocab left seqLen g) := by
  induction left generalizing seqLen g S with
  | zero => exact .ret trivial
  | succ left ih =>
    rw [sessionSequence]
    by_cases hfull : ctx ≤ seqLen
    · rw [if_pos hfull]
      exact .ret trivial
    rw [if_neg hfull]
    have hrow : seqLen * vocab ≤ (ctx - 1) * vocab := Nat.mul_le_mul_right vocab (by omega)
    have hlast : (seqLen - 1) * vocab + vocab = seqLen * vocab := by
      rw [← Nat.succ_mul, Nat.succ_eq_add_one, Nat.sub_add_cancel (Nat.pos_of_ne_zero hpos)]
    refine Determined.bind (determined_storeBytes fun x hx => hexec.input x ?_) ?_
    · rwa [List.length_replicate] at hx
    rintro - T rfl
    rw [List.length_replicate]
    have hfeed : Determined keep (fun _ T => S ∪ bytesOf .region inPtr inSize ⊆ T)
        (S ∪ bytesOf .region inPtr inSize) (feedTokens inPtr vocab 0 seqLen) :=
      determined_feedTokens (Nat.zero_add seqLen).le
        ((Set.subset_union_right.trans hS).trans Set.subset_union_left) (by omega) hexec.input
    refine Determined.bind hfeed fun fed T hT => ?_
    split_ifs
    · exact .ret trivial
    -- the kept bytes, the whole input and the ids are known
    have hknown : keep ∪ bytesOf .region inPtr inSize ∪ idBytes seqLen ⊆ T := by
      refine Set.union_subset (Set.union_subset ?_ ?_) ?_
      · exact ((Set.subset_union_left.trans hS).trans Set.subset_union_left).trans hT
      · exact Set.subset_union_right.trans hT
      · exact ((Set.subset_union_right.trans hS).trans Set.subset_union_left).trans hT
    refine Determined.bind (determined_callOther (hexec.exec seqLen T hknown)) ?_
    rintro status U rfl
    cases status with
    | some e => exact .ret trivial
    | none =>
      rw [if_pos rfl]
      have hfloats : bytesOf .region (outPtr + 4 * ((seqLen - 1) * vocab)) (4 * vocab) ⊆
          keep ∪ bytesOf .region outPtr outSize ∪ idBytes seqLen :=
        (bytesOf_subset (Nat.le_add_right _ _) (by omega)).trans
          (Set.subset_union_right.trans Set.subset_union_left)
      refine Determined.bind (determined_sampleFloats hfloats) ?_
      rintro ⟨sampled, sampler⟩ V rfl
      dsimp only
      cases sampled with
      | error e => exact .ret trivial
      | ok sampled =>
        dsimp only
        cases paiTokDecode model.tokenizer [sampled] genTextSize with
        | error e => exact .ret trivial
        | ok text =>
          dsimp only
          split
          · exact .ret trivial
          have hword : (u32le sampled).length = 4 := length_leBytes 4 _
          refine Determined.bind (determined_storeBytes fun x hx hkeep => ?_) ?_
          · exact Space.noConfusion (hx.1.symm.trans (hexec.region x hkeep))
          rintro - W rfl
          split_ifs
          · exact .ret trivial
          refine ih (Nat.succ_ne_zero seqLen) (Set.union_subset ?_ ?_)
          · exact (Set.subset_union_left.trans Set.subset_union_left).trans Set.subset_union_left
          · rintro x ⟨hspace, -, hlt⟩
            by_cases hold : x.2 < 4 * seqLen
            · exact Or.inl (Or.inr ⟨hspace, Nat.zero_le _, by omega⟩)
            · exact Or.inr ⟨hspace, by omega, by omega⟩

/-- The loop over single tokens. -/
lemma determined_sessionTokens {inPtr inSize outPtr outSize vocab outFloats left : ℕ} {cur : UInt32}
    {g : GenState σ} (hexec : ExecKeeps keep exec inPtr inSize outPtr outSize) (hin : 4 * vocab ≤ inSize)
    (hout : 4 * outFloats ≤ outSize) (hS : keep ⊆ S) :
    Determined keep (fun _ _ => True) S
      (sessionTokens model code exec cancels eosToken inPtr outPtr inSize vocab outFloats left cur g) := by
  induction left generalizing cur g S with
  | zero => exact .ret trivial
  | succ left ih =>
    rw [sessionTokens]
    by_cases hcur : vocab ≤ cur.toNat
    · rw [if_pos hcur]
      exact .ret trivial
    rw [if_neg hcur]
    have hone : oneF32.length = 4 := rfl
    refine Determined.bind (determined_storeBytes fun x hx => hexec.input x ?_) ?_
    · rwa [List.length_replicate] at hx
    rintro - T rfl
    rw [List.length_replicate]
    refine Determined.bind (determined_storeBytes fun x hx => hexec.input x ?_) ?_
    · exact bytesOf_subset (Nat.le_add_right _ _) (by omega) hx
    rintro - T rfl
    have hknown : keep ∪ bytesOf .region inPtr inSize ∪ idBytes 0 ⊆
        S ∪ bytesOf .region inPtr inSize ∪ bytesOf .region (inPtr + 4 * cur.toNat) oneF32.length := by
      refine Set.union_subset (Set.Subset.trans ?_ Set.subset_union_left) ?_
      · exact Set.union_subset_union_left _ hS
      · rintro x ⟨-, -, hlt⟩
        omega
    refine Determined.bind (determined_callOther (hexec.exec 0 _ hknown)) ?_
    rintro status U rfl
    cases status with
    | some e => exact .ret trivial
    | none =>
      rw [if_pos rfl]
      have hfloats : bytesOf .region outPtr (4 * outFloats) ⊆
          keep ∪ bytesOf .region outPtr outSize ∪ idBytes 0 :=
        (bytesOf_subset le_rfl (by omega)).trans (Set.subset_union_right.trans Set.subset_union_left)
      refine Determined.bind (determined_sampleFloats hfloats) ?_
      rintro ⟨sampled, sampler⟩ V rfl
      dsimp only
      cases sampled with
      | error e => exact .ret trivial
      | ok sampled =>
        dsimp only
        cases paiTokDecode model.tokenizer [sampled] genTextSize with
        | error e => exact .ret trivial
        | ok text =>
          dsimp only
          split_ifs
          · exact .ret trivial
          · exact .ret trivial
          · exact ih (Set.subset_union_left.trans Set.subset_union_left)

/-- The ids of the prompt are known behind the tokenizer, and there is one at least. -/
lemma determined_tokenizePrompt {env : GenEnv} {prompt : List UInt8} (hkeep : ∀ x ∈ keep, x.1 = Space.region) :
    Determined keep (fun r T => ∀ n cur, r = .ok (n, cur) → n ≠ 0 ∧ keep ∪ idBytes n ⊆ T) keep
      (tokenizePrompt model env prompt) := by
  unfold tokenizePrompt
  split_ifs
  · exact .ret fun n cur h => by cases h
  simp only
  cases paiTokEncode model.tokenizer ((cString prompt).take ((cString prompt).length % 0x100000000))
      paiTokMaxInput with
  | error e => exact .ret fun n cur h => by cases h
  | ok ids =>
    simp only
    by_cases hempty : ids.length = 0
    · rw [if_pos hempty]
      exact .ret fun n cur h => by cases h
    rw [if_neg hempty]
    have hbytes : (ids.flatMap u32le).length = 4 * ids.length := by
      rw [List.length_flatMap]
      simp [Nat.mul_comm]
    refine Determined.bind (determined_storeBytes fun x hx hin => ?_) ?_
    · exact Space.noConfusion (hx.1.symm.trans (hkeep x hin))
    rintro - T rfl
    rw [hbytes]
    have hlast : bytesOf .scratch (4 * (ids.length - 1)) 4 ⊆ keep ∪ bytesOf .scratch 0 (4 * ids.length) :=
      (bytesOf_subset (Nat.zero_le _) (by omega)).trans Set.subset_union_right
    refine Determined.bind (determined_loadBytes hlast) ?_
    rintro bs T ⟨-, rfl⟩
    refine .ret fun n cur h => ?_
    obtain ⟨rfl, -⟩ := Prod.mk.inj (Except.ok.inj h)
    exact ⟨hempty, subset_rfl⟩

end Loops

section History

variable {σ : Type} {qsort : Planner → List SortEntry} {model : Model} {session : Session}

/-- The value that a generation feeds. -/
def Model.inputValue (model : Model) : ℕ := (model.ir.inputIds.head?.map UInt32.toNat).getD 0

/-- The bytes that every generation of a session leaves alone. -/
def sessionBytes (model : Model) (session : Session) : Set (Space × ℕ) :=
  keptBytes session.graph model.memPlan model.inputValue

/-- A generation depends on the values that no op produces, the graph input apart, and leaves them alone. -/
lemma Planned.determined_sessionGenerate (h : Planned qsort model session) (hfits : GenerationFits model session)
    (code : SamplerCode σ) (meaning : OpMeaning PaiStatus) (eosToken : UInt32) (call : GenCall)
    (maxTokens : UInt32) (g : GenState σ) :
    Determined (sessionBytes model session) (fun _ _ => True) (sessionBytes model session)
      (sessionGenerate model code (interpretPlan session.graph model.memPlan session.plan meaning) eosToken
        session call maxTokens g) := by
  unfold sessionGenerate
  by_cases htok : model.tokenizer.tokens.length = 0
  · rw [if_pos htok]
    exact .ret trivial
  rw [if_neg htok]
  cases hinput : model.ir.inputIds.head? with
  | none => exact .ret trivial
  | some inputId =>
  cases houtput : model.ir.outputIds.head? with
  | none => exact .ret trivial
  | some outputId =>
  simp only
  cases hin : session.graph.value? inputId.toNat with
  | none => exact .ret trivial
  | some inValue =>
  cases hout : session.graph.value? outputId.toNat with
  | none => exact .ret trivial
  | some outValue =>
  simp only
  by_cases hshape : shapeRefused model inValue outValue = true
  · rw [if_pos hshape]
    exact .ret trivial
  rw [if_neg hshape]
  rw [Bool.not_eq_true] at hshape
  have hroom := hfits inputId outputId inValue outValue hinput houtput hin hout hshape
  have hmark := h.outputs outputId (List.mem_of_mem_head? houtput) outValue hout
  have hexec := h.execKeeps meaning hin hout hmark
  have hbytes : sessionBytes model session = keptBytes session.graph model.memPlan inputId.toNat := by
    rw [sessionBytes, Model.inputValue, hinput]
    rfl
  rw [hbytes]
  refine Determined.bind (determined_tokenizePrompt hexec.region) fun r T hr => ?_
  cases r with
  | error e => exact .ret trivial
  | ok r =>
    obtain ⟨n, cur⟩ := r
    obtain ⟨hn, hknown⟩ := hr n cur rfl
    simp only
    by_cases hrank : inValue.rank = 2
    · rw [if_pos hrank] at hroom ⊢
      unfold shapeRefused at hshape
      rw [if_pos hrank] at hshape
      simp only [Bool.or_eq_false_iff, decide_eq_false_iff_not] at hshape
      obtain ⟨⟨⟨⟨⟨-, hctx⟩, -⟩, -⟩, -⟩, -⟩ := hshape
      have hne : (genCtx inValue).toNat ≠ 0 := fun hz => hctx (UInt32.toNat_inj.mp hz)
      have hids : idBytes (min n (genCtx inValue).toNat) ⊆ idBytes n :=
        bytesOf_subset le_rfl (by omega)
      exact determined_sessionSequence hexec (by omega) hroom.1 hroom.2
        ((Set.union_subset_union_right _ hids).trans hknown)
    · rw [if_neg hrank] at hroom ⊢
      exact determined_sessionTokens hexec hroom.1 hroom.2 (Set.subset_union_left.trans hknown)

variable (code : SamplerCode σ) (meaning : OpMeaning PaiStatus)

/-- A generation resets the flag and the counter before it uses them. -/
lemma outcome_sessionGenerate {exec : Memory Space → Option PaiStatus × Memory Space} {eosToken maxTokens : UInt32}
    {call : GenCall} {g g' : GenState σ} (hsampler : g.sampler = g'.sampler)
    (hdelivered : g.delivered = g'.delivered) (mem : Memory Space) :
    GenState.outcome ((sessionGenerate model code exec eosToken session call maxTokens g).run mem).1 =
      GenState.outcome ((sessionGenerate model code exec eosToken session call maxTokens g').run mem).1 := by
  have hreset : ({ g with generatedTokens := 0, cancelled := false } : GenState σ) =
      { g' with generatedTokens := 0, cancelled := false } := by
    rw [GenState.mk.injEq]
    exact ⟨hsampler, rfl, rfl, hdelivered⟩
  have hret (status : PaiStatus) : (status, g.delivered) = (status, g'.delivered) := by rw [hdelivered]
  unfold sessionGenerate
  split_ifs
  · exact hret _
  split
  · split
    · split
      · exact hret _
      change GenState.outcome ((Prog.bind _ _).run mem).1 = GenState.outcome ((Prog.bind _ _).run mem).1
      rw [Prog.run_bind, Prog.run_bind]
      rcases (tokenizePrompt model call.env call.prompt).run mem with ⟨e | e | ⟨n, cur⟩, mem'⟩
      · rfl
      · exact hret _
      · simp only [hreset]
    · exact hret _
  · exact hret _

/-- Sessions that agree on what their generations depend on generate the same. -/
lemma Planned.generate_congr (h : Planned qsort model session) (hfits : GenerationFits model session)
    {st st' : SessionState σ} (hmem : AgreeOn (sessionBytes model session) st.mem st'.mem)
    (hsampler : st.sampler = st'.sampler) (hmax : st.maxTokens = st'.maxTokens)
    (heos : st.eosToken = st'.eosToken) (call : GenCall) :
    st.generate model session code meaning call = st'.generate model session code meaning call := by
  unfold SessionState.generate SessionState.generateProg
  rw [(h.determined_sessionGenerate hfits code meaning _ call _ _).run hmem, hmax, heos]
  refine outcome_sessionGenerate code ?_ ?_ st'.mem
  · exact hsampler
  · rfl

/-- A call leaves the bytes of a session alone. -/
lemma Planned.step_keeps (h : Planned qsort model session) (hfits : GenerationFits model session)
    (st : SessionState σ) (c : HistoryCall σ) :
    AgreeOn (sessionBytes model session) (st.step model session code meaning c).mem st.mem := by
  cases c with
  | setSampler sampler => exact fun _ _ => rfl
  | setGeneration maxTokens eosToken =>
    change AgreeOn _ (st.setGeneration maxTokens eosToken).1.mem st.mem
    unfold SessionState.setGeneration
    split_ifs
    · exact fun _ _ => rfl
    · exact fun _ _ => rfl
  | cancel => exact fun _ _ => rfl
  | generate call =>
    have hkeep := (h.determined_sessionGenerate hfits code meaning st.eosToken call st.maxTokens
      ⟨st.sampler, st.cancelled, st.generatedTokens, []⟩).run_keep st.mem
    change AgreeOn _ (st.afterGenerate model session code meaning call).mem st.mem
    unfold SessionState.afterGenerate
    simp only
    split
    · exact hkeep
    · exact hkeep

/-- So does a sequence of calls. -/
lemma Planned.after_keeps (h : Planned qsort model session) (hfits : GenerationFits model session)
    (st : SessionState σ) (calls : List (HistoryCall σ)) :
    AgreeOn (sessionBytes model session) (st.after model session code meaning calls).mem st.mem := by
  induction calls generalizing st with
  | nil => exact fun _ _ => rfl
  | cons c calls ih =>
    exact fun x hx => (ih (st.step model session code meaning c) x hx).trans
      (h.step_keeps code meaning hfits st c x hx)

end History

/-- For every opened model whose plan has no offset that wraps and whose input and output have room for what
the vocabulary makes, every session of it, every sampler, every meaning of the ops and every earlier calls: a
generation behind `pai_session_set_sampler` and `pai_session_set_generation` delivers the same texts and returns
the same status as on a session that has just been initialised, whatever its private buffers hold. -/
theorem sessionGenerate_independent {σ : Type} {malloc malloc' : ℕ → Bool}
    {inflate : List UInt8 → ℕ → Option (List UInt8)} {qsort : Planner → List SortEntry}
    {kvInit : UInt64 → UInt32 → UInt32 → PaiStatus} {blob : List UInt8} {model : Model} {session : Session}
    {mem₀ mem fresh : Memory Space} (hopen : paiModelOpenBlob malloc inflate qsort blob = .ok model)
    (hinit : (paiSessionInit model malloc' kvInit).run mem₀ = (.ok session, mem))
    (hfresh : fresh .region = mem .region)
    (hqsort : ∀ planner, model.graph.planner true = .ok planner → IsQsorted planner (qsort planner))
    (hrange : ∀ planner, model.graph.planner true = .ok planner → SweepInRange Sweep.init (qsort planner))
    (hfits : GenerationFits model session) (code : SamplerCode σ) (meaning : OpMeaning PaiStatus)
    (initial initial' : σ) (calls : List (HistoryCall σ)) (sampler : σ) {maxTokens : UInt32} (hmax : maxTokens ≠ 0) (eosToken : UInt32) (call : GenCall) :
    ((SessionState.fresh mem initial).after model session code meaning
        (calls ++ [.setSampler sampler, .setGeneration maxTokens eosToken])).generate model session code meaning
        call =
      ((SessionState.fresh fresh initial').after model session code meaning
        [.setSampler sampler, .setGeneration maxTokens eosToken]).generate model session code meaning call := by
  have hplanned := planned_of_open hopen hinit hqsort hrange
  have hset (st : SessionState σ) : st.after model session code meaning
      [.setSampler sampler, .setGeneration maxTokens eosToken] =
        { st with sampler := sampler, maxTokens := maxTokens, eosToken := eosToken } := by
    change (SessionState.setGeneration { st with sampler := sampler } maxTokens eosToken).1 = _
    rw [SessionState.setGeneration, if_neg hmax]
  have hkeeps := hplanned.after_keeps code meaning hfits (SessionState.fresh mem initial) calls
  have hregion : AgreeOn (sessionBytes model session) mem fresh := fun x hx => by
    rw [region_of_mem_keptBytes hx, hfresh]
  rw [SessionState.after, List.foldl_append]
  change (SessionState.after model session code meaning
    ((SessionState.fresh mem initial).after model session code meaning calls) _).generate _ _ _ _ _ = _
  rw [hset, hset]
  refine hplanned.generate_congr code meaning hfits ?_ ?_ ?_ ?_ call
  · exact fun x hx => (hkeeps x hx).trans (hregion x hx)
  · rfl
  · rfl
  · rfl

/-! ## A session that remembers -/

/-- A container with a weight behind an input of one element, a vocabulary of eight, and the tokens `a` and
`b`. -/
def rememberingContainer (vocab : UInt32) : List UInt8 :=
  packContainer ⟨[109], 1, 1, 0, 0, vocab, 0⟩ [⟨[119], 2, .f32, 1, padDims [1], 0, 4⟩] [0, 0, 0, 0]
    (irBuild [.addValue .f32 [1] 16 1 0, .addValue .f32 [1] 16 2 0, .addValue .f32 [1] 16 4 0,
      .addOp 1 0 [1, 2] [3], .setInput 1, .setOutput 3])
    (some (u32le paiTokMagic ++ u32le paiTokVersion ++ u32le 2 ++ u32le 0 ++ u32le 4 ++ [1, 97] ++
      u32le 0 ++ [1, 98]))

/-- The op copies its second operand. -/
def copySecond : OpMeaning PaiStatus := fun _ ins =>
  ⟨none, fun _ i => some ((ins.getD 1 fun _ => 0) i), fun _ _ _ => rfl⟩

/-- The id `4` for `1.0f`, and `0` for all else. -/
def oneSampler : SamplerCode Unit := ⟨fun _ => false, fun _ bs => (if bs = oneF32 then .ok 4 else .ok 0, ())⟩

/-- A generation of one prompt, never cancelled. -/
def plainCall (prompt : List UInt8) : GenCall := ⟨prompt, fun _ => false, fun _ => true⟩

set_option maxRecDepth 20000 in
/-- The prompt `a` stores a float over the weight, and the prompt `b` then gives another text. -/
lemma rememberingContainer_eight_texts : sessionTest (rememberingContainer 8) (fun model session mem =>
    decide (((SessionState.fresh mem ()).after model session oneSampler copySecond
        ([.setGeneration 1 0, .generate (plainCall [97])] ++ [.setSampler (), .setGeneration 1 0])).generate model
          session oneSampler copySecond (plainCall [98]) = (paiOk, [[97]]) ∧
      ((SessionState.fresh mem ()).after model session oneSampler copySecond
        [.setSampler (), .setGeneration 1 0]).generate model session oneSampler copySecond (plainCall [98]) =
          (paiOk, [[98]]))) = true :=
  sessionTest_packContainer rfl rfl (buildable_of_test (by decide +kernel)) sumProgram_accepted
    (by decide +kernel)

set_option maxRecDepth 20000 in
/-- With a vocabulary of one, input and output have room; the requests are sorted, and no offset wraps. -/
lemma rememberingContainer_one_fits : sessionTest (rememberingContainer 1) (fun model session _ =>
    decide (model.ir.inputIds.head? = some 1 ∧ model.ir.outputIds.head? = some 3 ∧
      model.info.vocabSize = 1 ∧
      (session.graph.value? 1).map (fun v => (v.rank, v.sizeBytes)) = some (1, 4) ∧
      (session.graph.value? 3).map (fun v => (v.dim 0, v.sizeBytes)) = some (1, 4)) &&
    decide (∀ planner ∈ (model.graph.planner true).toOption,
      (sortEntries planner).Pairwise (fun a b => allocCmp a b ≤ 0) ∧
        SweepInRange Sweep.init (sortEntries planner))) = true :=
  sessionTest_packContainer rfl rfl (buildable_of_test (by decide +kernel)) sumProgram_accepted
    (by decide +kernel)

/-- A generation on a session of a container whose input and output have room, behind another one. -/
theorem rememberingContainer_one_independent : ∃ model session mem,
    paiModelOpenBlob (fun _ => true) (fun _ _ => none) sortEntries (rememberingContainer 1) = .ok model ∧
    ((paiSessionInit model (fun _ => true) fun _ _ _ => paiOk).run fun _ _ => 0) = (.ok session, mem) ∧
    ((SessionState.fresh mem ()).after model session oneSampler copySecond
        ([.generate (plainCall [97])] ++ [.setSampler (), .setGeneration 1 0])).generate model session oneSampler
        copySecond (plainCall [98]) =
      ((SessionState.fresh mem ()).after model session oneSampler copySecond
        [.setSampler (), .setGeneration 1 0]).generate model session oneSampler copySecond (plainCall [98]) := by
  obtain ⟨model, session, mem, hopen, hinit, htest⟩ := exists_of_sessionTest rememberingContainer_one_fits
  rw [Bool.and_eq_true] at htest
  obtain ⟨hinput, houtput, hvocab, hin, hout⟩ := of_decide_eq_true htest.1
  have hsweep (planner : Planner) (h : model.graph.planner true = .ok planner) :=
    of_decide_eq_true htest.2 planner (by rw [h]; rfl)
  exact ⟨model, session, mem, hopen, hinit, sessionGenerate_independent hopen hinit rfl
    (fun planner h => ⟨List.Perm.refl _, (hsweep planner h).1⟩) (fun planner h => (hsweep planner h).2)
    (generationFits_of_one hinput houtput hvocab hin hout) oneSampler copySecond () () _ () (by decide) 0
    (plainCall [98])⟩

/-- A generation depends on the one before it: the two texts differ. -/
theorem rememberingContainer_remembers : ∃ model session mem,
    paiModelOpenBlob (fun _ => true) (fun _ _ => none) sortEntries (rememberingContainer 8) = .ok model ∧
    ((paiSessionInit model (fun _ => true) fun _ _ _ => paiOk).run fun _ _ => 0) = (.ok session, mem) ∧
    ((SessionState.fresh mem ()).after model session oneSampler copySecond
        ([.setGeneration 1 0, .generate (plainCall [97])] ++ [.setSampler (), .setGeneration 1 0])).generate model
        session oneSampler copySecond (plainCall [98]) ≠
      ((SessionState.fresh mem ()).after model session oneSampler copySecond
        [.setSampler (), .setGeneration 1 0]).generate model session oneSampler copySecond (plainCall [98]) := by
  obtain ⟨model, session, mem, hopen, hinit, htest⟩ := exists_of_sessionTest rememberingContainer_eight_texts
  obtain ⟨hbehind, halone⟩ := of_decide_eq_true htest
  refine ⟨model, session, mem, hopen, hinit, ?_⟩
  rw [hbehind, halone]
  decide

end Prospero
