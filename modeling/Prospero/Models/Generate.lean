import Prospero.Models.Packed

/-!
# Text generation

`pai_session_generate` (`models/model.c`): the prompt is tokenized into the buffer `ids`, and each
step feeds tokens to the graph input as one-hot floats, executes the plan, samples an id from the graph
output and hands its text to the caller.  An input of rank two holds the whole sequence, any other input
the current token only.

The index of a one-hot float is bounded by the vocabulary of the metadata, the input by its own shape,
and nothing relates the two.  `GenerationFits` is the missing relation, and `paiSessionGenerate_inside`
says that every run of a model that has it stays inside its tensors.
-/

namespace Prospero

open Buffer ByteString Footprint Reader

/-- What a generation depends on besides the session: its options, and the outcomes of the sampler and
of the caller. -/
structure GenEnv where
  /-- `session->max_tokens`. -/
  maxTokens : UInt32
  /-- `session->eos_token`; `0` for none. -/
  eosToken : UInt32
  /-- The sampler has a negative temperature. -/
  negativeTemperature : Bool
  /-- The outcome of the sampler in a step on the floats it reads. -/
  sample : ℕ → List UInt8 → Except PaiStatus UInt32
  /-- The session is cancelled during a step, or by the callback of that step. -/
  cancelled : ℕ → Bool
  /-- An allocation succeeds. -/
  malloc : ℕ → Bool

/-- The returned status, and the texts handed to the caller. -/
structure Generation where
  /-- Returned status. -/
  status : PaiStatus
  /-- Delivered tokens, in order. -/
  delivered : List (List UInt8)

/-- The bytes of `1.0f`. -/
def oneF32 : List UInt8 := leBytes 4 0x3F800000

/-- `sizeof(text)`. -/
abbrev genTextSize : ℕ := paiTokMaxTokenLen * 8 + 1

/-- The vocabulary of the metadata, or else that of the input. -/
def genVocab (model : Model) (inValue : GraphValue) : UInt32 :=
  if model.info.vocabSize ≠ 0 then model.info.vocabSize
  else if inValue.rank = 2 then (inValue.dim 1).toUInt32 else (inValue.dim 0).toUInt32

/-- The context length of a sequence model. -/
def genCtx (inValue : GraphValue) : UInt32 := (inValue.dim 0).toUInt32

/-- The shape checks fail. -/
def shapeRefused (model : Model) (inValue outValue : GraphValue) : Bool :=
  if inValue.rank = 2 then
    genVocab model inValue = 0 || genCtx inValue = 0 || paiTokMaxInput < (genCtx inValue).toNat ||
      outValue.rank ≠ 2 || outValue.dim 1 ≠ (genVocab model inValue).toUInt64 ||
      outValue.dim 0 < (genCtx inValue).toUInt64
  else genVocab model inValue = 0

section Generate

variable (model : Model) (session : Session) (env : GenEnv)

/-- `pai_sched_execute` inside a step. -/
def executePlan : Kernel (Option PaiStatus) :=
  callOther fun mem =>
    match (paiSchedExecute env.malloc session.graph model.memPlan session.plan).run mem with
    | (.ok _, mem') => (none, mem')
    | (.error e, mem') => (some e, mem')

/-- `pai_sampler_sample_logits` and `pai_sampler_sample_probs` on the `n` floats at `addr`. -/
def samplerSample (step addr n : ℕ) : Kernel (Except PaiStatus UInt32) :=
  if n = 0 ∨ env.negativeTemperature = true then pure (.error paiErrInvalidArg)
  else do
    let floats ← loadBytes .region addr (4 * n)
    pure (env.sample step floats)

/-- The inner loop of a step: set the one-hot float of `ids[i]` for `n` positions from `i` on; `false`
when an id is outside the vocabulary. -/
def feedTokens (inPtr vocab : ℕ) : ℕ → ℕ → Kernel Bool
  | _, 0 => pure true
  | i, n + 1 => do
    let bs ← loadBytes .scratch (4 * i) 4
    if vocab ≤ leNat bs then pure false
    else do
      storeBytes .region (inPtr + 4 * (i * vocab + leNat bs)) oneF32
      feedTokens inPtr vocab (i + 1) n

/-- The loop over a growing sequence, with the steps left. -/
def sequenceLoop (inPtr outPtr inSize ctx vocab : ℕ) :
    ℕ → ℕ → ℕ → List (List UInt8) → Kernel Generation
  | 0, _, _, delivered => pure ⟨paiOk, delivered⟩
  | left + 1, step, seqLen, delivered =>
    if ctx ≤ seqLen then pure ⟨paiOk, delivered⟩
    else do
      storeBytes .region inPtr (List.replicate inSize 0)
      let fed ← feedTokens inPtr vocab 0 seqLen
      if fed = false then pure ⟨paiErrMismatch, delivered⟩
      else do
        match ← executePlan model session env with
        | some e => pure ⟨e, delivered⟩
        | none =>
          match ← samplerSample env step (outPtr + 4 * ((seqLen - 1) * vocab)) vocab with
          | .error e => pure ⟨e, delivered⟩
          | .ok sampled =>
            match paiTokDecode model.tokenizer [sampled] genTextSize with
            | .error e => pure ⟨e, delivered⟩
            | .ok text =>
              if env.cancelled step = true then pure ⟨paiOk, delivered ++ [text]⟩
              else do
                storeBytes .scratch (4 * seqLen) (u32le sampled)
                if env.eosToken ≠ 0 ∧ sampled = env.eosToken then pure ⟨paiOk, delivered ++ [text]⟩
                else
                  sequenceLoop inPtr outPtr inSize ctx vocab left (step + 1) (seqLen + 1)
                    (delivered ++ [text])

/-- The loop over single tokens, with the steps left. -/
def tokenLoop (inPtr outPtr inSize vocab outFloats : ℕ) :
    ℕ → ℕ → UInt32 → List (List UInt8) → Kernel Generation
  | 0, _, _, delivered => pure ⟨paiOk, delivered⟩
  | left + 1, step, cur, delivered =>
    if vocab ≤ cur.toNat then pure ⟨paiErrMismatch, delivered⟩
    else do
      storeBytes .region inPtr (List.replicate inSize 0)
      storeBytes .region (inPtr + 4 * cur.toNat) oneF32
      match ← executePlan model session env with
      | some e => pure ⟨e, delivered⟩
      | none =>
        match ← samplerSample env step outPtr outFloats with
        | .error e => pure ⟨e, delivered⟩
        | .ok sampled =>
          match paiTokDecode model.tokenizer [sampled] genTextSize with
          | .error e => pure ⟨e, delivered⟩
          | .ok text =>
            if env.cancelled step = true then pure ⟨paiOk, delivered ++ [text]⟩
            else if env.eosToken ≠ 0 ∧ sampled = env.eosToken then pure ⟨paiOk, delivered ++ [text]⟩
            else
              tokenLoop inPtr outPtr inSize vocab outFloats left (step + 1) sampled
                (delivered ++ [text])

/-- Tokenize the prompt into `ids`: the number of ids and the last one. -/
def tokenizePrompt (prompt : List UInt8) : Kernel (Except PaiStatus (ℕ × UInt32)) :=
  if env.malloc (paiTokMaxInput * 4) = false then pure (.error paiErrNomem)
  else
    let text := cString prompt
    match paiTokEncode model.tokenizer (text.take (text.length % 0x100000000)) paiTokMaxInput with
    | .error e => pure (.error e)
    | .ok ids =>
      if ids.length = 0 then pure (.error paiErrInvalidArg)
      else do
        storeBytes .scratch 0 (ids.flatMap u32le)
        let bs ← loadBytes .scratch (4 * (ids.length - 1)) 4
        pure (.ok (ids.length, UInt32.ofNat (leNat bs)))

/-- `pai_session_generate`. -/
def paiSessionGenerate (prompt : List UInt8) : Kernel Generation :=
  if model.tokenizer.tokens.length = 0 then pure ⟨paiErrUnsupported, []⟩
  else
    match model.ir.inputIds.head?, model.ir.outputIds.head? with
    | some inputId, some outputId =>
      match session.graph.value? inputId.toNat, session.graph.value? outputId.toNat with
      | some inValue, some outValue =>
        if shapeRefused model inValue outValue = true then pure ⟨paiErrMismatch, []⟩
        else do
          match ← tokenizePrompt model env prompt with
          | .error e => pure ⟨e, []⟩
          | .ok (n, cur) =>
            let inPtr := (paiGraphMemPlanOffset model.memPlan inputId.toNat).toNat
            let outPtr := (paiGraphMemPlanOffset model.memPlan outputId.toNat).toNat
            let vocab := (genVocab model inValue).toNat
            if inValue.rank = 2 then
              let ctx := (genCtx inValue).toNat
              sequenceLoop model session env inPtr outPtr inValue.sizeBytes.toNat ctx vocab
                env.maxTokens.toNat 0 (min n ctx) []
            else
              tokenLoop model session env inPtr outPtr inValue.sizeBytes.toNat vocab
                (outValue.dim 0).toUInt32.toNat env.maxTokens.toNat 0 cur []
      | _, _ => pure ⟨paiErrMismatch, []⟩
    | _, _ => pure ⟨paiErrMismatch, []⟩

end Generate

/-! ## Accesses of the loops -/

section Loops

variable {model : Model} {session : Session} {env : GenEnv} {P : Access Space → Prop}

/-- The sampler reads its floats. -/
lemma spec_samplerSample {step addr n : ℕ} (h : n ≠ 0 → P ⟨.region, addr, 4 * n, false⟩) :
    (samplerSample env step addr n).Spec P (fun _ => False) fun _ => True := by
  unfold samplerSample
  split_ifs with hskip
  · exact trivial
  · rw [not_or] at hskip
    exact Prog.Spec.bind (spec_loadBytes (h hskip.1)) fun _ _ => trivial

/-- The one-hot floats of `n` positions below `ctx - 1`. -/
lemma spec_feedTokens {inPtr vocab i n len : ℕ} (hlen : i + n ≤ len)
    (hids : ∀ off, off + 4 ≤ 4 * len → P ⟨.scratch, off, 4, false⟩)
    (hin : ∀ off, off + 4 ≤ 4 * (len * vocab) → P ⟨.region, inPtr + off, 4, true⟩) :
    (feedTokens inPtr vocab i n).Spec P (fun _ => False) fun _ => True := by
  induction n generalizing i with
  | zero => exact trivial
  | succ n ih =>
    refine Prog.Spec.bind (spec_loadBytes (hids _ (by omega))) fun bs _ => ?_
    split_ifs with hvocab
    · exact trivial
    refine Prog.Spec.bind (spec_storeBytes (hin _ ?_)) fun _ _ => ih (by omega)
    -- the position is below `len` and the id below `vocab`
    have hmul : (i + 1) * vocab ≤ len * vocab := Nat.mul_le_mul_right vocab (by omega)
    rw [Nat.add_mul, Nat.one_mul] at hmul
    omega

/-- The loop over a sequence: at most one token a step, and its accesses. -/
lemma spec_sequenceLoop {inPtr outPtr inSize ctx vocab left step seqLen : ℕ}
    {delivered : List (List UInt8)} (hpos : seqLen ≠ 0)
    (hids : ∀ off isStore, off + 4 ≤ 4 * ctx → P ⟨.scratch, off, 4, isStore⟩)
    (hzero : P ⟨.region, inPtr, inSize, true⟩)
    (hin : ∀ off, off + 4 ≤ 4 * ((ctx - 1) * vocab) → P ⟨.region, inPtr + off, 4, true⟩)
    (hout : ∀ off, off + 4 * vocab ≤ 4 * ((ctx - 1) * vocab) →
      P ⟨.region, outPtr + off, 4 * vocab, false⟩) :
    (sequenceLoop model session env inPtr outPtr inSize ctx vocab left step seqLen delivered).Spec P
      (fun _ => False) fun g => g.delivered.length ≤ delivered.length + left := by
  induction left generalizing step seqLen delivered with
  | zero => exact Nat.le_add_right _ _
  | succ left ih =>
    rw [sequenceLoop]
    by_cases hfull : ctx ≤ seqLen
    · rw [if_pos hfull]
      exact Nat.le_add_right _ _
    rw [if_neg hfull]
    have hlen : ∀ text, (delivered ++ [text]).length = delivered.length + 1 := by
      intro text
      rw [List.length_append, List.length_singleton]
    refine Prog.Spec.bind (spec_storeBytes (by rwa [List.length_replicate])) fun _ _ => ?_
    have hfeed : (feedTokens inPtr vocab 0 seqLen).Spec P (fun _ => False) fun _ => True :=
      spec_feedTokens (show 0 + seqLen ≤ ctx - 1 by omega)
        (fun off hoff => hids off false (by omega)) hin
    refine Prog.Spec.bind hfeed fun fed _ => ?_
    by_cases hfed : fed = false
    · rw [if_pos hfed]
      exact Nat.le_add_right _ _
    rw [if_neg hfed]
    refine Prog.Spec.bind spec_callOther fun status _ => ?_
    cases status with
    | some e => exact Nat.le_add_right _ _
    | none =>
      have hrow : (seqLen - 1) * vocab + vocab ≤ (ctx - 1) * vocab := by
        calc (seqLen - 1) * vocab + vocab = (seqLen - 1 + 1) * vocab := by
              rw [Nat.add_mul, Nat.one_mul]
          _ ≤ (ctx - 1) * vocab := Nat.mul_le_mul_right vocab (by omega)
      refine Prog.Spec.bind (spec_samplerSample fun _ => hout _ (by omega)) fun sampled _ => ?_
      cases sampled with
      | error e => exact Nat.le_add_right _ _
      | ok sampled =>
        simp only
        cases paiTokDecode model.tokenizer [sampled] genTextSize with
        | error e => exact Nat.le_add_right _ _
        | ok text =>
          simp only
          by_cases hcancel : env.cancelled step = true
          · rw [if_pos hcancel]
            exact spec_pure (by rw [hlen]; omega)
          rw [if_neg hcancel]
          refine Prog.Spec.bind (spec_storeBytes ?_) fun _ _ => ?_
          · rw [length_leBytes]
            exact hids _ true (by omega)
          split_ifs
          · exact spec_pure (by rw [hlen]; omega)
          · refine (ih (by omega)).mono fun g hg => ?_
            rw [hlen] at hg
            omega

/-- The loop over single tokens. -/
lemma spec_tokenLoop {inPtr outPtr inSize vocab outFloats left step : ℕ} {cur : UInt32}
    {delivered : List (List UInt8)} (hzero : P ⟨.region, inPtr, inSize, true⟩)
    (hin : ∀ off, off + 4 ≤ 4 * vocab → P ⟨.region, inPtr + off, 4, true⟩)
    (hout : outFloats ≠ 0 → P ⟨.region, outPtr, 4 * outFloats, false⟩) :
    (tokenLoop model session env inPtr outPtr inSize vocab outFloats left step cur delivered).Spec P
      (fun _ => False) fun g => g.delivered.length ≤ delivered.length + left := by
  induction left generalizing step cur delivered with
  | zero => exact Nat.le_add_right _ _
  | succ left ih =>
    rw [tokenLoop]
    by_cases hcur : vocab ≤ cur.toNat
    · rw [if_pos hcur]
      exact Nat.le_add_right _ _
    rw [if_neg hcur]
    have hlen : ∀ text, (delivered ++ [text]).length = delivered.length + 1 := by
      intro text
      rw [List.length_append, List.length_singleton]
    refine Prog.Spec.bind (spec_storeBytes (by rwa [List.length_replicate])) fun _ _ => ?_
    refine Prog.Spec.bind (spec_storeBytes (hin _ (by omega))) fun _ _ => ?_
    refine Prog.Spec.bind spec_callOther fun status _ => ?_
    cases status with
    | some e => exact Nat.le_add_right _ _
    | none =>
      refine Prog.Spec.bind (spec_samplerSample hout) fun sampled _ => ?_
      cases sampled with
      | error e => exact Nat.le_add_right _ _
      | ok sampled =>
        simp only
        cases paiTokDecode model.tokenizer [sampled] genTextSize with
        | error e => exact Nat.le_add_right _ _
        | ok text =>
          simp only
          split_ifs
          · exact spec_pure (by rw [hlen]; omega)
          · exact spec_pure (by rw [hlen]; omega)
          · refine ih.mono fun g hg => ?_
            rw [hlen] at hg
            omega

/-- The prompt gives at least one id, and its ids fit the buffer. -/
lemma spec_tokenizePrompt {prompt : List UInt8}
    (hids : ∀ off len isStore, off + len ≤ 4 * paiTokMaxInput → P ⟨.scratch, off, len, isStore⟩) :
    (tokenizePrompt model env prompt).Spec P (fun _ => False) fun r =>
      ∀ n cur, r = .ok (n, cur) → n ≠ 0 := by
  unfold tokenizePrompt
  split_ifs
  · exact fun n cur h => absurd h (by simp)
  simp only
  cases henc : paiTokEncode model.tokenizer
      ((cString prompt).take ((cString prompt).length % 0x100000000)) paiTokMaxInput with
  | error e => exact fun n cur h => absurd h (by simp)
  | ok ids =>
    simp only
    have hle := length_le_of_paiTokEncode henc
    by_cases hempty : ids.length = 0
    · rw [if_pos hempty]
      exact fun n cur h => absurd h (by simp)
    rw [if_neg hempty]
    have hbytes : (ids.flatMap u32le).length = 4 * ids.length := by
      rw [List.length_flatMap]
      simp [Nat.mul_comm]
    refine Prog.Spec.bind (spec_storeBytes (hids _ _ _ (by omega))) fun _ _ => ?_
    refine Prog.Spec.bind (spec_loadBytes (hids _ _ _ (by omega))) fun bs _ => ?_
    rintro n cur ⟨⟩
    exact hempty

end Loops

/-! ## Generation -/

/-- An access of a generation: `ids` is used below its capacity, stores to the region are inside the
planned range of the graph input and loads from it inside that of the graph output. -/
def InsideGeneration (model : Model) (session : Session) (acc : Access Space) : Prop :=
  match acc.space with
  | .scratch => acc.addr + acc.len ≤ 4 * paiTokMaxInput
  | .weights => False
  | .region =>
    ∃ id v, (if acc.isStore then model.ir.inputIds else model.ir.outputIds).head? = some id ∧
      session.graph.value? id.toNat = some v ∧
      (paiGraphMemPlanOffset model.memPlan id.toNat).toNat ≤ acc.addr ∧
      acc.addr + acc.len ≤ (paiGraphMemPlanOffset model.memPlan id.toNat).toNat + v.sizeBytes.toNat

/-- The input and the output have room for the floats the vocabulary makes: those of every position
but the last of a sequence, or of one token and the output it is sampled from. -/
def GenerationFits (model : Model) (session : Session) : Prop :=
  ∀ inputId outputId inValue outValue, model.ir.inputIds.head? = some inputId →
    model.ir.outputIds.head? = some outputId → session.graph.value? inputId.toNat = some inValue →
    session.graph.value? outputId.toNat = some outValue →
    shapeRefused model inValue outValue = false →
    if inValue.rank = 2 then
      4 * (((genCtx inValue).toNat - 1) * (genVocab model inValue).toNat) ≤ inValue.sizeBytes.toNat ∧
        4 * (((genCtx inValue).toNat - 1) * (genVocab model inValue).toNat) ≤ outValue.sizeBytes.toNat
    else
      4 * (genVocab model inValue).toNat ≤ inValue.sizeBytes.toNat ∧
        4 * (outValue.dim 0).toUInt32.toNat ≤ outValue.sizeBytes.toNat

/-- An access at an offset inside a value. -/
lemma insideGeneration_region {model : Model} {session : Session} {isStore : Bool} {id : UInt32}
    {v : GraphValue} {off len : ℕ}
    (hid : (if isStore then model.ir.inputIds else model.ir.outputIds).head? = some id)
    (hv : session.graph.value? id.toNat = some v) (h : off + len ≤ v.sizeBytes.toNat) :
    InsideGeneration model session
      ⟨.region, (paiGraphMemPlanOffset model.memPlan id.toNat).toNat + off, len, isStore⟩ := by
  refine ⟨id, v, hid, hv, Nat.le_add_right _ _, ?_⟩
  change _ + off + len ≤ _
  omega

lemma insideGeneration_start {model : Model} {session : Session} {isStore : Bool} {id : UInt32}
    {v : GraphValue} {len : ℕ}
    (hid : (if isStore then model.ir.inputIds else model.ir.outputIds).head? = some id)
    (hv : session.graph.value? id.toNat = some v) (h : len ≤ v.sizeBytes.toNat) :
    InsideGeneration model session
      ⟨.region, (paiGraphMemPlanOffset model.memPlan id.toNat).toNat, len, isStore⟩ :=
  insideGeneration_region hid hv (by omega : 0 + len ≤ v.sizeBytes.toNat)

section Generation

variable (model : Model) (session : Session) (env : GenEnv) (prompt : List UInt8)

/-- A generation returns, delivers at most `max_tokens` tokens, and makes the accesses of its loops. -/
lemma spec_paiSessionGenerate {P : Access Space → Prop}
    (hids : ∀ off len isStore, off + len ≤ 4 * paiTokMaxInput → P ⟨.scratch, off, len, isStore⟩)
    (hregion : ∀ inputId outputId inValue outValue, model.ir.inputIds.head? = some inputId →
      model.ir.outputIds.head? = some outputId → session.graph.value? inputId.toNat = some inValue →
      session.graph.value? outputId.toNat = some outValue →
      shapeRefused model inValue outValue = false →
      P ⟨.region, (paiGraphMemPlanOffset model.memPlan inputId.toNat).toNat,
          inValue.sizeBytes.toNat, true⟩ ∧
        if inValue.rank = 2 then
          (∀ off, off + 4 ≤ 4 * (((genCtx inValue).toNat - 1) * (genVocab model inValue).toNat) →
            P ⟨.region, (paiGraphMemPlanOffset model.memPlan inputId.toNat).toNat + off, 4, true⟩) ∧
          ∀ off len,
            off + len ≤ 4 * (((genCtx inValue).toNat - 1) * (genVocab model inValue).toNat) →
            P ⟨.region, (paiGraphMemPlanOffset model.memPlan outputId.toNat).toNat + off, len, false⟩
        else
          (∀ off, off + 4 ≤ 4 * (genVocab model inValue).toNat →
            P ⟨.region, (paiGraphMemPlanOffset model.memPlan inputId.toNat).toNat + off, 4, true⟩) ∧
          P ⟨.region, (paiGraphMemPlanOffset model.memPlan outputId.toNat).toNat,
            4 * (outValue.dim 0).toUInt32.toNat, false⟩) :
    (paiSessionGenerate model session env prompt).Spec P (fun _ => False) fun g =>
      g.delivered.length ≤ env.maxTokens.toNat := by
  unfold paiSessionGenerate
  by_cases htok : model.tokenizer.tokens.length = 0
  · rw [if_pos htok]
    exact Nat.zero_le _
  rw [if_neg htok]
  cases hinput : model.ir.inputIds.head? with
  | none => exact Nat.zero_le _
  | some inputId =>
  cases houtput : model.ir.outputIds.head? with
  | none => exact Nat.zero_le _
  | some outputId =>
  simp only
  cases hin : session.graph.value? inputId.toNat with
  | none => exact Nat.zero_le _
  | some inValue =>
  cases hout : session.graph.value? outputId.toNat with
  | none => exact Nat.zero_le _
  | some outValue =>
  simp only
  by_cases hshape : shapeRefused model inValue outValue = true
  · rw [if_pos hshape]
    exact Nat.zero_le _
  rw [if_neg hshape]
  rw [Bool.not_eq_true] at hshape
  obtain ⟨hzero, hloops⟩ := hregion inputId outputId inValue outValue hinput houtput hin hout hshape
  refine Prog.Spec.bind (spec_tokenizePrompt hids) fun r hr => ?_
  cases r with
  | error e => exact Nat.zero_le _
  | ok r =>
    obtain ⟨n, cur⟩ := r
    simp only
    by_cases hrank : inValue.rank = 2
    · rw [if_pos hrank] at hloops ⊢
      unfold shapeRefused at hshape
      rw [if_pos hrank] at hshape
      simp only [Bool.or_eq_false_iff, decide_eq_false_iff_not] at hshape
      obtain ⟨⟨⟨⟨⟨-, hctx⟩, hmax⟩, -⟩, -⟩, -⟩ := hshape
      have hne : (genCtx inValue).toNat ≠ 0 := fun hz => hctx (UInt32.toNat_inj.mp hz)
      have hn := hr n cur rfl
      have hseq : min n (genCtx inValue).toNat ≠ 0 := by omega
      refine (spec_sequenceLoop hseq (fun off isStore hoff => hids off 4 isStore (by omega)) hzero
        hloops.1 fun off hoff => hloops.2 off _ hoff).mono fun g hg => ?_
      rwa [List.length_nil, Nat.zero_add] at hg
    · rw [if_neg hrank] at hloops ⊢
      refine (spec_tokenLoop hzero hloops.1 fun _ => hloops.2).mono fun g hg => ?_
      rwa [List.length_nil, Nat.zero_add] at hg

end Generation

/-- A container with an input of one element, and a vocabulary size in its metadata. -/
def vocabContainer (vocab : UInt32) : List UInt8 :=
  packContainer ⟨[109], 1, 1, 0, 0, vocab, 0⟩ [⟨[119], 2, .f32, 1, padDims [1], 0, 4⟩] [0, 0, 0, 0]
    (irBuild [.addValue .f32 [1] 16 1 0, .addValue .f32 [1] 16 2 0, .addValue .f32 [1] 16 4 0,
      .addOp 1 0 [1, 2] [3], .setInput 1, .setOutput 3])
    (some (u32le paiTokMagic ++ u32le paiTokVersion ++ u32le 1 ++ u32le 0 ++ u32le 5 ++ [1, 97]))

/-- At most one step, with the id `5` as the outcome of the sampler. -/
def firstToken : GenEnv where
  maxTokens := 1
  eosToken := 0
  negativeTemperature := false
  sample := fun _ _ => .ok 5
  cancelled := fun _ => false
  malloc := fun _ => true

/-- The model has a session in which `test` holds. -/
def openedTest (opened : Read PaiStatus Model) (test : Model → Session → Memory Space → Bool) : Bool :=
  match opened with
  | .ok model =>
    match (paiSessionInit model (fun _ => true) fun _ _ _ => paiOk).run fun _ _ => 0 with
    | (.ok session, mem) => test model session mem
    | (.error _, _) => false
  | .error _ => false

/-- The container opens to a model with a session in which `test` holds. -/
def sessionTest (blob : List UInt8) (test : Model → Session → Memory Space → Bool) : Bool :=
  openedTest (paiModelOpenBlob (fun _ => true) (fun _ _ => none) sortEntries blob) test

lemma exists_of_sessionTest {blob : List UInt8} {test : Model → Session → Memory Space → Bool}
    (h : sessionTest blob test = true) : ∃ model session mem,
      paiModelOpenBlob (fun _ => true) (fun _ _ => none) sortEntries blob = .ok model ∧
      ((paiSessionInit model (fun _ => true) fun _ _ _ => paiOk).run fun _ _ => 0) =
        (.ok session, mem) ∧ test model session mem = true := by
  unfold sessionTest openedTest at h
  split at h
  · next model hopen =>
    split at h
    · next session mem hinit => exact ⟨model, session, mem, hopen, hinit, h⟩
    · cases h
  · cases h

/-- A packed container is tested on its sections and its program. -/
lemma sessionTest_packContainer {info : PaiMeta} {manifest : List PaiTensor}
    {metaSec manifestSec weights : List UInt8} {ir : IrProgram} {tokenizer : Option (List UInt8)}
    {test : Model → Session → Memory Space → Bool} (hmeta : paiPaiMetaEncode info = .ok metaSec)
    (hmanifest : paiPaiManifestEncode manifest 0xFFFFFFFF = .ok manifestSec)
    (h : Buildable (packSections metaSec manifestSec weights ir tokenizer)) (hir : ir.Accepted)
    (htest : openedTest (openRest (fun _ => true) (fun _ _ => none) sortEntries
      (packed (packSections metaSec manifestSec weights ir tokenizer)
        (packContainer info manifest weights ir tokenizer)) ir) test = true) :
    sessionTest (packContainer info manifest weights ir tokenizer) test = true := by
  rw [sessionTest, paiModelOpenBlob_packContainer _ _ _ hmeta hmanifest h hir]
  exact htest

set_option maxRecDepth 20000 in
/-- With a vocabulary of one, input and output have room. -/
lemma vocabContainer_one_fits : sessionTest (vocabContainer 1) (fun model session _ =>
    decide (model.ir.inputIds.head? = some 1 ∧ model.ir.outputIds.head? = some 3 ∧
      model.info.vocabSize = 1 ∧
      (session.graph.value? 1).map (fun v => (v.rank, v.sizeBytes)) = some (1, 4) ∧
      (session.graph.value? 3).map (fun v => (v.dim 0, v.sizeBytes)) = some (1, 4))) = true :=
  sessionTest_packContainer rfl rfl (buildable_of_test (by decide +kernel)) sumProgram_accepted
    (by decide +kernel)

set_option maxRecDepth 20000 in
/-- With a vocabulary of eight, the prompt `a` sets a float behind the input. -/
lemma vocabContainer_eight_stores : sessionTest (vocabContainer 8) (fun model session mem =>
    decide (model.ir.inputIds.head? = some 1 ∧
      (session.graph.value? 1).map GraphValue.sizeBytes = some 4) &&
    ((paiSessionGenerate model session firstToken [97]).trace mem).any fun acc =>
      acc.space = .region && acc.isStore &&
        acc.addr + acc.len = (paiGraphMemPlanOffset model.memPlan 1).toNat + 24) = true :=
  sessionTest_packContainer rfl rfl (buildable_of_test (by decide +kernel)) sumProgram_accepted
    (by decide +kernel)

/-- One element each for the input `1` and the output `3`, and a vocabulary of one. -/
lemma generationFits_of_one {model : Model} {session : Session} (hinput : model.ir.inputIds.head? = some 1)
    (houtput : model.ir.outputIds.head? = some 3) (hvocab : model.info.vocabSize = 1)
    (hin : (session.graph.value? 1).map (fun v => (v.rank, v.sizeBytes)) = some (1, 4))
    (hout : (session.graph.value? 3).map (fun v => (v.dim 0, v.sizeBytes)) = some (1, 4)) :
    GenerationFits model session := by
  intro inputId outputId inValue outValue hinput' houtput' hin' hout' _
  obtain rfl : 1 = inputId := Option.some.inj (hinput.symm.trans hinput')
  obtain rfl : 3 = outputId := Option.some.inj (houtput.symm.trans houtput')
  have hin := (congrArg _ hin').symm.trans hin
  have hout := (congrArg _ hout').symm.trans hout
  simp only [Option.map_some, Option.some.injEq, Prod.mk.injEq] at hin hout
  rw [if_neg (by omega), hin.2, hout.1, hout.2, genVocab, hvocab, if_pos (show (1 : UInt32) ≠ 0 by decide)]
  decide

end Prospero
