import Prospero.Lib.Contents
import Prospero.Models.SessionHistory

/-!
# Generations with given outcomes

`paiSessionGenerate` takes what the sampler and the caller do in each step as given, `sessionGenerate` works it
out from the state of the session.  With the plan executed by the kernels, every generation of the latter is one
of the former (`exists_paiSessionGenerate`): its steps make up the script.

### Outline

* `GenEnv.Follows`, `GenEnv.push`: scripts for the steps from one on.
* `exists_sequenceLoop`, `exists_tokenLoop`: the two loops.
* `exists_paiSessionGenerate`: the generation.
-/

namespace Prospero

open ByteString Footprint

variable {σ : Type}

/-! ## Scripts -/

/-- `pai_sched_execute` on the memory of a session. -/
def executeSession (model : Model) (session : Session) (malloc : ℕ → Bool) (mem : Memory Space) :
    Option PaiStatus × Memory Space :=
  match (paiSchedExecute malloc session.graph model.memPlan session.plan).run mem with
  | (.ok _, mem') => (none, mem')
  | (.error e, mem') => (some e, mem')

/-- The outcome of a sampler, with its refusal. -/
def SamplerCode.outcome (code : SamplerCode σ) (sampler : σ) (floats : List UInt8) : Except PaiStatus UInt32 :=
  if code.refuses sampler = true then .error paiErrInvalidArg else (code.draw sampler floats).1

/-- The state behind a step that draws `drawn`, as far as it goes on. -/
def GenState.afterDraw (g : GenState σ) (model : Model) (cancels : List (List UInt8) → Bool)
    (drawn : Except PaiStatus UInt32 × σ) : GenState σ :=
  ({ g with sampler := drawn.2 } : GenState σ).deliver cancels
    ((paiTokDecode model.tokenizer [drawn.1.toOption.getD 0] genTextSize).toOption.getD [])

/-- A generation of a session, without its state. -/
def generationOf (r : Except PaiStatus (PaiStatus × GenState σ) × Memory Space) :
    Except PaiStatus Generation × Memory Space :=
  (r.1.map fun r => ⟨r.1, r.2.delivered⟩, r.2)

/-- The steps from `step` on go as in a script. -/
structure GenEnv.Follows (env script : GenEnv) (malloc : ℕ → Bool) (eosToken : UInt32) (step : ℕ) : Prop where
  /-- The end token. -/
  eos : env.eosToken = eosToken
  /-- The allocations. -/
  malloc : env.malloc = malloc
  /-- A refusal of the sampler is one of its outcomes. -/
  accepts : env.negativeTemperature = false
  /-- The outcomes of the sampler. -/
  sample : ∀ k, step ≤ k → env.sample k = script.sample k
  /-- The cancellations. -/
  cancelled : ∀ k, step ≤ k → env.cancelled k = script.cancelled k

/-- A script with another outcome of one step. -/
def GenEnv.push (script : GenEnv) (step : ℕ) (sample : List UInt8 → Except PaiStatus UInt32) (cancelled : Bool) :
    GenEnv :=
  { script with
    sample := Function.update script.sample step sample
    cancelled := Function.update script.cancelled step cancelled }

section Scripts

variable {env script : GenEnv} {malloc : ℕ → Bool} {eosToken : UInt32} {step : ℕ}

section Head

variable {sample : List UInt8 → Except PaiStatus UInt32} {cancelled : Bool}

lemma GenEnv.Follows.sample_head (h : env.Follows (script.push step sample cancelled) malloc eosToken step) :
    env.sample step = sample :=
  (h.sample step le_rfl).trans (Function.update_self ..)

lemma GenEnv.Follows.cancelled_head (h : env.Follows (script.push step sample cancelled) malloc eosToken step) :
    env.cancelled step = cancelled :=
  (h.cancelled step le_rfl).trans (Function.update_self ..)

lemma GenEnv.Follows.tail (h : env.Follows (script.push step sample cancelled) malloc eosToken step) :
    env.Follows script malloc eosToken (step + 1) where
  eos := h.eos
  malloc := h.malloc
  accepts := h.accepts
  sample k hk := (h.sample k (by omega)).trans (Function.update_of_ne (by omega) ..)
  cancelled k hk := (h.cancelled k (by omega)).trans (Function.update_of_ne (by omega) ..)

end Head

lemma executePlan_eq {model : Model} {session : Session} (h : env.malloc = malloc) :
    executePlan model session env = callOther (executeSession model session malloc) := by
  rw [← h]
  rfl

lemma tokenizePrompt_call {model : Model} (call : GenCall) (h : env.malloc = call.malloc) :
    tokenizePrompt model env call.prompt = tokenizePrompt model call.env call.prompt := by
  unfold tokenizePrompt
  rw [h]
  rfl

lemma GenState.afterDraw_ok {g : GenState σ} {model : Model} {cancels : List (List UInt8) → Bool} {sampler : σ}
    {id : UInt32} {text : List UInt8} (h : paiTokDecode model.tokenizer [id] genTextSize = .ok text) :
    g.afterDraw model cancels (.ok id, sampler) =
      ({ g with sampler := sampler } : GenState σ).deliver cancels text := by
  change GenState.deliver _ _ ((paiTokDecode model.tokenizer [id] genTextSize).toOption.getD []) = _
  rw [h]
  rfl

/-! ## Steps -/

/-- The one-hot floats are set, or an id is outside the vocabulary. -/
lemma exists_run_feedTokens (inPtr vocab i n : ℕ) (mem : Memory Space) :
    ∃ fed mem', (feedTokens inPtr vocab i n).run mem = (.ok fed, mem') := by
  induction n generalizing i mem with
  | zero => exact ⟨true, mem, rfl⟩
  | succ n ih =>
    by_cases hid : vocab ≤ leNat (mem.bytes .scratch (4 * i) 4)
    · refine ⟨false, mem, ?_⟩
      rw [feedTokens, run_bind_ok (run_loadBytes ..), if_pos hid]
      rfl
    · obtain ⟨fed, mem', hrun⟩ := ih (i + 1)
        (mem.put .region (inPtr + 4 * (i * vocab + leNat (mem.bytes .scratch (4 * i) 4))) oneF32)
      refine ⟨fed, mem', ?_⟩
      rw [feedTokens, run_bind_ok (run_loadBytes ..), if_neg hid, run_bind_ok (run_storeBytes ..)]
      exact hrun

variable {code : SamplerCode σ} {mem : Memory Space}

/-- Sampling leaves the memory alone. -/
lemma exists_run_sampleFloats (code : SamplerCode σ) (sampler : σ) (addr n : ℕ) (mem : Memory Space) :
    ∃ drawn, (sampleFloats code sampler addr n).run mem = (.ok drawn, mem) := by
  unfold sampleFloats
  split_ifs
  · exact ⟨_, rfl⟩
  · exact ⟨_, rfl⟩

/-- With the outcome of the session's sampler in its step, a script draws the same. -/
lemma run_samplerSample {sampler : σ} {addr n : ℕ} {drawn : Except PaiStatus UInt32 × σ}
    (hdrawn : (sampleFloats code sampler addr n).run mem = (.ok drawn, mem))
    (haccepts : env.negativeTemperature = false) (hsample : env.sample step = code.outcome sampler) :
    (samplerSample env step addr n).run mem = (.ok drawn.1, mem) := by
  unfold sampleFloats at hdrawn
  unfold samplerSample
  rw [haccepts]
  by_cases hn : n = 0
  · rw [if_pos (Or.inl hn)] at hdrawn ⊢
    cases hdrawn
    rfl
  rw [if_neg (by simp [hn]), run_bind_ok (run_loadBytes ..), hsample]
  split_ifs at hdrawn with hskip
  · cases hdrawn
    change (Except.ok (code.outcome _ _), mem) = _
    rw [SamplerCode.outcome, if_pos (hskip.resolve_left hn)]
  · rw [run_bind_ok (run_loadBytes ..)] at hdrawn
    cases hdrawn
    change (Except.ok (code.outcome _ _), mem) = _
    rw [SamplerCode.outcome, if_neg fun h => hskip (Or.inr h)]

variable (model : Model) (session : Session) (code) (cancels : List (List UInt8) → Bool) (malloc eosToken)

/-- The loop over a sequence, from a step on. -/
lemma exists_sequenceLoop (inPtr outPtr inSize ctx vocab left step seqLen : ℕ) (g : GenState σ)
    (mem : Memory Space) : ∃ script : GenEnv, ∀ env : GenEnv, env.Follows script malloc eosToken step →
      (sequenceLoop model session env inPtr outPtr inSize ctx vocab left step seqLen g.delivered).run mem =
        generationOf ((sessionSequence model code (executeSession model session malloc) cancels eosToken inPtr
          outPtr inSize ctx vocab left seqLen g).run mem) := by
  induction left generalizing step seqLen g mem with
  | zero => exact ⟨⟨0, 0, false, fun _ _ => .error 0, fun _ => false, malloc⟩, fun env _ => rfl⟩
  | succ left ih =>
    -- what the step does to memory and sampler, and the script of the steps behind it
    obtain ⟨fed, mem₂, hfeed⟩ :=
      exists_run_feedTokens inPtr vocab 0 seqLen (mem.put .region inPtr (List.replicate inSize 0))
    obtain ⟨drawn, hdrawn⟩ := exists_run_sampleFloats code g.sampler
      (outPtr + 4 * ((seqLen - 1) * vocab)) vocab (executeSession model session malloc mem₂).2
    obtain ⟨script, hscript⟩ := ih (step + 1) (seqLen + 1) (g.afterDraw model cancels drawn)
      ((executeSession model session malloc mem₂).2.put .scratch (4 * seqLen) (u32le (drawn.1.toOption.getD 0)))
    refine ⟨script.push step (code.outcome g.sampler) (g.afterDraw model cancels drawn).cancelled,
      fun env henv => ?_⟩
    have hsample := run_samplerSample hdrawn henv.accepts henv.sample_head
    rw [sequenceLoop, sessionSequence]
    by_cases hfull : ctx ≤ seqLen
    · rw [if_pos hfull, if_pos hfull]
      rfl
    rw [if_neg hfull, if_neg hfull, run_bind_ok (run_storeBytes ..), run_bind_ok hfeed,
      run_bind_ok (run_storeBytes ..), run_bind_ok hfeed]
    by_cases hfed : fed = false
    · rw [if_pos hfed, if_pos hfed]
      rfl
    rw [if_neg hfed, if_neg hfed, executePlan_eq henv.malloc, run_bind_ok (run_callOther ..),
      run_bind_ok (run_callOther ..)]
    cases (executeSession model session malloc mem₂).1 with
    | some e => rfl
    | none =>
      dsimp only
      rw [run_bind_ok hsample, run_bind_ok hdrawn]
      obtain ⟨res, sampler'⟩ := drawn
      cases res with
      | error e => rfl
      | ok id =>
        dsimp only
        cases htext : paiTokDecode model.tokenizer [id] genTextSize with
        | error e => rfl
        | ok text =>
          rw [GenState.afterDraw_ok htext] at hscript henv
          dsimp only
          rw [henv.cancelled_head]
          by_cases hcancel : (({ g with sampler := sampler' } : GenState σ).deliver cancels text).cancelled = true
          · rw [if_pos hcancel, if_pos hcancel]
            rfl
          rw [if_neg hcancel, if_neg hcancel, run_bind_ok (run_storeBytes ..), run_bind_ok (run_storeBytes ..),
            henv.eos]
          by_cases heos : eosToken ≠ 0 ∧ id = eosToken
          · rw [if_pos heos, if_pos heos]
            rfl
          · rw [if_neg heos, if_neg heos]
            exact hscript env henv.tail

/-- The loop over single tokens, from a step on. -/
lemma exists_tokenLoop (inPtr outPtr inSize vocab outFloats left step : ℕ) (cur : UInt32) (g : GenState σ)
    (mem : Memory Space) : ∃ script : GenEnv, ∀ env : GenEnv, env.Follows script malloc eosToken step →
      (tokenLoop model session env inPtr outPtr inSize vocab outFloats left step cur g.delivered).run mem =
        generationOf ((sessionTokens model code (executeSession model session malloc) cancels eosToken inPtr
          outPtr inSize vocab outFloats left cur g).run mem) := by
  induction left generalizing step cur g mem with
  | zero => exact ⟨⟨0, 0, false, fun _ _ => .error 0, fun _ => false, malloc⟩, fun env _ => rfl⟩
  | succ left ih =>
    obtain ⟨mem₂, hmem₂⟩ : ∃ mem₂, (mem.put .region inPtr (List.replicate inSize 0)).put .region
        (inPtr + 4 * cur.toNat) oneF32 = mem₂ := ⟨_, rfl⟩
    obtain ⟨drawn, hdrawn⟩ := exists_run_sampleFloats code g.sampler outPtr outFloats
      (executeSession model session malloc mem₂).2
    obtain ⟨script, hscript⟩ := ih (step + 1) (drawn.1.toOption.getD 0)
      (g.afterDraw model cancels drawn) (executeSession model session malloc mem₂).2
    refine ⟨script.push step (code.outcome g.sampler) (g.afterDraw model cancels drawn).cancelled,
      fun env henv => ?_⟩
    have hsample := run_samplerSample hdrawn henv.accepts henv.sample_head
    rw [tokenLoop, sessionTokens]
    by_cases hvocab : vocab ≤ cur.toNat
    · rw [if_pos hvocab, if_pos hvocab]
      rfl
    rw [if_neg hvocab, if_neg hvocab, run_bind_ok (run_storeBytes ..), run_bind_ok (run_storeBytes ..),
      executePlan_eq henv.malloc, run_bind_ok (run_callOther ..), run_bind_ok (run_storeBytes ..),
      run_bind_ok (run_storeBytes ..), run_bind_ok (run_callOther ..), hmem₂]
    cases (executeSession model session malloc mem₂).1 with
    | some e => rfl
    | none =>
      dsimp only
      rw [run_bind_ok hsample, run_bind_ok hdrawn]
      obtain ⟨res, sampler'⟩ := drawn
      cases res with
      | error e => rfl
      | ok id =>
        dsimp only
        cases htext : paiTokDecode model.tokenizer [id] genTextSize with
        | error e => rfl
        | ok text =>
          rw [GenState.afterDraw_ok htext] at hscript henv
          dsimp only
          rw [henv.cancelled_head, henv.eos]
          by_cases hcancel : (({ g with sampler := sampler' } : GenState σ).deliver cancels text).cancelled = true
          · rw [if_pos hcancel, if_pos hcancel]
            rfl
          rw [if_neg hcancel, if_neg hcancel]
          by_cases heos : eosToken ≠ 0 ∧ id = eosToken
          · rw [if_pos heos, if_pos heos]
            rfl
          · rw [if_neg heos, if_neg heos]
            exact hscript env henv.tail

/-- With the plan executed by the kernels, a generation is one of `paiSessionGenerate`, for some outcomes of the
sampler and the caller. -/
theorem exists_paiSessionGenerate (maxTokens : UInt32) (call : GenCall) (sampler : σ) (mem : Memory Space) :
    ∃ env : GenEnv,
      env.maxTokens = maxTokens ∧ env.eosToken = eosToken ∧ env.malloc = call.malloc ∧
      (paiSessionGenerate model session env call.prompt).run mem =
        generationOf ((sessionGenerate model code (executeSession model session call.malloc) eosToken session
          call maxTokens ⟨sampler, false, 0, []⟩).run mem) := by
  -- exits before the loops need no outcomes
  let idle : GenEnv := ⟨maxTokens, eosToken, false, fun _ _ => .error 0, fun _ => false, call.malloc⟩
  unfold paiSessionGenerate sessionGenerate
  by_cases htok : model.tokenizer.tokens.length = 0
  · simp only [if_pos htok]
    exact ⟨idle, rfl, rfl, rfl, rfl⟩
  simp only [if_neg htok]
  cases model.ir.inputIds.head? with
  | none => exact ⟨idle, rfl, rfl, rfl, rfl⟩
  | some inputId =>
  cases model.ir.outputIds.head? with
  | none => exact ⟨idle, rfl, rfl, rfl, rfl⟩
  | some outputId =>
  simp only
  cases session.graph.value? inputId.toNat with
  | none => exact ⟨idle, rfl, rfl, rfl, rfl⟩
  | some inValue =>
  cases session.graph.value? outputId.toNat with
  | none => exact ⟨idle, rfl, rfl, rfl, rfl⟩
  | some outValue =>
  simp only
  by_cases hshape : shapeRefused model inValue outValue = true
  · simp only [if_pos hshape]
    exact ⟨idle, rfl, rfl, rfl, rfl⟩
  simp only [if_neg hshape]
  rcases hprompt : (tokenizePrompt model call.env call.prompt).run mem with ⟨e | e | ⟨n, cur⟩, mem'⟩
  · refine ⟨idle, rfl, rfl, rfl, ?_⟩
    rw [tokenizePrompt_call call rfl, run_bind_error hprompt, run_bind_error hprompt]
    rfl
  · refine ⟨idle, rfl, rfl, rfl, ?_⟩
    rw [tokenizePrompt_call call rfl, run_bind_ok hprompt, run_bind_ok hprompt]
    rfl
  have hfollows (script : GenEnv) : GenEnv.Follows ⟨maxTokens, eosToken, false, script.sample, script.cancelled,
      call.malloc⟩ script call.malloc eosToken 0 := ⟨rfl, rfl, rfl, fun _ _ => rfl, fun _ _ => rfl⟩
  by_cases hrank : inValue.rank = 2
  · obtain ⟨script, hscript⟩ := exists_sequenceLoop call.malloc eosToken code model session call.cancels
      (paiGraphMemPlanOffset model.memPlan inputId.toNat).toNat
      (paiGraphMemPlanOffset model.memPlan outputId.toNat).toNat inValue.sizeBytes.toNat (genCtx inValue).toNat
      (genVocab model inValue).toNat maxTokens.toNat 0 (min n (genCtx inValue).toNat) ⟨sampler, false, 0, []⟩ mem'
    refine ⟨⟨maxTokens, eosToken, false, script.sample, script.cancelled, call.malloc⟩, rfl, rfl, rfl, ?_⟩
    rw [tokenizePrompt_call call rfl, run_bind_ok hprompt, run_bind_ok hprompt]
    simp only [if_pos hrank]
    exact hscript _ (hfollows script)
  · obtain ⟨script, hscript⟩ := exists_tokenLoop call.malloc eosToken code model session call.cancels
      (paiGraphMemPlanOffset model.memPlan inputId.toNat).toNat
      (paiGraphMemPlanOffset model.memPlan outputId.toNat).toNat inValue.sizeBytes.toNat
      (genVocab model inValue).toNat (outValue.dim 0).toUInt32.toNat maxTokens.toNat 0 cur
      ⟨sampler, false, 0, []⟩ mem'
    refine ⟨⟨maxTokens, eosToken, false, script.sample, script.cancelled, call.malloc⟩, rfl, rfl, rfl, ?_⟩
    rw [tokenizePrompt_call call rfl, run_bind_ok hprompt, run_bind_ok hprompt]
    simp only [if_neg hrank]
    exact hscript _ (hfollows script)

end Scripts

end Prospero
