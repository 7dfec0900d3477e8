import Prospero.Graph.BridgeOps
import Prospero.Lib.Determined
import Prospero.Models.Generate
import Prospero.Models.LoadSafe
import Prospero.Scheduler.PlannedRun

/-!
# Sessions between calls

`pai_session_generate` and its companions (`models/model.c`) as calls on one session, with the state that stays
between them: the planned region, the sampler with its random state, the limits and the counters.  The ops of
the model have any meaning as functions of the contents of their inputs.  `paiSessionGenerate` takes the
outcomes of the sampler and of the caller as given, step by step; here they follow from the state
(`exists_paiSessionGenerate` says that these are outcomes it can be given).

A run of the plan depends on the values that no op produces alone (`planned_run_agree`) and leaves them alone
(`planned_run_keeps`).  `Planned.execKeeps` says so of the memory of a session, in the form that a generation
needs.

### Outline

* `SessionState.step`: one call on a session.
* `planned_of_open`: graph, plan and schedule of a session.
* `Planned.execKeeps`: what an execution depends on and keeps.
-/

namespace Prospero

open Buffer ByteString Footprint Reader SharedStore

/-! ## Sessions -/

/-- `pai_sampler_sample_logits` and `pai_sampler_sample_probs` over samplers with their random state. -/
structure SamplerCode (σ : Type) where
  /-- The temperature is negative. -/
  refuses : σ → Bool
  /-- The outcome on the floats that are read, and the sampler behind it. -/
  draw : σ → List UInt8 → Except PaiStatus UInt32 × σ

/-- What a generation changes besides memory. -/
structure GenState (σ : Type) where
  /-- `session->sampler`. -/
  sampler : σ
  /-- `session->cancelled`. -/
  cancelled : Bool
  /-- `session->generated_tokens`. -/
  generatedTokens : ℕ
  /-- The texts handed to the caller, in order. -/
  delivered : List (List UInt8)

/-- A session between calls. -/
structure SessionState (σ : Type) where
  /-- The planned region, beside the weights and what private buffers hold. -/
  mem : Memory Space
  /-- `session->sampler`. -/
  sampler : σ
  /-- `session->max_tokens`. -/
  maxTokens : UInt32
  /-- `session->eos_token`. -/
  eosToken : UInt32
  /-- `session->cancelled`. -/
  cancelled : Bool
  /-- `session->generated_tokens`. -/
  generatedTokens : ℕ

/-- The arguments of `pai_session_generate`, and what happens around it. -/
structure GenCall where
  /-- The prompt. -/
  prompt : List UInt8
  /-- The session is cancelled when these texts have been delivered. -/
  cancels : List (List UInt8) → Bool
  /-- An allocation succeeds. -/
  malloc : ℕ → Bool

/-- A call on a session. -/
inductive HistoryCall (σ : Type) where
  /-- `pai_session_set_sampler`. -/
  | setSampler (sampler : σ)
  /-- `pai_session_set_generation`. -/
  | setGeneration (maxTokens eosToken : UInt32)
  /-- `pai_session_cancel`. -/
  | cancel
  /-- `pai_session_generate`. -/
  | generate (call : GenCall)

/-- `pai_sched_execute` with any meaning of the ops. -/
def interpretPlan (graph : Graph) (memPlan : GraphMemPlan) (plan : SchedPlan) (meaning : OpMeaning PaiStatus)
    (mem : Memory Space) : Option PaiStatus × Memory Space :=
  if plan.steps.length ≠ graph.ops.length then (some paiErrMismatch, mem)
  else
    let run := runShared (graph.placeOf memPlan) (plan.program graph meaning) (mem .region)
    (run.1, Function.update mem .region run.2)

variable {σ : Type}

/-- Count a token and hand its text to the caller, who may cancel the session. -/
def GenState.deliver (g : GenState σ) (cancels : List (List UInt8) → Bool) (text : List UInt8) : GenState σ :=
  { g with
    cancelled := g.cancelled || cancels (g.delivered ++ [text])
    generatedTokens := g.generatedTokens + 1
    delivered := g.delivered ++ [text] }

section Generate

variable (model : Model) (code : SamplerCode σ) (exec : Memory Space → Option PaiStatus × Memory Space)
  (cancels : List (List UInt8) → Bool) (eosToken : UInt32)

/-- Sample from the `n` floats at `addr`. -/
def sampleFloats (sampler : σ) (addr n : ℕ) : Kernel (Except PaiStatus UInt32 × σ) :=
  if n = 0 ∨ code.refuses sampler = true then pure (.error paiErrInvalidArg, sampler)
  else do
    let floats ← loadBytes .region addr (4 * n)
    pure (code.draw sampler floats)

/-- The loop over a growing sequence, with the steps left. -/
def sessionSequence (inPtr outPtr inSize ctx vocab : ℕ) : ℕ → ℕ → GenState σ → Kernel (PaiStatus × GenState σ)
  | 0, _, g => pure (paiOk, g)
  | left + 1, seqLen, g =>
    if ctx ≤ seqLen then pure (paiOk, g)
    else do
      storeBytes .region inPtr (List.replicate inSize 0)
      let fed ← feedTokens inPtr vocab 0 seqLen
      if fed = false then pure (paiErrMismatch, g)
      else do
        match ← callOther exec with
        | some e => pure (e, g)
        | none =>
          let drawn ← sampleFloats code g.sampler (outPtr + 4 * ((seqLen - 1) * vocab)) vocab
          let g := { g with sampler := drawn.2 }
          match drawn.1 with
          | .error e => pure (e, g)
          | .ok sampled =>
            match paiTokDecode model.tokenizer [sampled] genTextSize with
            | .error e => pure (e, g)
            | .ok text =>
              let g := g.deliver cancels text
              if g.cancelled = true then pure (paiOk, g)
              else do
                storeBytes .scratch (4 * seqLen) (u32le sampled)
                if eosToken ≠ 0 ∧ sampled = eosToken then pure (paiOk, g)
                else sessionSequence inPtr outPtr inSize ctx vocab left (seqLen + 1) g

/-- The loop over single tokens, with the steps left. -/
def sessionTokens (inPtr outPtr inSize vocab outFloats : ℕ) :
    ℕ → UInt32 → GenState σ → Kernel (PaiStatus × GenState σ)
  | 0, _, g => pure (paiOk, g)
  | left + 1, cur, g =>
    if vocab ≤ cur.toNat then pure (paiErrMismatch, g)
    else do
      storeBytes .region inPtr (List.replicate inSize 0)
      storeBytes .region (inPtr + 4 * cur.toNat) oneF32
      match ← callOther exec with
      | some e => pure (e, g)
      | none =>
        let drawn ← sampleFloats code g.sampler outPtr outFloats
        let g := { g with sampler := drawn.2 }
        match drawn.1 with
        | .error e => pure (e, g)
        | .ok sampled =>
          match paiTokDecode model.tokenizer [sampled] genTextSize with
          | .error e => pure (e, g)
          | .ok text =>
            let g := g.deliver cancels text
            if g.cancelled = true then pure (paiOk, g)
            else if eosToken ≠ 0 ∧ sampled = eosToken then pure (paiOk, g)
            else sessionTokens inPtr outPtr inSize vocab outFloats left sampled g

/-- What tokenizing depends on. -/
def GenCall.env (call : GenCall) : GenEnv := ⟨0, 0, false, fun _ _ => .error paiErrInvalidArg, fun _ => false, call.malloc⟩

/-- `pai_session_generate`. -/
def sessionGenerate (session : Session) (call : GenCall) (maxTokens : UInt32) (g : GenState σ) :
    Kernel (PaiStatus × GenState σ) :=
  if model.tokenizer.tokens.length = 0 then pure (paiErrUnsupported, g)
  else
    match model.ir.inputIds.head?, model.ir.outputIds.head? with
    | some inputId, some outputId =>
      match session.graph.value? inputId.toNat, session.graph.value? outputId.toNat with
      | some inValue, some outValue =>
        if shapeRefused model inValue outValue = true then pure (paiErrMismatch, g)
        else do
          match ← tokenizePrompt model call.env call.prompt with
          | .error e => pure (e, g)
          | .ok (n, cur) =>
            let inPtr := (paiGraphMemPlanOffset model.memPlan inputId.toNat).toNat
            let outPtr := (paiGraphMemPlanOffset model.memPlan outputId.toNat).toNat
            let vocab := (genVocab model inValue).toNat
            let g := { g with generatedTokens := 0, cancelled := false }
            if inValue.rank = 2 then
              let ctx := (genCtx inValue).toNat
              sessionSequence model code exec call.cancels eosToken inPtr outPtr inValue.sizeBytes.toNat ctx
                vocab maxTokens.toNat (min n ctx) g
            else
              sessionTokens model code exec call.cancels eosToken inPtr outPtr inValue.sizeBytes.toNat vocab
                (outValue.dim 0).toUInt32.toNat maxTokens.toNat cur g
      | _, _ => pure (paiErrMismatch, g)
    | _, _ => pure (paiErrMismatch, g)

end Generate

/-- Status and delivered texts. -/
def GenState.outcome : Except PaiStatus (PaiStatus × GenState σ) → PaiStatus × List (List UInt8)
  | .ok (status, g) => (status, g.delivered)
  | .error e => (e, [])

section Calls

variable (model : Model) (session : Session) (code : SamplerCode σ) (meaning : OpMeaning PaiStatus)

/-- The session `pai_session_init` hands out over some memory; the sampler is that of `pai_sampler_init`. -/
def SessionState.fresh (mem : Memory Space) (sampler : σ) : SessionState σ := ⟨mem, sampler, 32, 0, false, 0⟩

/-- The program of a generation on a session. -/
def SessionState.generateProg (st : SessionState σ) (call : GenCall) : Kernel (PaiStatus × GenState σ) :=
  sessionGenerate model code (interpretPlan session.graph model.memPlan session.plan meaning) st.eosToken session
    call st.maxTokens ⟨st.sampler, st.cancelled, st.generatedTokens, []⟩

/-- Status and delivered texts of a generation on a session. -/
def SessionState.generate (st : SessionState σ) (call : GenCall) : PaiStatus × List (List UInt8) :=
  GenState.outcome ((st.generateProg model session code meaning call).run st.mem).1

/-- The session behind a generation. -/
def SessionState.afterGenerate (st : SessionState σ) (call : GenCall) : SessionState σ :=
  let run := (st.generateProg model session code meaning call).run st.mem
  match run.1 with
  | .ok (_, g) =>
    { st with mem := run.2, sampler := g.sampler, cancelled := g.cancelled, generatedTokens := g.generatedTokens }
  | .error _ => { st with mem := run.2 }

/-- `pai_session_set_generation`. -/
def SessionState.setGeneration (st : SessionState σ) (maxTokens eosToken : UInt32) : SessionState σ × PaiStatus :=
  if maxTokens = 0 then (st, paiErrInvalidArg)
  else ({ st with maxTokens := maxTokens, eosToken := eosToken }, paiOk)

/-- One call on a session. -/
def SessionState.step (st : SessionState σ) : HistoryCall σ → SessionState σ
  | .setSampler sampler => { st with sampler := sampler }
  | .setGeneration maxTokens eosToken => (st.setGeneration maxTokens eosToken).1
  | .cancel => { st with cancelled := true }
  | .generate call => st.afterGenerate model session code meaning call

/-- A session behind a sequence of calls. -/
def SessionState.after (st : SessionState σ) (calls : List (HistoryCall σ)) : SessionState σ :=
  calls.foldl (SessionState.step model session code meaning) st

end Calls

/-! ## Opened sessions -/

/-- A session of an opened model with its plan and its schedule. -/
structure Planned (qsort : Planner → List SortEntry) (model : Model) (session : Session) : Prop where
  /-- The plan is persistent, of a graph of the API. -/
  plan : ∃ calls, graphMemoryPlanImpl qsort (graphBuild calls) true = (session.graph, .ok model.memPlan)
  /-- The schedule is of that graph. -/
  sched : schedBuildImpl session.graph model.memPlan .interactive (fun _ => 0) true =
    (session.graph, .ok session.plan)
  /-- `qsort` has sorted the requests. -/
  sorted : ∀ planner, session.graph.planner true = .ok planner → IsQsorted planner (qsort planner)
  /-- No offset of the plan wraps. -/
  inRange : ∀ planner, session.graph.planner true = .ok planner → SweepInRange Sweep.init (qsort planner)
  /-- The outputs of the program are marked. -/
  outputs : ∀ id ∈ model.ir.outputIds, ∀ value, session.graph.value? id.toNat = some value →
    value.isOutput = true

section Opened

variable {malloc : ℕ → Bool} {inflate : List UInt8 → ℕ → Option (List UInt8)} {qsort : Planner → List SortEntry}
  {blob : List UInt8} {model : Model} {session : Session}

/-- The plan of an opened model, and the marks of its outputs. -/
lemma opened_planned (h : paiModelOpenBlob malloc inflate qsort blob = .ok model) :
    (∃ calls, graphMemoryPlanImpl qsort (graphBuild calls) true = (model.graph, .ok model.memPlan)) ∧
      ∀ id ∈ model.ir.outputIds, ∀ value, model.graph.value? id.toNat = some value → value.isOutput = true := by
  unfold paiModelOpenBlob at h
  obtain ⟨container, -, h⟩ := bind_eq_ok h
  obtain ⟨metaSec, -, h⟩ := bind_eq_ok h
  obtain ⟨info, -, h⟩ := bind_eq_ok h
  obtain ⟨manifestSec, -, h⟩ := bind_eq_ok h
  obtain ⟨manifest, -, h⟩ := bind_eq_ok h
  obtain ⟨⟨weights, weightsBytes⟩, -, h⟩ := bind_eq_ok h
  obtain ⟨irSec, -, h⟩ := bind_eq_ok h
  obtain ⟨ir, hir, h⟩ := bind_eq_ok h
  obtain ⟨graph, hgraph, h⟩ := bind_eq_ok h
  obtain ⟨memPlan, hplan, h⟩ := bind_eq_ok h
  obtain ⟨tokenizer, -, h⟩ := bind_eq_ok h
  cases h
  have hgraph := liftStatus_eq_ok hgraph
  have hplan := liftStatus_eq_ok hplan
  refine ⟨?_, fun id hid value hvalue => ?_⟩
  · obtain ⟨calls, rfl⟩ := paiIrToGraph_calls hgraph
    exact ⟨calls, Prod.ext rfl hplan⟩
  · refine paiIrToGraph_outputs ((post_paiIrDecode irSec).of_ok hir) hgraph hid ?_
    have hvalues := values_graphMemoryPlanImpl qsort graph true
    change (graphMemoryPlanImpl qsort graph true).1.value? id.toNat = some value at hvalue
    rwa [Graph.value?, hvalues] at hvalue

/-- The schedule of a session. -/
lemma init_scheduled {malloc' : ℕ → Bool} {kvInit : UInt64 → UInt32 → UInt32 → PaiStatus}
    {mem mem' : Memory Space} (h : (paiSessionInit model malloc' kvInit).run mem = (.ok session, mem')) :
    schedBuildImpl model.graph model.memPlan .interactive (fun _ => 0) true =
      (session.graph, .ok session.plan) := by
  unfold paiSessionInit paiSchedBuildPersistent at h
  generalize schedBuildImpl model.graph model.memPlan .interactive (fun _ => 0) true = built at h ⊢
  rcases built with ⟨graph, e | plan⟩
  · cases h
  simp only at h
  split_ifs at h
  · cases h
  change Prog.run (Prog.bind _ _) mem = _ at h
  rw [Prog.run_bind] at h
  rcases hloop : (forEach (loadEntry model) model.manifest).run mem with ⟨e | u, mem₁⟩
  · rw [hloop] at h
    cases h
  · rw [hloop] at h
    simp only at h
    cases hkv : kvFails model kvInit with
    | none =>
      rw [hkv] at h
      cases h
      rfl
    | some e =>
      rw [hkv] at h
      cases h

/-- A session of an opened model is planned, if no offset of the plan wraps. -/
lemma planned_of_open (hopen : paiModelOpenBlob malloc inflate qsort blob = .ok model) {malloc' : ℕ → Bool}
    {kvInit : UInt64 → UInt32 → UInt32 → PaiStatus} {mem mem' : Memory Space}
    (hinit : (paiSessionInit model malloc' kvInit).run mem = (.ok session, mem'))
    (hqsort : ∀ planner, model.graph.planner true = .ok planner → IsQsorted planner (qsort planner))
    (hrange : ∀ planner, model.graph.planner true = .ok planner → SweepInRange Sweep.init (qsort planner)) :
    Planned qsort model session := by
  obtain ⟨⟨calls, hplan⟩, houtputs⟩ := opened_planned hopen
  have hsched := init_scheduled hinit
  -- the graph is sorted when it is planned, and the schedule leaves it so
  have hgraph : session.graph = model.graph := by
    rw [(schedBuildImpl_ok hsched).1, Graph.ensureSorted, if_pos (graphMemoryPlanImpl_ok hplan).2.1]
  rw [← hgraph] at hplan hsched hqsort hrange houtputs
  exact ⟨⟨calls, hplan⟩, hsched, hqsort, hrange, houtputs⟩

end Opened

/-! ## What an execution depends on and keeps -/

/-- The bytes of a value in the planned region. -/
def valueBytes (graph : Graph) (memPlan : GraphMemPlan) (v : ℕ) : Set (Space × ℕ) :=
  bytesOf .region (valuePtr memPlan v) (graph.valueAt v).sizeBytes.toNat

lemma valueBytes_eq {graph : Graph} {memPlan : GraphMemPlan} {v : ℕ} {value : GraphValue}
    (h : graph.value? v = some value) :
    valueBytes graph memPlan v = bytesOf .region (valuePtr memPlan v) value.sizeBytes.toNat := by
  rw [valueBytes, Graph.valueAt, h]
  rfl

lemma agreeOn_valueBytes {graph : Graph} {memPlan : GraphMemPlan} {v : ℕ} {mem mem' : Memory Space} :
    AgreeOn (valueBytes graph memPlan v) mem mem' ↔ ∀ i < (graph.valueAt v).sizeBytes.toNat,
      mem .region (valuePtr memPlan v + i) = mem' .region (valuePtr memPlan v + i) := by
  constructor
  · intro h i hi
    exact h (.region, valuePtr memPlan v + i) ⟨rfl, Nat.le_add_right _ _, Nat.add_lt_add_left hi _⟩
  · rintro h ⟨space, k⟩ ⟨rfl, hlo, hhi⟩
    obtain ⟨i, rfl⟩ := Nat.exists_eq_add_of_le hlo
    exact h i (Nat.lt_of_add_lt_add_left hhi)

/-- The bytes of the values that no op produces, the graph input apart. -/
def keptBytes (graph : Graph) (memPlan : GraphMemPlan) (input : ℕ) : Set (Space × ℕ) :=
  {x | ∃ v, 1 ≤ v ∧ v ≤ graph.values.length ∧ graph.producer v = 0 ∧ v ≠ input ∧
    x ∈ valueBytes graph memPlan v}

lemma region_of_mem_keptBytes {graph : Graph} {memPlan : GraphMemPlan} {input : ℕ} {x : Space × ℕ}
    (h : x ∈ keptBytes graph memPlan input) : x.1 = Space.region := by
  obtain ⟨v, -, -, -, -, hspace, -⟩ := h
  exact hspace

/-- The first `n` ids. -/
def idBytes (n : ℕ) : Set (Space × ℕ) := bytesOf .scratch 0 (4 * n)

/-- What a generation needs of an execution: it depends on the kept bytes, the input and the ids, it leaves the
kept bytes alone, and it determines the output. -/
structure ExecKeeps (keep : Set (Space × ℕ)) (exec : Memory Space → Option PaiStatus × Memory Space)
    (inPtr inSize outPtr outSize : ℕ) : Prop where
  /-- An execution with `n` ids. -/
  exec : ∀ n S, keep ∪ bytesOf .region inPtr inSize ∪ idBytes n ⊆ S →
    CallKeeps keep S
      (fun r => if r = none then keep ∪ bytesOf .region outPtr outSize ∪ idBytes n else ∅) exec
  /-- The input may be written. -/
  input : ∀ x ∈ bytesOf .region inPtr inSize, x ∉ keep
  /-- The ids may be written. -/
  region : ∀ x ∈ keep, x.1 = Space.region

section Planned

variable {qsort : Planner → List SortEntry} {model : Model} {session : Session}

/-- A value that no op produces has a place apart from every other value. -/
lemma Planned.apart (h : Planned qsort model session) {u v : ℕ}
    (hu : 1 ≤ u ∧ u ≤ session.graph.values.length) (hv : 1 ≤ v ∧ v ≤ session.graph.values.length)
    (hproducer : session.graph.producer v = 0) (hne : v ≠ u) :
    (session.graph.placeOf model.memPlan u).Apart (session.graph.placeOf model.memPlan v) := by
  obtain ⟨calls, hplan⟩ := h.plan
  obtain ⟨hbuilt, hfit, -, -, -⟩ := planned_facts hplan h.sched
  have hstart (w : ℕ) (hw : session.graph.producer w = 0) : session.graph.lifeStart w = 0 := by
    rw [session.graph.lifeStart_eq_epoch, hw]
    rfl
  have hstop (w : ℕ) (hw : session.graph.producer w = 0) :
      session.graph.lifeStop true w = session.graph.ops.length := by
    unfold Graph.lifeStop Graph.lifeEndPersistent
    rw [if_pos rfl, if_pos hw]
  by_cases hprod : session.graph.producer u = 0
  · -- both live throughout, and the planner refuses empty lifetimes
    have hpos : 0 < session.graph.ops.length := by
      have hlt := Graph.request_life hplan hv
      rw [hstart v hproducer, hstop v hproducer, hbuilt.ofNat_epoch (Nat.zero_le _),
        hbuilt.ofNat_epoch le_rfl] at hlt
      exact hlt
    refine Graph.places_apart hbuilt hfit hplan h.sorted h.inRange (List.ne_nil_of_length_pos hpos)
      (Ne.symm hne) hu hv ?_ ?_
    · rwa [hstart u hprod, hstop v hproducer]
    · rwa [hstart v hproducer, hstop u hprod]
  · obtain ⟨op, hop, hout⟩ := hbuilt.output_of_producer u hprod
    refine Graph.output_apart hbuilt hfit hplan h.sorted h.inRange hop hout hne hv ?_ ?_
    · rw [hstart v hproducer]
      exact Nat.zero_le _
    · rw [hstop v hproducer]
      exact hfit op (Graph.op?_eq_some hop).2.2

variable (meaning : OpMeaning PaiStatus)

/-- An execution is a run in the region. -/
lemma Planned.interpretPlan_eq (h : Planned qsort model session) (mem : Memory Space) :
    interpretPlan session.graph model.memPlan session.plan meaning mem =
      ((runShared (session.graph.placeOf model.memPlan) (session.plan.program session.graph meaning)
          (mem .region)).1,
        Function.update mem .region
          (runShared (session.graph.placeOf model.memPlan) (session.plan.program session.graph meaning)
            (mem .region)).2) := by
  obtain ⟨calls, hplan⟩ := h.plan
  exact if_neg (not_not.mpr (planned_facts hplan h.sched).2.2.2.1)

/-- An execution leaves the kept bytes alone. -/
lemma Planned.interpretPlan_kept (h : Planned qsort model session) (input : ℕ) (mem : Memory Space) :
    AgreeOn (keptBytes session.graph model.memPlan input)
      (interpretPlan session.graph model.memPlan session.plan meaning mem).2 mem := by
  obtain ⟨calls, hplan⟩ := h.plan
  rintro x ⟨v, h1, h2, hproducer, -, hx⟩
  refine agreeOn_valueBytes.mpr (fun i hi => ?_) x hx
  rw [h.interpretPlan_eq]
  dsimp only
  rw [Function.update_self]
  exact planned_run_keeps hplan h.sched h.sorted h.inRange meaning (mem .region) h1 h2 hproducer i hi

/-- Executions from memories with the same kept bytes and the same input end with the same status, and with the
same outputs. -/
lemma Planned.interpretPlan_agree (h : Planned qsort model session) (input : ℕ) {mem mem' : Memory Space}
    (hmem : AgreeOn (keptBytes session.graph model.memPlan input ∪ valueBytes session.graph model.memPlan input)
      mem mem') :
    (interpretPlan session.graph model.memPlan session.plan meaning mem).1 =
        (interpretPlan session.graph model.memPlan session.plan meaning mem').1 ∧
      ((interpretPlan session.graph model.memPlan session.plan meaning mem).1 = none →
        ∀ v value, session.graph.value? v = some value → value.isOutput = true →
          AgreeOn (valueBytes session.graph model.memPlan v)
            (interpretPlan session.graph model.memPlan session.plan meaning mem).2
            (interpretPlan session.graph model.memPlan session.plan meaning mem').2) := by
  obtain ⟨calls, hplan⟩ := h.plan
  have hheld (v : ℕ) (h1 : 1 ≤ v) (h2 : v ≤ session.graph.values.length)
      (hproducer : session.graph.producer v = 0) :
      AgreeOn (valueBytes session.graph model.memPlan v) mem mem' := by
    by_cases hv : v = input
    · subst hv
      exact fun x hx => hmem x (Or.inr hx)
    · exact fun x hx => hmem x (Or.inl ⟨v, h1, h2, hproducer, hv, hx⟩)
  obtain ⟨herror, hend⟩ := planned_run_agree hplan h.sched h.sorted h.inRange meaning
    fun v h1 h2 hproducer => agreeOn_valueBytes.mp (hheld v h1 h2 hproducer)
  rw [h.interpretPlan_eq, h.interpretPlan_eq]
  refine ⟨herror, fun hnone v value hvalue hout => agreeOn_valueBytes.mpr fun i hi => ?_⟩
  dsimp only
  rw [Function.update_self, Function.update_self]
  exact hend hnone v value hvalue hout i hi

/-- An execution of the plan is what a generation needs, with the places of its input and output. -/
lemma Planned.execKeeps (h : Planned qsort model session) {input output : ℕ} {inValue outValue : GraphValue}
    (hin : session.graph.value? input = some inValue) (hout : session.graph.value? output = some outValue)
    (hmark : outValue.isOutput = true) :
    ExecKeeps (keptBytes session.graph model.memPlan input)
      (interpretPlan session.graph model.memPlan session.plan meaning) (valuePtr model.memPlan input)
      inValue.sizeBytes.toNat (valuePtr model.memPlan output) outValue.sizeBytes.toNat := by
  refine ⟨fun n S hS => ?_, ?_, fun x hx => region_of_mem_keptBytes hx⟩
  · rw [← valueBytes_eq hin] at hS
    rw [← valueBytes_eq hout]
    have hagree {mem mem' : Memory Space} (hmem : AgreeOn S mem mem') :=
      h.interpretPlan_agree meaning input fun x hx => hmem x (hS (Or.inl hx))
    have hkept := h.interpretPlan_kept meaning input
    refine ⟨fun mem mem' hmem => (hagree hmem).1, fun mem mem' hmem x hx => ?_, hkept⟩
    split_ifs at hx with hnone
    · rcases hx with (hx | hx) | hx
      · exact (hkept mem x hx).trans ((hmem x (hS (Or.inl (Or.inl hx)))).trans (hkept mem' x hx).symm)
      · exact (hagree hmem).2 hnone output outValue hout hmark x hx
      · -- the ids are not in the region
        have hspace : x.1 ≠ Space.region := fun hregion => Space.noConfusion (hx.1.symm.trans hregion)
        rw [h.interpretPlan_eq, h.interpretPlan_eq]
        dsimp only
        rw [Function.update_of_ne hspace, Function.update_of_ne hspace]
        exact hmem x (hS (Or.inr hx))
    · exact absurd hx (Set.notMem_empty x)
  · rw [← valueBytes_eq hin]
    rintro x hx ⟨v, h1, h2, hproducer, hne, hx'⟩
    obtain ⟨hlo, hhi, -⟩ := Graph.value?_eq_some hin
    exact h.apart ⟨hlo, hhi⟩ ⟨h1, h2⟩ hproducer hne x.2 hx.2 hx'.2

end Planned

end Prospero
