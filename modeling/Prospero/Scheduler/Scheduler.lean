import Prospero.Graph.Built
import Prospero.Scheduler.RefOps

/-!
# Scheduler and reference executor

`scheduler/scheduler.c`: the execution plan (ordered steps with a device and memory accounting) and
the executor that runs a plan against the reference kernels.

A step checks the shapes of its op and then runs one kernel.  A step that returns an error has not
touched the region, and a step reads and writes only the planned ranges of its op
(`paiSchedExecute_inside_iff`), with one exception: `CONVERT` does not compare the element counts.
-/

namespace Prospero

open Footprint

/-! ## Execution plan -/

/-- `pai_sched_policy_t`. -/
inductive SchedPolicy where
  | interactive
  | throughput
  | exclusive
  | balanced
deriving DecidableEq

/-- A placement decision. -/
inductive SchedDevice where
  | cpu
  | gpu
deriving DecidableEq

/-- `default_device`. -/
def defaultDevice : OpKind → SchedDevice
  | .gemm | .gemv | .matmul | .attention | .softmax => .gpu
  | _ => .cpu

/-- `is_compute_kind`. -/
def isComputeKind : OpKind → Bool
  | .add | .mul | .gemm | .gemv | .matmul | .relu | .softmax | .layernorm | .rmsnorm | .rope
  | .attention => true
  | _ => false

/-- `resolve_device`; a hint is the byte the caller gives for an op id, `0` for none. -/
def resolveDevice (kind : OpKind) (policy : SchedPolicy) (hint : UInt8) :
    Except PaiStatus SchedDevice :=
  if hint ≠ 0 then
    if hint = 1 then .ok .cpu else if hint = 2 then .ok .gpu else .error paiErrInvalidArg
  else if policy = .exclusive ∧ isComputeKind kind = true then .ok .gpu
  else .ok (defaultDevice kind)

/-- `pai_sched_step_t`. -/
structure SchedStep where
  /-- Graph op id. -/
  opId : ℕ
  /-- Placement decision. -/
  device : SchedDevice
  /-- Topological position. -/
  epoch : ℕ
  /-- Storage live at this step, its outputs included. -/
  liveBytes : UInt64
  /-- Outputs of this step. -/
  producedBytes : UInt64
  /-- Storage freed when this step begins. -/
  releasedBytes : UInt64

/-- `pai_sched_plan_t`; the step counts are derived from the steps. -/
structure SchedPlan where
  /-- The steps in topological order. -/
  steps : List SchedStep
  /-- The policy the plan was built for. -/
  policy : SchedPolicy
  /-- Size of the planned region. -/
  regionBytes : UInt64
  /-- Size without reuse. -/
  naiveBytes : UInt64
  /-- Peak of the live bytes. -/
  peakLive : UInt64

/-- The bytes of the values whose lifetime satisfies the test. -/
def Graph.bytesWhere (graph : Graph) (test : ℕ → Bool) : UInt64 :=
  (graph.values.zipIdx 1).foldl (fun acc x => if test x.2 then acc + x.1.sizeBytes else acc) 0

/-- `op_at_epoch`: the last op with the epoch, `0` for none. -/
def Graph.opAtEpoch (graph : Graph) (epoch : ℕ) : ℕ :=
  (graph.ops.zipIdx 1).foldl (fun acc x => if x.1.epoch = epoch then x.2 else acc) 0

/-- One round of the step loop. -/
def schedStep (graph : Graph) (policy : SchedPolicy) (hints : ℕ → UInt8) (lifeEnd : ℕ → ℕ) (s : ℕ) :
    Except PaiStatus SchedStep :=
  let o := graph.opAtEpoch s
  match graph.op? o with
  | none => .error paiErrMismatch
  | some op =>
    match resolveDevice op.kind policy (hints o) with
    | .error e => .error e
    | .ok device =>
      let produced := graph.bytesWhere fun v => graph.lifeStart v == s
      .ok
        { opId := o
          device := device
          epoch := s
          liveBytes := graph.bytesWhere (fun v => graph.lifeStart v < s && s < lifeEnd v) + produced
          producedBytes := produced
          releasedBytes := graph.bytesWhere fun v => lifeEnd v == s }

/-- `sched_build_impl`: the graph, sorted if it was not, and the plan. -/
def schedBuildImpl (graph : Graph) (memPlan : GraphMemPlan) (policy : SchedPolicy)
    (hints : ℕ → UInt8) (persistent : Bool) : Graph × Except PaiStatus SchedPlan :=
  let r := graph.ensureSorted
  if r.2 ≠ paiOk then (r.1, .error r.2)
  else
    let lifeEnd := if persistent then r.1.lifeEndPersistent else r.1.lifeEnd
    match (List.range r.1.ops.length).mapM (schedStep r.1 policy hints lifeEnd) with
    | .error e => (r.1, .error e)
    | .ok steps =>
      (r.1, .ok
        { steps := steps
          policy := policy
          regionBytes := memPlan.regionBytes
          naiveBytes := memPlan.naiveBytes
          peakLive := memPlan.peakLive })

/-- `pai_sched_build`. -/
def paiSchedBuild (graph : Graph) (memPlan : GraphMemPlan) (policy : SchedPolicy)
    (hints : ℕ → UInt8) : Graph × Except PaiStatus SchedPlan :=
  schedBuildImpl graph memPlan policy hints false

/-- `pai_sched_build_persistent`. -/
def paiSchedBuildPersistent (graph : Graph) (memPlan : GraphMemPlan) (policy : SchedPolicy)
    (hints : ℕ → UInt8) : Graph × Except PaiStatus SchedPlan :=
  schedBuildImpl graph memPlan policy hints true

/-! ## Executor -/

/-- `graph->values[id]`; the entry of an unknown id is zero. -/
def Graph.valueAt (graph : Graph) (id : ℕ) : GraphValue :=
  (graph.value? id).getD ⟨.f32, [], 0, 0, 0, false, false⟩

/-- `value_nelem`. -/
def valueNelem (value : GraphValue) : UInt64 := value.shape.foldl (· * ·) 1

/-- `value_ptr`. -/
def valuePtr (memPlan : GraphMemPlan) (id : ℕ) : ℕ := (paiGraphMemPlanOffset memPlan id).toNat

/-- The sizes `run_gemm` reads off its operands: `m`, `n` and `k`. -/
def gemmDims (a b c : GraphValue) (isGemv : Bool) : Option (ℕ × ℕ × ℕ) :=
  if isGemv then
    if a.rank ≠ 2 ∨ b.rank ≠ 1 ∨ c.rank ≠ 1 then none
    else if b.dim 0 ≠ a.dim 1 ∨ c.dim 0 ≠ a.dim 0 then none
    else some ((a.dim 0).toNat, 1, (a.dim 1).toNat)
  else if a.rank = 1 then
    if b.rank ≠ 2 ∨ b.dim 0 ≠ a.dim 0 then none
    else if c.rank = 1 then
      if c.dim 0 ≠ b.dim 1 then none else some (1, (b.dim 1).toNat, (a.dim 0).toNat)
    else if c.rank = 2 then
      if c.dim 0 ≠ 1 ∨ c.dim 1 ≠ b.dim 1 then none
      else some (1, (b.dim 1).toNat, (a.dim 0).toNat)
    else none
  else if a.rank ≠ 2 ∨ b.rank ≠ 2 then none
  else if b.dim 0 ≠ a.dim 1 ∨ c.rank ≠ 2 ∨ c.dim 0 ≠ a.dim 0 ∨ c.dim 1 ≠ b.dim 1 then none
  else some ((a.dim 0).toNat, (b.dim 1).toNat, (a.dim 1).toNat)

section Executor

variable (malloc : ℕ → Bool) (graph : Graph) (memPlan : GraphMemPlan)

/-- `run_gemm`. -/
def runGemm (aId bId cId : ℕ) (isGemv : Bool) : Kernel Unit :=
  match gemmDims (graph.valueAt aId) (graph.valueAt bId) (graph.valueAt cId) isGemv with
  | none => .fail paiErrMismatch
  | some (m, n, k) =>
    paiRefGemmF32 m n k (valuePtr memPlan aId) (valuePtr memPlan bId) (valuePtr memPlan cId)

/-- The `RMSNORM` case. -/
def runRmsnorm (op : GraphOp) : Kernel Unit :=
  let a := graph.valueAt (op.inputs.getD 0 0)
  let c := graph.valueAt (op.outputs.getD 0 0)
  let pa := valuePtr memPlan (op.inputs.getD 0 0)
  let pc := valuePtr memPlan (op.outputs.getD 0 0)
  if op.inputs.length < 1 ∨ 2 < op.inputs.length ∨ op.outputs.length ≠ 1 ∨ a.rank < 1 ∨
      2 < a.rank then .fail paiErrMismatch
  else
    let rows := if a.rank = 2 then a.dim 0 else 1
    let cols := a.dim (a.rank - 1)
    if c.rank ≠ a.rank ∨ c.dim (a.rank - 1) ≠ cols ∨ (a.rank = 2 ∧ c.dim 0 ≠ rows) then
      .fail paiErrMismatch
    else if op.inputs.length = 2 then
      let g := graph.valueAt (op.inputs.getD 1 0)
      if g.rank ≠ 1 ∨ g.dim 0 ≠ cols then .fail paiErrMismatch
      else
        forUpTo rows.toNat fun r =>
          paiRefRmsnormGammaF32 (pa + 4 * u64 (r * cols.toNat)) (pc + 4 * u64 (r * cols.toNat))
            cols.toNat (valuePtr memPlan (op.inputs.getD 1 0))
    else
      forUpTo rows.toNat fun r =>
        paiRefRmsnormF32 (pa + 4 * u64 (r * cols.toNat)) (pc + 4 * u64 (r * cols.toNat)) cols.toNat

/-- The `ROPE` case. -/
def runRope (op : GraphOp) : Kernel Unit :=
  let a := graph.valueAt (op.inputs.getD 0 0)
  let c := graph.valueAt (op.outputs.getD 0 0)
  let co := graph.valueAt (op.inputs.getD 1 0)
  let si := graph.valueAt (op.inputs.getD 2 0)
  let nc := valueNelem c
  if op.inputs.length ≠ 3 ∨ op.outputs.length ≠ 1 ∨ a.rank < 2 ∨ 3 < a.rank ∨ c.rank ≠ a.rank then
    .fail paiErrMismatch
  else
    let hd := a.dim (a.rank - 1)
    let seq := a.dim 0
    let heads := if a.rank = 3 then a.dim 1 else 1
    if c.dim (a.rank - 1) ≠ hd ∨ c.dim 0 ≠ seq ∨ (a.rank = 3 ∧ c.dim 1 ≠ heads) then
      .fail paiErrMismatch
    else if co.rank ≠ 2 ∨ si.rank ≠ 2 ∨ co.dim 1 ≠ si.dim 1 ∨ co.dim 0 ≠ si.dim 0 then
      .fail paiErrMismatch
    else
      let r2 := co.dim 1
      if hd < 2 * r2 ∨ seq = 0 ∨ co.dim 0 < seq ∨ hd = 0 ∨ heads = 0 ∨ nc % hd ≠ 0 then
        .fail paiErrMismatch
      else
        paiRefRopeF32 (valuePtr memPlan (op.inputs.getD 0 0)) (nc / hd).toNat hd.toNat seq.toNat
          heads.toNat (valuePtr memPlan (op.inputs.getD 1 0))
          (valuePtr memPlan (op.inputs.getD 2 0)) r2.toNat (valuePtr memPlan (op.outputs.getD 0 0))

/-- The `ATTENTION` case. -/
def runAttention (op : GraphOp) : Kernel Unit :=
  let a := graph.valueAt (op.inputs.getD 0 0)
  let b := graph.valueAt (op.inputs.getD 1 0)
  let v := graph.valueAt (op.inputs.getD 2 0)
  let c := graph.valueAt (op.outputs.getD 0 0)
  if op.inputs.length ≠ 3 ∨ op.outputs.length ≠ 1 ∨ a.rank ≠ 3 ∨ b.rank ≠ 3 ∨ c.rank ≠ 3 then
    .fail paiErrMismatch
  else
    let seq := a.dim 0
    let hh := a.dim 1
    let hd := a.dim 2
    let hk := b.dim 1
    if b.dim 0 ≠ seq ∨ b.dim 2 ≠ hd ∨ v.rank ≠ 3 ∨ v.dim 0 ≠ seq ∨ v.dim 1 ≠ hk ∨ v.dim 2 ≠ hd ∨
        c.dim 0 ≠ seq ∨ c.dim 1 ≠ hh ∨ c.dim 2 ≠ hd ∨ hh = 0 ∨ hk = 0 ∨ hh % hk ≠ 0 then
      .fail paiErrMismatch
    else
      paiRefAttentionF32 malloc hh.toNat hk.toNat seq.toNat hd.toNat
        (valuePtr memPlan (op.inputs.getD 0 0)) (valuePtr memPlan (op.inputs.getD 1 0))
        (valuePtr memPlan (op.inputs.getD 2 0)) (valuePtr memPlan (op.outputs.getD 0 0))

/-- The `switch` of the executor. -/
def runKind (op : GraphOp) : Kernel Unit :=
  let a := graph.valueAt (op.inputs.getD 0 0)
  let b := graph.valueAt (op.inputs.getD 1 0)
  let c := graph.valueAt (op.outputs.getD 0 0)
  let na := valueNelem a
  let nb := valueNelem b
  let nc := valueNelem c
  let pa := valuePtr memPlan (op.inputs.getD 0 0)
  let pb := valuePtr memPlan (op.inputs.getD 1 0)
  let pc := valuePtr memPlan (op.outputs.getD 0 0)
  match op.kind with
  | .add =>
    if op.inputs.length ≠ 2 ∨ op.outputs.length ≠ 1 ∨ na ≠ nb ∨ nc ≠ na then .fail paiErrMismatch
    else paiRefVecaddF32 pa pb pc na.toNat
  | .mul =>
    if op.inputs.length ≠ 2 ∨ op.outputs.length ≠ 1 ∨ na ≠ nb ∨ nc ≠ na then .fail paiErrMismatch
    else paiRefVecmulF32 pa pb pc na.toNat
  | .gemm | .matmul =>
    if op.inputs.length ≠ 2 ∨ op.outputs.length ≠ 1 then .fail paiErrMismatch
    else
      runGemm graph memPlan (op.inputs.getD 0 0) (op.inputs.getD 1 0) (op.outputs.getD 0 0) false
  | .gemv =>
    if op.inputs.length ≠ 2 ∨ op.outputs.length ≠ 1 then .fail paiErrMismatch
    else
      runGemm graph memPlan (op.inputs.getD 0 0) (op.inputs.getD 1 0) (op.outputs.getD 0 0) true
  | .relu =>
    if op.inputs.length ≠ 1 ∨ op.outputs.length ≠ 1 ∨ nc ≠ na then .fail paiErrMismatch
    else paiRefReluF32 pa pc na.toNat
  | .softmax =>
    if op.inputs.length ≠ 1 ∨ op.outputs.length ≠ 1 ∨ nc ≠ na then .fail paiErrMismatch
    else paiRefSoftmaxF32 pa pc na.toNat
  | .rmsnorm => runRmsnorm graph memPlan op
  | .silu =>
    if op.inputs.length ≠ 1 ∨ op.outputs.length ≠ 1 ∨ nc ≠ na then .fail paiErrMismatch
    else paiRefSiluF32 pa pc na.toNat
  | .layernorm =>
    if op.inputs.length ≠ 1 ∨ op.outputs.length ≠ 1 ∨ nc ≠ na then .fail paiErrMismatch
    else paiRefLayernormF32 pa pc na.toNat
  | .concat =>
    if op.inputs.length ≠ 2 ∨ op.outputs.length ≠ 1 then .fail paiErrMismatch
    else if nc ≠ na + nb then .fail paiErrMismatch
    else if a.rank = 2 ∧ b.rank = 2 ∧ c.rank = 2 ∧
        (a.dim 1 ≠ b.dim 1 ∨ c.dim 1 ≠ a.dim 1) then .fail paiErrMismatch
    else paiRefConcatF32 pa pb pc na.toNat nb.toNat
  | .copy | .reshape =>
    if op.inputs.length ≠ 1 ∨ op.outputs.length ≠ 1 ∨ nc ≠ na then .fail paiErrMismatch
    else paiRefCopyF32 pa pc na.toNat
  -- unlike the two above, the element counts are not compared
  | .convert =>
    if op.inputs.length ≠ 1 ∨ op.outputs.length ≠ 1 ∨ a.dtype ≠ c.dtype then
      .fail paiErrUnsupported
    else paiRefCopyF32 pa pc na.toNat
  | .rope => runRope graph memPlan op
  | .attention => runAttention malloc graph memPlan op
  | .none | .custom => .fail paiErrUnsupported

/-- One step: every operand must be `f32`, then the kernel of the kind runs. -/
def runOp (op : GraphOp) : Kernel Unit :=
  if (op.inputs.any fun id => (graph.valueAt id).dtype ≠ .f32) ∨
      (op.outputs.any fun id => (graph.valueAt id).dtype ≠ .f32) then .fail paiErrUnsupported
  else runKind malloc graph memPlan op

/-- `pai_sched_run_stats_t`. -/
structure RunStats where
  /-- Steps run. -/
  stepsExecuted : ℕ
  /-- Steps placed on the GPU. -/
  gpuSteps : ℕ
  /-- Steps placed on the CPU. -/
  cpuSteps : ℕ

/-- The counters after a step. -/
def RunStats.count (stats : RunStats) (device : SchedDevice) : RunStats :=
  match device with
  | .gpu => { stats with stepsExecuted := stats.stepsExecuted + 1, gpuSteps := stats.gpuSteps + 1 }
  | .cpu => { stats with stepsExecuted := stats.stepsExecuted + 1, cpuSteps := stats.cpuSteps + 1 }

/-- The op of a step; the entry of an unknown id is zero. -/
def Graph.opAt (graph : Graph) (o : ℕ) : GraphOp := (graph.op? o).getD ⟨.none, [], [], 0⟩

/-- The step loop of the executor. -/
def runSteps : RunStats → List SchedStep → Kernel RunStats
  | stats, [] => pure stats
  | stats, step :: rest => do
    runOp malloc graph memPlan (graph.opAt step.opId)
    runSteps (stats.count step.device) rest

/-- `pai_sched_execute`. -/
def paiSchedExecute (plan : SchedPlan) : Kernel RunStats :=
  if plan.steps.length ≠ graph.ops.length then .fail paiErrMismatch
  else runSteps malloc graph memPlan ⟨0, 0, 0⟩ plan.steps

end Executor

end Prospero
