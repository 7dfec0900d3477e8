import Prospero.Ir.Program
import Prospero.Memory.Planner

/-!
# Compute graphs

`graph/graph.c`: values and ops with data dependencies, the topological sort, tensor lifetimes and the
static memory plan over the planner of `memory/planner.c`.

Ids count from one; the value of id `v` stands at position `v - 1` of the list, and `0` is no value.
`Graph.Built` is what every sequence of calls keeps (`graphBuilt_run`).
-/

namespace Prospero

/-! ## Graphs -/

/-- `PAI_GRAPH_MAX_VALUES`. -/
abbrev paiGraphMaxValues : ℕ := 1024
/-- `PAI_GRAPH_MAX_OPS`. -/
abbrev paiGraphMaxOps : ℕ := 1024
/-- `PAI_GRAPH_MAX_ARITY`. -/
abbrev paiGraphMaxArity : ℕ := 16

/-- `pai_graph_op_kind_t`. -/
inductive OpKind where
  | none
  | add
  | mul
  | gemm
  | gemv
  | matmul
  | relu
  | softmax
  | layernorm
  | rmsnorm
  | rope
  | attention
  | reshape
  | concat
  | convert
  | copy
  | silu
  | custom
deriving DecidableEq

/-- `pai_graph_value_t`; the rank is the length of the shape. -/
structure GraphValue where
  /-- Element type. -/
  dtype : PaiDtype
  /-- Extents. -/
  shape : List UInt64
  /-- Contiguous payload bytes. -/
  sizeBytes : UInt64
  /-- Storage alignment. -/
  align : UInt64
  /-- Producing op id, `0` for inputs. -/
  producer : ℕ
  /-- Marked as a graph input. -/
  isInput : Bool
  /-- Marked as a graph output. -/
  isOutput : Bool
deriving DecidableEq

/-- The rank of a value. -/
abbrev GraphValue.rank (value : GraphValue) : ℕ := value.shape.length

/-- `value->shape[i]`; the extents from the rank on are zero. -/
def GraphValue.dim (value : GraphValue) (i : ℕ) : UInt64 := value.shape.getD i 0

/-- `pai_graph_op_t`; the arities are the lengths of the lists. -/
structure GraphOp where
  /-- Op kind. -/
  kind : OpKind
  /-- Consumed value ids. -/
  inputs : List ℕ
  /-- Produced value ids. -/
  outputs : List ℕ
  /-- Topological position. -/
  epoch : ℕ
deriving DecidableEq

/-- `pai_graph_t`; the counts are the lengths of the lists. -/
structure Graph where
  /-- Values in id order. -/
  values : List GraphValue
  /-- Ops in id order. -/
  ops : List GraphOp
  /-- The epochs are those of the last topological sort. -/
  sorted : Bool
deriving DecidableEq

/-- The value of an id. -/
def Graph.value? (graph : Graph) (id : ℕ) : Option GraphValue :=
  if id = 0 then none else graph.values[id - 1]?

/-- The op of an id. -/
def Graph.op? (graph : Graph) (id : ℕ) : Option GraphOp :=
  if id = 0 then none else graph.ops[id - 1]?

/-- `graph->values[id].producer`, `0` for an unknown id. -/
def Graph.producer (graph : Graph) (id : ℕ) : ℕ :=
  match graph.value? id with
  | some value => value.producer
  | none => 0

/-! ## Builder -/

/-- `pai_graph_init`. -/
def paiGraphInit : Graph := ⟨[], [], false⟩

/-- `pai_graph_add_value`: the graph and the new id, or `0`. -/
def paiGraphAddValue (graph : Graph) (dtype : PaiDtype) (shape : List UInt64) (align : UInt64) :
    Graph × ℕ :=
  if shape.length = 0 ∨ paiTensorMaxRank < shape.length ∨
      paiGraphMaxValues ≤ graph.values.length ∨ (align ≠ 0 ∧ isPow2 align = false) then (graph, 0)
  else
    match paiTensorContiguousSize dtype shape with
    | .error _ => (graph, 0)
    | .ok bytes =>
      let value : GraphValue :=
        { dtype := dtype
          shape := shape
          sizeBytes := bytes
          align := if align ≠ 0 then align else 16
          producer := 0
          isInput := false
          isOutput := false }
      ({ graph with values := graph.values ++ [value] }, graph.values.length + 1)

/-- The id is out of range. -/
def Graph.badId (graph : Graph) (id : ℕ) : Bool := id == 0 || graph.values.length < id

/-- Record the producer of the listed values. -/
def setProducer (values : List GraphValue) (outputs : List ℕ) (id : ℕ) : List GraphValue :=
  outputs.foldl (fun values v => values.modify (v - 1) fun value => { value with producer := id })
    values

/-- `pai_graph_add_op`: the graph and the new id, or `0`. -/
def paiGraphAddOp (graph : Graph) (kind : OpKind) (inputs outputs : List ℕ) : Graph × ℕ :=
  if paiGraphMaxArity < inputs.length ∨ paiGraphMaxArity < outputs.length ∨
      paiGraphMaxOps ≤ graph.ops.length then (graph, 0)
  else if inputs.any graph.badId then (graph, 0)
  -- an unknown or already produced output, or one listed twice
  else if outputs.any (fun id => graph.badId id || graph.producer id != 0) ∨ ¬ outputs.Nodup then
    (graph, 0)
  -- an op may not consume its own output
  else if inputs.any (outputs.contains ·) then (graph, 0)
  else
    let id := graph.ops.length + 1
    ({ values := setProducer graph.values outputs id
       ops := graph.ops ++ [⟨kind, inputs, outputs, 0⟩]
       sorted := false }, id)

/-- The shared body of `pai_graph_set_input` and `pai_graph_set_output`. -/
def Graph.mark (graph : Graph) (id : ℕ) (f : GraphValue → GraphValue) : Graph :=
  if id ≠ 0 ∧ id ≤ graph.values.length then
    { graph with values := graph.values.modify (id - 1) f }
  else graph

/-- `pai_graph_set_input`. -/
def paiGraphSetInput (graph : Graph) (id : ℕ) : Graph :=
  graph.mark id fun value => { value with isInput := true }

/-- `pai_graph_set_output`. -/
def paiGraphSetOutput (graph : Graph) (id : ℕ) : Graph :=
  graph.mark id fun value => { value with isOutput := true }

/-! ## Topological sort -/

/-- The local state of `pai_graph_topo_sort`: the queue from `head` on, and the order so far. -/
structure Kahn where
  /-- Inputs whose producer has not been taken yet, by op id. -/
  indegree : ℕ → UInt32
  /-- `queue[head .. tail)`. -/
  queue : List ℕ
  /-- `order[0 .. processed)`. -/
  order : List ℕ

/-- The number of inputs of op `o` that another op produces. -/
def Graph.indegree (graph : Graph) (o : ℕ) : UInt32 :=
  match graph.op? o with
  | some op =>
    UInt32.ofNat (op.inputs.countP fun v => graph.producer v != 0 && graph.producer v != o)
  | none => 0

/-- The op ids. -/
def Graph.opIds (graph : Graph) : List ℕ := List.range' 1 graph.ops.length

/-- The state before the loop: every op without a producer to wait for is queued. -/
def Kahn.init (graph : Graph) : Kahn :=
  ⟨graph.indegree, graph.opIds.filter fun o => graph.indegree o == 0, []⟩

/-- The innermost body: input `w` of op `c` against the output `v`. -/
def Kahn.useInput (v c : ℕ) (k : Kahn) (w : ℕ) : Kahn :=
  if w = v then
    let d := k.indegree c - 1
    { k with
      indegree := Function.update k.indegree c d
      queue := if d = 0 then k.queue ++ [c] else k.queue }
  else k

/-- The loop over the inputs of op `c`. -/
def Kahn.useOp (graph : Graph) (o v : ℕ) (k : Kahn) (c : ℕ) : Kahn :=
  if c = o then k
  else
    match graph.op? c with
    | some op => op.inputs.foldl (Kahn.useInput v c) k
    | none => k

/-- The loop over the ops for one output `v` of op `o`. -/
def Kahn.useOutput (graph : Graph) (o : ℕ) (k : Kahn) (v : ℕ) : Kahn :=
  graph.opIds.foldl (Kahn.useOp graph o v) k

/-- One round of the `while` loop: take op `o` from the queue. -/
def Kahn.take (graph : Graph) (k : Kahn) (o : ℕ) (rest : List ℕ) : Kahn :=
  let k := { k with queue := rest, order := k.order ++ [o] }
  match graph.op? o with
  | some op => op.outputs.foldl (Kahn.useOutput graph o) k
  | none => k

/-- The `while` loop.  Each op enters the queue at most once, so that as many rounds as there are ops
empty it. -/
def Kahn.loop (graph : Graph) : ℕ → Kahn → Kahn
  | 0, k => k
  | fuel + 1, k =>
    match k.queue with
    | [] => k
    | o :: rest => Kahn.loop graph fuel (k.take graph o rest)

/-- The order in which the ops are taken. -/
def Graph.kahn (graph : Graph) : Kahn := Kahn.loop graph graph.ops.length (Kahn.init graph)

/-- `graph->ops[order[i]].epoch = i` for every `i`. -/
def setEpochs (ops : List GraphOp) (order : List ℕ) : List GraphOp :=
  order.zipIdx.foldl (fun ops x => ops.modify (x.1 - 1) fun op => { op with epoch := x.2 }) ops

/-- `pai_graph_topo_sort`. -/
def paiGraphTopoSort (graph : Graph) : Graph × PaiStatus :=
  if graph.kahn.order.length ≠ graph.ops.length then ({ graph with sorted := false }, paiErrMismatch)
  else ({ graph with ops := setEpochs graph.ops graph.kahn.order, sorted := true }, paiOk)

/-- The sort the planner and the scheduler run first if needed. -/
def Graph.ensureSorted (graph : Graph) : Graph × PaiStatus :=
  if graph.sorted then (graph, paiOk) else paiGraphTopoSort graph

/-! ## Lifetimes -/

/-- Some op consumes the value. -/
def Graph.used (graph : Graph) (v : ℕ) : Bool := graph.ops.any fun op => op.inputs.contains v

/-- The last epoch that consumes the value, `0` when none does. -/
def Graph.lastUse (graph : Graph) (v : ℕ) : ℕ :=
  ((graph.ops.filter fun op => op.inputs.contains v).map GraphOp.epoch).foldl max 0

/-- `out_start[v]`: the epoch of the producer. -/
def Graph.lifeStart (graph : Graph) (v : ℕ) : ℕ :=
  match graph.op? (graph.producer v) with
  | some op => op.epoch
  | none => 0

/-- `out_end[v]` of `pai_graph_value_lifetimes`. -/
def Graph.lifeEnd (graph : Graph) (v : ℕ) : ℕ :=
  if (graph.value? v).any GraphValue.isOutput then graph.ops.length
  else if graph.used v then graph.lastUse v + 1
  else graph.lifeStart v + 1

/-- `out_end[v]` of `pai_graph_value_lifetimes_persistent`. -/
def Graph.lifeEndPersistent (graph : Graph) (v : ℕ) : ℕ :=
  if graph.producer v = 0 then graph.ops.length else graph.lifeEnd v

/-! ## The memory plan -/

/-- `pai_graph_mem_plan_t`. -/
structure GraphMemPlan where
  /-- Offset of each value, by id. -/
  offsets : ℕ → UInt64
  /-- Size of the planned region. -/
  regionBytes : UInt64
  /-- Size without reuse. -/
  naiveBytes : UInt64
  /-- Peak of the live bytes. -/
  peakLive : UInt64

/-- `pai_graph_mem_plan_offset`. -/
def paiGraphMemPlanOffset (plan : GraphMemPlan) (id : ℕ) : UInt64 :=
  if id = 0 ∨ paiGraphMaxValues < id then 0 else plan.offsets id

/-- The loop that adds a request for each listed value, with the status of the first refused one. -/
def addRequests (graph : Graph) (life : ℕ → ℕ) : Planner → List (GraphValue × ℕ) →
    Except PaiStatus Planner
  | planner, [] => .ok planner
  | planner, (value, v) :: rest =>
    let r := paiMemPlannerAdd planner value.sizeBytes value.align
      (UInt64.ofNat (graph.lifeStart v)) (UInt64.ofNat (life v))
    if r.2 ≠ paiOk then .error r.2 else addRequests graph life r.1 rest

/-- The planner a sorted graph fills, one request for each value in id order. -/
def Graph.planner (graph : Graph) (persistent : Bool) : Except PaiStatus Planner :=
  addRequests graph (if persistent then graph.lifeEndPersistent else graph.lifeEnd)
    paiMemPlannerInit (graph.values.zipIdx 1)

/-- `graph_memory_plan_impl` after the sort, given the order in which `qsort` puts the requests of a
planner. -/
def graphPlanSorted (qsort : Planner → List SortEntry) (graph : Graph) (persistent : Bool) :
    Except PaiStatus GraphMemPlan :=
  match graph.planner persistent with
  | .error e => .error e
  | .ok planner =>
    match paiMemPlanBuild planner (qsort planner) with
    | .error e => .error e
    | .ok base =>
      .ok
        { offsets := fun v => if v = 0 ∨ graph.values.length < v then 0 else base.offsets (v - 1)
          regionBytes := base.regionBytes
          naiveBytes := base.naiveBytes
          peakLive := base.peakLive }

/-- `graph_memory_plan_impl`: the graph, sorted if it was not, and the plan. -/
def graphMemoryPlanImpl (qsort : Planner → List SortEntry) (graph : Graph) (persistent : Bool) :
    Graph × Except PaiStatus GraphMemPlan :=
  let r := graph.ensureSorted
  if r.2 ≠ paiOk then (r.1, .error r.2) else (r.1, graphPlanSorted qsort r.1 persistent)

/-- `pai_graph_memory_plan`. -/
def paiGraphMemoryPlan (qsort : Planner → List SortEntry) (graph : Graph) :
    Graph × Except PaiStatus GraphMemPlan :=
  graphMemoryPlanImpl qsort graph false

/-- `pai_graph_memory_plan_persistent`. -/
def paiGraphMemoryPlanPersistent (qsort : Planner → List SortEntry) (graph : Graph) :
    Graph × Except PaiStatus GraphMemPlan :=
  graphMemoryPlanImpl qsort graph true

/-! ## Calls -/

/-- A call of the graph API. -/
inductive GraphCall where
  /-- `pai_graph_add_value`. -/
  | addValue (dtype : PaiDtype) (shape : List UInt64) (align : UInt64)
  /-- `pai_graph_add_op`. -/
  | addOp (kind : OpKind) (inputs outputs : List ℕ)
  /-- `pai_graph_set_input`. -/
  | setInput (id : ℕ)
  /-- `pai_graph_set_output`. -/
  | setOutput (id : ℕ)
  /-- `pai_graph_topo_sort`. -/
  | topoSort

/-- One call; a refused one changes nothing. -/
def Graph.step (graph : Graph) : GraphCall → Graph
  | .addValue dtype shape align => (paiGraphAddValue graph dtype shape align).1
  | .addOp kind inputs outputs => (paiGraphAddOp graph kind inputs outputs).1
  | .setInput id => paiGraphSetInput graph id
  | .setOutput id => paiGraphSetOutput graph id
  | .topoSort => (paiGraphTopoSort graph).1

/-- The graph a sequence of calls leaves. -/
def graphBuild (calls : List GraphCall) : Graph := calls.foldl Graph.step paiGraphInit

end Prospero
