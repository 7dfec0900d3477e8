import Prospero.Models.Quantize
import Prospero.Pai.Container
import Prospero.Ir.Program

/-!
# The mixed-precision planner

`models/pai_opt.c`: roles of tensors, sizes under the storage schemes, and the plan, by role defaults or by
a greedy search for a budget.

The search is a loop of `greedyNext` with fuel; the result `none` says that the loop still runs.
-/

namespace Prospero

open Reader

/-! ## Roles and schemes -/

/-- `pai_opt_role_t`. -/
inductive OptRole where
  /-- Token embedding. -/
  | embedding
  /-- Attention projections. -/
  | attention
  /-- Feed-forward projections. -/
  | mlp
  /-- Output head. -/
  | output
  /-- Norms. -/
  | norm
  /-- Anything else. -/
  | other
deriving DecidableEq

/-- `pai_opt_scheme_t`. -/
inductive OptScheme where
  /-- 32-bit floats. -/
  | f32
  /-- Eight bits, one scale per group. -/
  | q8
  /-- Four bits, one scale per group. -/
  | q4
deriving DecidableEq

/-- The number of a scheme. -/
def OptScheme.code : OptScheme → ℕ
  | .f32 => 0
  | .q8 => 1
  | .q4 => 2

/-- `chosen + 1`, unless that is `PAI_OPT_SCHEME_COUNT`. -/
def OptScheme.next : OptScheme → Option OptScheme
  | .f32 => some .q8
  | .q8 => some .q4
  | .q4 => none

/-- `strstr(buf, pattern) != NULL`. -/
def strstr (buf : List UInt8) (pattern : String) : Bool :=
  buf.tails.any fun rest => pattern.toUTF8.toList.isPrefixOf rest

/-- A letter in lower case. -/
def lowerCase (ch : UInt8) : UInt8 := if 65 ≤ ch ∧ ch ≤ 90 then ch - 65 + 97 else ch

/-- `pai_opt_classify`: a copy of 63 bytes at most is searched. -/
def paiOptClassify (name : List UInt8) : OptRole :=
  let buf := ((name.takeWhile (· ≠ 0)).take 63).map lowerCase
  if ["embed", "embd", "wte", "tok_emb"].any (strstr buf) then .embedding
  else if strstr buf "norm" then .norm
  else if ["attn", "attention", "wq", "wk", "wv", "wo", "q_proj", "k_proj", "v_proj", "o_proj"].any
      (strstr buf) then .attention
  else if ["lm_head", "output", "w_out", "head"].any (strstr buf) then .output
  else if ["mlp", "feed_forward", "ffn", "gate_proj", "up_proj", "down_proj", "w1", "w2", "w3"].any
      (strstr buf) then .mlp
  else .other

/-- `role_allows`. -/
def roleAllows (role : OptRole) (scheme : OptScheme) : Bool :=
  match scheme with
  | .f32 => true
  | .q8 => role ≠ .norm
  | .q4 => role = .attention ∨ role = .mlp ∨ role = .other

/-- `role_default`. -/
def roleDefault : OptRole → OptScheme
  | .embedding | .attention | .output => .q8
  | .mlp => .q4
  | .norm | .other => .f32

/-- `role_cheapest`. -/
def roleCheapest : OptRole → OptScheme
  | .norm => .f32
  | .embedding | .output => .q8
  | .attention | .mlp | .other => .q4

/-! ## Tensors -/

/-- The loop of `tensor_numel`; 0 on an overflow and for an extent 0. -/
def numelLoop : List UInt64 → UInt64 → UInt64
  | [], n => n
  | d :: ds, n => if d = 0 ∨ 0xFFFFFFFFFFFFFFFF / d < n then 0 else numelLoop ds (n * d)

/-- `tensor_numel`. -/
def optTensorNumel (t : PaiTensor) : UInt64 :=
  if t.rank = 0 ∨ paiTensorMaxRank < t.rank.toNat then 0
  else numelLoop (t.shape.val.take t.rank.toNat) 1

/-- `pai_quant_weights_bytes`. -/
def paiQuantWeightsBytes (n : UInt64) (scheme : QuantScheme) : UInt64 :=
  UInt64.ofNat (paiQuantValueBytes n.toNat scheme + paiQuantScaleBytes n.toNat scheme)

/-- `size_bytes`, for `n` elements in groups of `groupSize`. -/
def optSizeBytes (n : UInt64) (groupSize : UInt16) : OptScheme → UInt64
  | .f32 => n * 4
  | .q8 => paiQuantWeightsBytes n ⟨8, 1, groupSize⟩
  | .q4 => paiQuantWeightsBytes n ⟨4, 1, groupSize⟩

/-- The scheme in the quantization metadata of a value of the program. -/
def irScheme (ir : Option IrProgram) (valueId : UInt32) : Option OptScheme := do
  let ir ← ir
  if valueId = 0 then none
  else
    let iv ← ir.values[valueId.toNat - 1]?
    if iv.quant.present = 0 then none
    else if iv.quant.bitWidth = 4 then some .q4
    else if iv.quant.bitWidth = 8 then some .q8
    else none

/-- `cur_scheme`: from the program, or inferred from the stored size. -/
def currentScheme (ir : Option IrProgram) (groupSize : UInt16) (t : PaiTensor) : OptScheme :=
  let n := optTensorNumel t
  match irScheme ir t.valueId with
  | some scheme => scheme
  | none =>
    if 0 < n ∧ t.sizeBytes < n * 4 then
      if t.sizeBytes = optSizeBytes n groupSize .q4 then .q4
      else if t.sizeBytes = optSizeBytes n groupSize .q8 then .q8
      else if t.sizeBytes ≤ n then .q4
      else .q8
    else .f32

/-- `pai_opt_tensor_t`. -/
structure OptTensor where
  /-- Tensor name. -/
  name : List UInt8
  /-- Value of the program the tensor belongs to. -/
  valueId : UInt32
  /-- Role by name. -/
  role : OptRole
  /-- Number of elements. -/
  numel : UInt64
  /-- Stored bytes. -/
  curBytes : UInt64
  /-- Scheme in storage. -/
  curScheme : OptScheme
  /-- Bytes under every scheme. -/
  sizeBytes : OptScheme → UInt64
  /-- Planned scheme. -/
  chosen : OptScheme

/-- The loop over the manifest, for one tensor. -/
def optTensor (ir : Option IrProgram) (groupSize : UInt16) (t : PaiTensor) : OptTensor where
  name := t.name
  valueId := t.valueId
  role := paiOptClassify t.name
  numel := optTensorNumel t
  curBytes := t.sizeBytes
  curScheme := currentScheme ir groupSize t
  sizeBytes := optSizeBytes (optTensorNumel t) groupSize
  chosen := .f32

/-- What the planner reads from the container: the name and the tensors. -/
def optTensors (container : PaiContainer) (ir : Option IrProgram) (groupSize : UInt16) :
    Read PaiStatus (List UInt8 × List OptTensor) :=
  match paiPaiSection container paiPaiSecMeta with
  | none => .error (.fail paiErrProtocol)
  | some sec => do
    let info ← paiPaiMetaDecode sec
    match paiPaiSection container paiPaiSecManifest with
    | none => .error (.fail paiErrProtocol)
    | some sec => do
      let tensors ← paiPaiManifestDecode sec paiPaiMaxTensors
      .ok (info.name, (tensors.take paiPaiMaxTensors).map (optTensor ir groupSize))

/-! ## The search -/

/-- The tensor with a scheme. -/
def OptTensor.choose (t : OptTensor) (scheme : OptScheme) : OptTensor := { t with chosen := scheme }

/-- `t->size_bytes[t->chosen]`. -/
def OptTensor.chosenBytes (t : OptTensor) : UInt64 := t.sizeBytes t.chosen

/-- The scheme the search may give a tensor next. -/
def OptTensor.downgrade (t : OptTensor) : Option OptScheme :=
  t.chosen.next.filter (roleAllows t.role)

/-- The loop for the most profitable downgrade, with `best_save` and `best_idx`. -/
def bestLoop : List OptTensor → ℕ → UInt64 → ℕ → UInt64 × ℕ
  | [], _, bestSave, bestIdx => (bestSave, bestIdx)
  | t :: ts, i, bestSave, bestIdx =>
    match t.downgrade with
    | none => bestLoop ts (i + 1) bestSave bestIdx
    | some next =>
      let save := t.sizeBytes t.chosen - t.sizeBytes next
      if bestSave < save ∨ (save = bestSave ∧ i < bestIdx) then bestLoop ts (i + 1) save i
      else bestLoop ts (i + 1) bestSave bestIdx

/-- The tensors and `plan_total`. -/
abbrev GreedyState := List OptTensor × UInt64

/-- One round of the search; `none` when the loop ends. -/
def greedyNext (budget : UInt64) (s : GreedyState) : Option GreedyState :=
  if budget < s.2 then
    let best := bestLoop s.1 0 0 s.1.length
    if best.2 = s.1.length then none
    else some (s.1.modify best.2 fun t => t.choose (t.downgrade.getD t.chosen), s.2 - best.1)
  else none

/-- The search. -/
def greedyLoop (budget : UInt64) : ℕ → GreedyState → Option GreedyState
  | 0, _ => none
  | fuel + 1, s =>
    match greedyNext budget s with
    | none => some s
    | some s => greedyLoop budget fuel s

/-- `plan_total` of the chosen schemes. -/
def planTotal (tensors : List OptTensor) : UInt64 :=
  tensors.foldl (fun total t => total + t.chosenBytes) 0

/-- `pai_opt_plan_t`. -/
structure OptPlan where
  /-- Model name. -/
  name : List UInt8
  /-- Tensors with their chosen schemes. -/
  tensors : List OptTensor
  /-- The budget, `0` for none. -/
  budget : UInt64
  /-- Stored bytes. -/
  curTotal : UInt64
  /-- Bytes of the plan. -/
  planTotal : UInt64
  /-- Bytes of the cheapest layout of the roles. -/
  minTotal : UInt64
  /-- `plan_total <= budget`. -/
  feasible : Bool

/-- The tensors as they are stored, where the search starts. -/
def startTensors (tensors : List OptTensor) : List OptTensor := tensors.map fun t => t.choose t.curScheme

/-- The tensors with their role defaults, unless they are stored more cheaply. -/
def defaultTensors (tensors : List OptTensor) : List OptTensor :=
  tensors.map fun t =>
    t.choose (if t.curScheme.code < (roleDefault t.role).code then roleDefault t.role else t.curScheme)

/-- The plan of these tensors. -/
def planOf (name : List UInt8) (tensors : List OptTensor) (budget : UInt64) (s : GreedyState)
    (feasible : Bool) : OptPlan where
  name := name
  tensors := s.1
  budget := budget
  curTotal := tensors.foldl (fun total t => total + t.curBytes) 0
  planTotal := s.2
  minTotal := tensors.foldl (fun total t => total + t.sizeBytes (roleCheapest t.role)) 0
  feasible := feasible

/-- `pai_opt_plan`; `none` when the fuel of the search runs out. -/
def paiOptPlan (fuel : ℕ) (container : PaiContainer) (ir : Option IrProgram) (budget : UInt64)
    (groupSize : UInt16) : Read PaiStatus (Option OptPlan) := do
  let (name, tensors) ← optTensors container ir groupSize
  if budget = 0 then
    let chosen := defaultTensors tensors
    .ok (some (planOf name tensors budget (chosen, planTotal chosen) true))
  else
    let start := startTensors tensors
    .ok ((greedyLoop budget fuel (start, planTotal start)).map fun s =>
      planOf name tensors budget s (s.2 ≤ budget))

end Prospero
