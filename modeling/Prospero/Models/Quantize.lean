import Prospero.Scheduler.RefOps

/-!
# Quantized weights

`models/quantize.c`: signed symmetric schemes of four and eight bits with one scale per group.  The
packed blob of a tensor is its quantized values followed by the scales.

The dequantizer reads exactly the packed blob and writes exactly the elements
(`spec_paiDequantizeF32`, `paiDequantizeF32_reads_end`).
-/

namespace Prospero

open ByteString Footprint

/-- `pai_quant_scheme_t`. -/
structure QuantScheme where
  /-- Storage bits per element. -/
  bitWidth : UInt8
  /-- Signed storage. -/
  isSigned : UInt8
  /-- Elements per group; `0` for one group. -/
  groupSize : UInt16

/-- `quant_group_size`. -/
def quantGroupSize (scheme : QuantScheme) (n : ℕ) : Except PaiStatus ℕ :=
  if scheme.bitWidth ≠ 8 ∧ scheme.bitWidth ≠ 4 then .error paiErrUnsupported
  else if scheme.isSigned = 0 then .error paiErrUnsupported
  else
    let gs := if scheme.groupSize = 0 then n else scheme.groupSize.toNat
    if gs = 0 then .error paiErrInvalidArg else .ok gs

/-- `n / gs`, rounded up. -/
def groupCount (n gs : ℕ) : ℕ := n / gs + if n % gs ≠ 0 then 1 else 0

/-- `pai_quant_num_groups`. -/
def paiQuantNumGroups (n : ℕ) (scheme : QuantScheme) : ℕ :=
  if n = 0 then 0
  else
    match quantGroupSize scheme n with
    | .ok gs => groupCount n gs
    | .error _ => 0

/-- `pai_quant_value_bytes`. -/
def paiQuantValueBytes (n : ℕ) (scheme : QuantScheme) : ℕ :=
  if n = 0 then 0 else if scheme.bitWidth = 4 then u64 (n + 1) / 2 else n

/-- `pai_quant_scale_bytes`. -/
def paiQuantScaleBytes (n : ℕ) (scheme : QuantScheme) : ℕ := u64 (paiQuantNumGroups n scheme * 4)

/-- The signed value of element `i` of the packed blob at `q`. -/
def loadQuant (scheme : QuantScheme) (q i : ℕ) : Kernel ℤ := do
  if scheme.bitWidth = 4 then
    let bs ← loadBytes .weights (q + i / 2) 1
    let byte := leNat bs
    let nib := if i % 2 = 0 then byte % 16 else byte / 16 % 16
    pure (if 8 ≤ nib then (nib : ℤ) - 16 else nib)
  else
    let bs ← loadBytes .weights (q + i) 1
    let byte := leNat bs
    pure (if 128 ≤ byte then (byte : ℤ) - 256 else byte)

/-- One round of the dequantizer: group `g` of `gs` elements. -/
def dequantGroup (q scales n : ℕ) (scheme : QuantScheme) (dst : Space) (out gs g : ℕ) :
    Kernel Unit := do
  let bs ← loadBytes .weights (scales + 4 * g) 4
  let scale := Float32.ofBits (UInt32.ofNat (leNat bs))
  foldFor (g * gs) (min (g * gs + gs) n - g * gs) () fun _ i => do
    let qv ← loadQuant scheme q i
    storeBytes dst (out + 4 * i) (leBytes 4 (scale * Float32.ofInt qv).toBits.toNat)

/-- `pai_dequantize_f32`, from the weights at `q` and `scales` to the buffer `dst` at `out`. -/
def paiDequantizeF32 (q scales n : ℕ) (scheme : QuantScheme) (dst : Space) (out : ℕ) : Kernel Unit :=
  match quantGroupSize scheme n with
  | .error e => .fail e
  | .ok gs => forUpTo (groupCount n gs) (dequantGroup q scales n scheme dst out gs)

/-! ## Quantizing -/

/-- `lrintf`: the nearest integer, ties to even. -/
def lrintf (x : Float32) : ℤ :=
  let down := x.floor
  let i := down.toInt32.toInt
  if x - down < 0.5 then i else if 0.5 < x - down then i + 1 else if i % 2 = 0 then i else i + 1

/-- The largest magnitude of a group. -/
def maxAbs (xs : List Float32) : Float32 :=
  xs.foldl (fun m x => if m < x.abs then x.abs else m) 0

/-- The scale of a group, and its quantized values. -/
def quantGroup (qmax : ℤ) (xs : List Float32) : Float32 × List ℤ :=
  let m := maxAbs xs
  let scale := if 0 < m then m / Float32.ofInt qmax else 0
  (scale, xs.map fun x => if 0 < scale then max (min (lrintf (x / scale)) qmax) (-qmax) else 0)

/-- The group loop. -/
def quantGroups (qmax : ℤ) (gs : ℕ) : ℕ → List Float32 → List (Float32 × List ℤ)
  | 0, _ => []
  | k + 1, xs => quantGroup qmax (xs.take gs) :: quantGroups qmax gs k (xs.drop gs)

/-- Two values per byte, the first one in the low nibble. -/
def packNibbles : List ℤ → List UInt8
  | [] => []
  | [a] => [UInt8.ofNat (a % 16).toNat]
  | a :: b :: rest => UInt8.ofNat ((a % 16).toNat + 16 * (b % 16).toNat) :: packNibbles rest

/-- `pai_quantize_f32`: the packed values and the scales. -/
def paiQuantizeF32 (data : List UInt32) (scheme : QuantScheme) :
    Except PaiStatus (List UInt8 × List UInt8) :=
  match quantGroupSize scheme data.length with
  | .error e => .error e
  | .ok gs =>
    let groups := quantGroups (if scheme.bitWidth = 8 then 127 else 7) gs (groupCount data.length gs)
      (data.map Float32.ofBits)
    let values := groups.flatMap Prod.snd
    .ok (if scheme.bitWidth = 4 then packNibbles values
      else values.map fun q => UInt8.ofNat (q % 256).toNat,
      groups.flatMap fun g => u32le g.1.toBits)

/-! ## Sizes -/

lemma quantGroupSize_ok {scheme : QuantScheme} {n gs : ℕ} (h : quantGroupSize scheme n = .ok gs) :
    gs ≠ 0 ∧ (scheme.bitWidth = 8 ∨ scheme.bitWidth = 4) := by
  unfold quantGroupSize at h
  generalize (if scheme.groupSize = 0 then n else scheme.groupSize.toNat) = size at h
  split_ifs at h with hbits hsigned
  simp only at h
  split_ifs at h with hz
  cases h
  exact ⟨hz, by tauto⟩

/-- A group before the last one starts below `n`. -/
lemma group_start_lt {g n gs : ℕ} (hgs : gs ≠ 0) (hg : g < groupCount n gs) : g * gs < n := by
  unfold groupCount at hg
  have hdiv := Nat.div_add_mod n gs
  rw [Nat.mul_comm] at hdiv
  rcases Nat.lt_or_ge g (n / gs) with hlt | hge
  · have hmul := Nat.mul_lt_mul_of_pos_right hlt (Nat.pos_of_ne_zero hgs)
    omega
  · split_ifs at hg with hmod
    · obtain rfl : g = n / gs := by omega
      omega
    · omega

lemma groupCount_pos {n : ℕ} (gs : ℕ) (hn : n ≠ 0) : groupCount n gs ≠ 0 := by
  intro hz
  obtain ⟨hzero, hmod⟩ := Nat.add_eq_zero_iff.mp hz
  have hdiv := Nat.div_add_mod n gs
  rw [hzero, Nat.mul_zero] at hdiv
  split_ifs at hmod
  omega

/-- There are at most as many groups as elements. -/
lemma groupCount_le {n gs : ℕ} (hgs : gs ≠ 0) : groupCount n gs ≤ n := by
  by_contra hlt
  have hstart := group_start_lt hgs (show n < groupCount n gs by omega)
  have hmul : n ≤ n * gs := Nat.le_mul_of_pos_right n (Nat.pos_of_ne_zero hgs)
  omega

/-- The scales of a group size in use take four bytes a group. -/
lemma scaleBytes_eq {scheme : QuantScheme} {n gs : ℕ} (hn : n ≠ 0) (hlt : 4 * n < 2 ^ 64)
    (h : quantGroupSize scheme n = .ok gs) : paiQuantScaleBytes n scheme = 4 * groupCount n gs := by
  have hle : groupCount n gs ≤ n := groupCount_le (quantGroupSize_ok h).1
  rw [paiQuantScaleBytes, paiQuantNumGroups, if_neg hn, h]
  simp only
  rw [u64_of_lt (by omega)]
  omega

/-- The byte of element `i` is one of the packed values. -/
lemma quantByte_lt (scheme : QuantScheme) {n i : ℕ} (hlt : 4 * n < 2 ^ 64) (hi : i < n) :
    (if scheme.bitWidth = 4 then i / 2 else i) < paiQuantValueBytes n scheme := by
  unfold paiQuantValueBytes
  rw [if_neg (show n ≠ 0 by omega)]
  split_ifs
  · rw [u64_of_lt (by omega)]
    omega
  · exact hi

/-! ## Footprint -/

section Footprints

variable {P : Access Space → Prop} {F : PaiStatus → Prop}

lemma spec_loadQuant {scheme : QuantScheme} {q i : ℕ}
    (h : P ⟨.weights, q + (if scheme.bitWidth = 4 then i / 2 else i), 1, false⟩) :
    (loadQuant scheme q i).Spec P F fun _ => True := by
  unfold loadQuant
  by_cases hbits : scheme.bitWidth = 4
  · rw [if_pos hbits] at h ⊢
    exact Prog.Spec.bind (spec_loadBytes h) fun _ _ => trivial
  · rw [if_neg hbits] at h ⊢
    exact Prog.Spec.bind (spec_loadBytes h) fun _ _ => trivial

/-- The dequantizer reads the packed values and the scales, and writes the elements. -/
lemma spec_paiDequantizeF32 {q scales n gs : ℕ} {scheme : QuantScheme} {dst : Space} {out : ℕ}
    (hlt : 4 * n < 2 ^ 64) (hgs : quantGroupSize scheme n = .ok gs)
    (hq : ∀ off len, off + len ≤ paiQuantValueBytes n scheme → P ⟨.weights, q + off, len, false⟩)
    (hs : ∀ off len, off + len ≤ 4 * groupCount n gs → P ⟨.weights, scales + off, len, false⟩)
    (hout : ∀ off len, off + len ≤ 4 * n → P ⟨dst, out + off, len, true⟩) :
    (paiDequantizeF32 q scales n scheme dst out).Spec P F fun _ => True := by
  rw [paiDequantizeF32, hgs]
  refine spec_forUpTo fun g hg => ?_
  refine Prog.Spec.bind (spec_loadBytes (hs (4 * g) 4 (by omega))) fun bs _ => ?_
  refine spec_foldFor trivial fun _ i _ hlo hi => ?_
  have hin : i < n := by omega
  have hbyte := quantByte_lt scheme hlt hin
  refine Prog.Spec.bind (spec_loadQuant (hq _ 1 (by omega))) fun qv _ => ?_
  apply spec_storeBytes
  rw [length_leBytes]
  exact hout (4 * i) 4 (by omega)

/-- The dequantizer reads the last scale. -/
lemma paiDequantizeF32_reads_end {q scales n gs : ℕ} {scheme : QuantScheme} {dst : Space} {out : ℕ}
    (hn : n ≠ 0) (hgs : quantGroupSize scheme n = .ok gs) (mem : Memory Space) :
    ⟨.weights, scales + 4 * (groupCount n gs - 1), 4, false⟩ ∈
      (paiDequantizeF32 q scales n scheme dst out).trace mem := by
  rw [paiDequantizeF32, hgs]
  have hpos := groupCount_pos gs hn
  have hok : ∀ g, (dequantGroup q scales n scheme dst out gs g).Spec (fun _ => True)
      (fun _ => False) fun _ => True := by
    intro g
    refine Prog.Spec.bind (spec_loadBytes trivial) fun bs _ => ?_
    refine spec_foldFor trivial fun _ i _ _ _ => ?_
    exact Prog.Spec.bind (spec_loadQuant trivial) fun qv _ => spec_storeBytes trivial
  obtain ⟨mem', hmem⟩ := exists_round_forUpTo (dequantGroup q scales n scheme dst out gs) hok
    (show groupCount n gs - 1 < groupCount n gs by omega) mem
  exact hmem _ List.mem_cons_self

end Footprints

end Prospero
