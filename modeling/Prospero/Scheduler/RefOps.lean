import Prospero.Lib.Bytes
import Prospero.Lib.Footprint
import Prospero.Status

/-!
# Reference kernels

The kernels of `cpu/reference/ref_ops.c` that the executor calls, as programs over the planned region.
A pointer is a byte offset into the region and an `f32` is four bytes; single and double precision are
Lean's `Float32` and `Float`.  The score buffer of the attention kernel is a local list.

Each kernel reads and writes exactly the elements its sizes promise.  The lemmas take the access
predicate as a parameter: `Covers P a n` says that `P` allows every access inside the `n` bytes from
`a` on.
-/

namespace Prospero

open ByteString Footprint

/-! ## Memory -/

/-- The buffers a session works with. -/
inductive Space where
  /-- The planned storage region. -/
  | region
  /-- The weight blob of the model. -/
  | weights
  /-- A private buffer of the running function. -/
  | scratch
deriving DecidableEq

/-- A program of the runtime; the errors are status codes. -/
abbrev Kernel := Prog Space PaiStatus

/-- `p[i]` of a `float *` into the region. -/
def loadF32 (p i : ℕ) : Kernel Float32 := do
  let bs ← loadBytes .region (p + 4 * i) 4
  pure (Float32.ofBits (UInt32.ofNat (leNat bs)))

/-- `p[i] = x` for a `float *` into the region. -/
def storeF32 (p i : ℕ) (x : Float32) : Kernel Unit :=
  storeBytes .region (p + 4 * i) (leBytes 4 x.toBits.toNat)

/-- The `memcpy` of `n` bytes inside the region. -/
def copyBytes (dst src n : ℕ) : Kernel Unit := do
  let bs ← loadBytes .region src n
  storeBytes .region dst bs

/-! ## Elementwise kernels -/

/-- The body of the kernels over one buffer. -/
def mapKernel (f : Float32 → Float32) (a c n : ℕ) : Kernel Unit :=
  forUpTo n fun i => do
    let x ← loadF32 a i
    storeF32 c i (f x)

/-- The body of the kernels over two buffers. -/
def zipKernel (f : Float32 → Float32 → Float32) (a b c n : ℕ) : Kernel Unit :=
  forUpTo n fun i => do
    let x ← loadF32 a i
    let y ← loadF32 b i
    storeF32 c i (f x y)

/-- `pai_ref_vecadd_f32`. -/
def paiRefVecaddF32 (a b c n : ℕ) : Kernel Unit := zipKernel (fun x y => x + y) a b c n

/-- `pai_ref_vecmul_f32`. -/
def paiRefVecmulF32 (a b c n : ℕ) : Kernel Unit := zipKernel (fun x y => x * y) a b c n

/-- `pai_ref_relu_f32`. -/
def paiRefReluF32 (a c n : ℕ) : Kernel Unit := mapKernel (fun x => if 0 < x then x else 0) a c n

/-- `pai_ref_silu_f32`. -/
def paiRefSiluF32 (a c n : ℕ) : Kernel Unit :=
  mapKernel (fun x => x / (1 + Float32.exp (-x))) a c n

/-! ## Row kernels -/

/-- `pai_ref_softmax_f32`. -/
def paiRefSoftmaxF32 (a c n : ℕ) : Kernel Unit :=
  if n = 0 then .fail paiErrInvalidArg
  else do
    let first ← loadF32 a 0
    let maxv ← foldFor 1 (n - 1) first fun maxv i => do
      let x ← loadF32 a i
      pure (if maxv < x then x else maxv)
    let sum ← foldFor 0 n 0 fun sum i => do
      let x ← loadF32 a i
      let e := Float32.exp (x - maxv)
      storeF32 c i e
      pure (sum + e)
    forUpTo n fun i => do
      let x ← loadF32 c i
      storeF32 c i (x / sum)

/-- The sum of squares of a row, in double precision. -/
def sumSquares (a n : ℕ) : Kernel Float :=
  foldFor 0 n 0 fun acc i => do
    let x ← loadF32 a i
    pure (acc + x.toFloat * x.toFloat)

/-- The reciprocal root mean square with the default epsilon. -/
def rmsScale (acc : Float) (n : ℕ) : Float32 :=
  1 / Float32.sqrt ((acc / Float.ofNat n).toFloat32 + 1e-5)

/-- `pai_ref_rmsnorm_f32` with the default epsilon. -/
def paiRefRmsnormF32 (a c n : ℕ) : Kernel Unit :=
  if n = 0 then .fail paiErrInvalidArg
  else do
    let acc ← sumSquares a n
    mapKernel (fun x => x * rmsScale acc n) a c n

/-- `pai_ref_rmsnorm_gamma_f32` with the default epsilon. -/
def paiRefRmsnormGammaF32 (a c n gamma : ℕ) : Kernel Unit :=
  if n = 0 then .fail paiErrInvalidArg
  else do
    let acc ← sumSquares a n
    zipKernel (fun x g => x * g * rmsScale acc n) a gamma c n

/-- `pai_ref_layernorm_f32` without gain and bias, with the default epsilon. -/
def paiRefLayernormF32 (a c n : ℕ) : Kernel Unit :=
  if n = 0 then .fail paiErrInvalidArg
  else do
    let (sum, sumsq) ← foldFor 0 n ((0, 0) : Float × Float) fun acc i => do
      let x ← loadF32 a i
      pure (acc.1 + x.toFloat, acc.2 + x.toFloat * x.toFloat)
    let mean := (sum / Float.ofNat n).toFloat32
    let var := (sumsq / Float.ofNat n - mean.toFloat * mean.toFloat).toFloat32
    mapKernel (fun x => (x - mean) * (1 / Float32.sqrt (var + 1e-5))) a c n

/-! ## Copies -/

/-- `pai_ref_concat_f32`. -/
def paiRefConcatF32 (a b c na nb : ℕ) : Kernel Unit := do
  copyBytes c a (u64 (na * 4))
  copyBytes (c + 4 * na) b (u64 (nb * 4))

/-- `pai_ref_copy_f32`. -/
def paiRefCopyF32 (a c n : ℕ) : Kernel Unit :=
  if a ≠ c ∧ n ≠ 0 then copyBytes c a (u64 (n * 4)) else pure ()

/-! ## Matrix product -/

/-- `pai_ref_gemm_f32`. -/
def paiRefGemmF32 (m n k a b c : ℕ) : Kernel Unit :=
  if m = 0 ∨ n = 0 ∨ k = 0 then .fail paiErrInvalidArg
  else
    forUpTo m fun i => forUpTo n fun j => do
      let sum ← foldFor 0 k 0 fun sum l => do
        let x ← loadF32 a (u64 (i * k + l))
        let y ← loadF32 b (u64 (l * n + j))
        pure (sum + x * y)
      storeF32 c (u64 (i * n + j)) sum

/-! ## Rotary embeddings -/

/-- One row of `pai_ref_rope_f32`: `xr` and `orow` are the row pointers, `p` the position. -/
def ropeRow (xr orow hd p cosT sinT r2 : ℕ) : Kernel Unit := do
  forUpTo r2 fun i => do
    let c ← loadF32 cosT (u64 (p * r2 + i))
    let s ← loadF32 sinT (u64 (p * r2 + i))
    let x0 ← loadF32 xr i
    let x1 ← loadF32 xr (i + r2)
    storeF32 orow i (x0 * c - x1 * s)
    storeF32 orow (i + r2) (x0 * s + x1 * c)
  foldFor (u64 (2 * r2)) (hd - u64 (2 * r2)) () fun _ i => do
    let x ← loadF32 xr i
    storeF32 orow i x

/-- `pai_ref_rope_f32`. -/
def paiRefRopeF32 (x rows hd seq heads cosT sinT r2 out : ℕ) : Kernel Unit :=
  if rows = 0 ∨ hd = 0 ∨ seq = 0 ∨ heads = 0 ∨ r2 = 0 ∨ hd < u64 (2 * r2) ∨ rows % heads ≠ 0 then
    .fail paiErrInvalidArg
  else
    forUpTo rows fun row =>
      ropeRow (x + 4 * u64 (row * hd)) (out + 4 * u64 (row * hd)) hd (row / heads) cosT sinT r2

/-! ## Attention -/

/-- The softmax of a row of scores. -/
def softmaxScores (scores : List Float32) : List Float32 :=
  let maxv := scores.tail.foldl (fun maxv s => if maxv < s then s else maxv) (scores.headD 0)
  let es := scores.map fun s => Float32.exp (s - maxv)
  let sum := es.foldl (fun sum e => sum + e) 0
  es.map fun e => e / sum

/-- One head at one position of `pai_ref_attention_f32`. -/
def attentionHead (hk hd p kvh qp kbase vbase op : ℕ) (invScale : Float32) : Kernel Unit := do
  let scores ← foldFor 0 (p + 1) ([] : List Float32) fun scores i => do
    let dot ← foldFor 0 hd 0 fun dot d => do
      let x ← loadF32 qp d
      let y ← loadF32 (kbase + 4 * u64 ((i * hk + kvh) * hd)) d
      pure (dot + x * y)
    pure (scores ++ [dot * invScale])
  let weights := softmaxScores scores
  forUpTo hd fun d => do
    let acc ← foldFor 0 (p + 1) 0 fun acc i => do
      let x ← loadF32 vbase (u64 ((i * hk + kvh) * hd + d))
      pure (acc + weights.getD i 0 * x)
    storeF32 op d acc

/-- `pai_ref_attention_f32`; `malloc n` says that an allocation of `n` bytes succeeds. -/
def paiRefAttentionF32 (malloc : ℕ → Bool) (h hk seq hd q k v out : ℕ) : Kernel Unit :=
  if h = 0 ∨ hk = 0 ∨ seq = 0 ∨ hd = 0 ∨ h % hk ≠ 0 then .fail paiErrInvalidArg
  else if malloc (u64 (seq * 4)) = false then .fail paiErrNomem
  else
    let invScale := 1 / Float32.sqrt (Float32.ofNat hd)
    forUpTo seq fun p => forUpTo h fun hh =>
      attentionHead hk hd p (u64 (hh * hk) / h) (q + 4 * u64 ((p * h + hh) * hd)) k v
        (out + 4 * u64 ((p * h + hh) * hd)) invScale

/-! ## Footprints -/

/-- `P` allows every access of the kind inside the `n` bytes of the region from `p` on. -/
def Covers (P : Access Space → Prop) (p n : ℕ) (isStore : Bool) : Prop :=
  ∀ off len, off + len ≤ n → P ⟨.region, p + off, len, isStore⟩

lemma Covers.shift {P : Access Space → Prop} {p n : ℕ} {isStore : Bool} (h : Covers P p n isStore)
    {off len : ℕ} (hle : off + len ≤ n) : Covers P (p + off) len isStore := by
  intro off' len' hle'
  rw [Nat.add_assoc]
  exact h (off + off') len' (by omega)

lemma Covers.mono {P : Access Space → Prop} {p n : ℕ} {isStore : Bool} (h : Covers P p n isStore)
    {len : ℕ} (hle : len ≤ n) : Covers P p len isStore :=
  fun off' len' hle' => h off' len' (by omega)

/-- A row-major index is below the number of elements. -/
lemma rowIndex_lt {i m j n : ℕ} (hi : i < m) (hj : j < n) : i * n + j < m * n := by
  calc i * n + j < i * n + n := by omega
    _ = (i + 1) * n := by rw [Nat.add_mul, Nat.one_mul]
    _ ≤ m * n := Nat.mul_le_mul_right n hi

section Footprints

variable {P : Access Space → Prop} {F : PaiStatus → Prop}

lemma spec_loadF32 {p i n : ℕ} (h : Covers P p n false) (hi : 4 * i + 4 ≤ n) :
    (loadF32 p i).Spec P F fun _ => True :=
  Prog.Spec.bind (spec_loadBytes (h (4 * i) 4 hi)) fun _ _ => trivial

lemma spec_storeF32 {p i n : ℕ} {x : Float32} (h : Covers P p n true) (hi : 4 * i + 4 ≤ n) :
    (storeF32 p i x).Spec P F fun _ => True := by
  apply spec_storeBytes
  rw [length_leBytes]
  exact h (4 * i) 4 hi

lemma spec_copyBytes {dst src n : ℕ} (hsrc : Covers P src n false) (hdst : Covers P dst n true) :
    (copyBytes dst src n).Spec P F fun _ => True := by
  refine Prog.Spec.bind (spec_loadBytes (hsrc 0 n (by omega))) fun bs hbs => ?_
  apply spec_storeBytes
  rw [hbs]
  exact hdst 0 n (by omega)

lemma spec_mapKernel {f : Float32 → Float32} {a c n : ℕ} (ha : Covers P a (4 * n) false)
    (hc : Covers P c (4 * n) true) : (mapKernel f a c n).Spec P F fun _ => True := by
  refine spec_forUpTo fun i hi => ?_
  refine Prog.Spec.bind (spec_loadF32 ha (by omega)) fun x _ => ?_
  exact spec_storeF32 hc (by omega)

lemma spec_zipKernel {f : Float32 → Float32 → Float32} {a b c n : ℕ} (ha : Covers P a (4 * n) false)
    (hb : Covers P b (4 * n) false) (hc : Covers P c (4 * n) true) :
    (zipKernel f a b c n).Spec P F fun _ => True := by
  refine spec_forUpTo fun i hi => ?_
  refine Prog.Spec.bind (spec_loadF32 ha (by omega)) fun x _ => ?_
  refine Prog.Spec.bind (spec_loadF32 hb (by omega)) fun y _ => ?_
  exact spec_storeF32 hc (by omega)

/-- The softmax kernel also reads back what it wrote. -/
lemma spec_paiRefSoftmaxF32 {a c n : ℕ} (hn : n ≠ 0) (ha : Covers P a (4 * n) false)
    (hc : Covers P c (4 * n) true) (hback : Covers P c (4 * n) false) :
    (paiRefSoftmaxF32 a c n).Spec P F fun _ => True := by
  rw [paiRefSoftmaxF32, if_neg hn]
  refine Prog.Spec.bind (spec_loadF32 ha (by omega)) fun first _ => ?_
  refine Prog.Spec.bind (R := fun _ => True) ?_ fun maxv _ => ?_
  · refine spec_foldFor trivial fun maxv i _ _ hi => ?_
    exact Prog.Spec.bind (spec_loadF32 ha (by omega)) fun x _ => trivial
  refine Prog.Spec.bind (R := fun _ => True) ?_ fun sum _ => ?_
  · refine spec_foldFor trivial fun sum i _ _ hi => ?_
    refine Prog.Spec.bind (spec_loadF32 ha (by omega)) fun x _ => ?_
    exact Prog.Spec.bind (spec_storeF32 hc (by omega)) fun _ _ => trivial
  refine spec_forUpTo fun i hi => ?_
  refine Prog.Spec.bind (spec_loadF32 hback (by omega)) fun x _ => ?_
  exact spec_storeF32 hc (by omega)

lemma spec_sumSquares {a n : ℕ} (ha : Covers P a (4 * n) false) :
    (sumSquares a n).Spec P F fun _ => True := by
  refine spec_foldFor trivial fun acc i _ _ hi => ?_
  exact Prog.Spec.bind (spec_loadF32 ha (by omega)) fun x _ => trivial

lemma spec_paiRefRmsnormF32 {a c n : ℕ} (hn : n ≠ 0) (ha : Covers P a (4 * n) false)
    (hc : Covers P c (4 * n) true) : (paiRefRmsnormF32 a c n).Spec P F fun _ => True := by
  rw [paiRefRmsnormF32, if_neg hn]
  exact Prog.Spec.bind (spec_sumSquares ha) fun acc _ => spec_mapKernel ha hc

lemma spec_paiRefRmsnormGammaF32 {a c n gamma : ℕ} (hn : n ≠ 0) (ha : Covers P a (4 * n) false)
    (hc : Covers P c (4 * n) true) (hg : Covers P gamma (4 * n) false) :
    (paiRefRmsnormGammaF32 a c n gamma).Spec P F fun _ => True := by
  rw [paiRefRmsnormGammaF32, if_neg hn]
  exact Prog.Spec.bind (spec_sumSquares ha) fun acc _ => spec_zipKernel ha hg hc

lemma spec_paiRefLayernormF32 {a c n : ℕ} (hn : n ≠ 0) (ha : Covers P a (4 * n) false)
    (hc : Covers P c (4 * n) true) : (paiRefLayernormF32 a c n).Spec P F fun _ => True := by
  rw [paiRefLayernormF32, if_neg hn]
  refine Prog.Spec.bind (R := fun _ => True) ?_ fun acc _ => spec_mapKernel ha hc
  refine spec_foldFor trivial fun acc i _ _ hi => ?_
  exact Prog.Spec.bind (spec_loadF32 ha (by omega)) fun x _ => trivial

lemma spec_paiRefConcatF32 {a b c na nb : ℕ} (ha : Covers P a (4 * na) false)
    (hb : Covers P b (4 * nb) false) (hc : Covers P c (4 * (na + nb)) true) :
    (paiRefConcatF32 a b c na nb).Spec P F fun _ => True := by
  have hna := u64_le (na * 4)
  have hnb := u64_le (nb * 4)
  refine Prog.Spec.bind (spec_copyBytes ?_ ?_) fun _ _ => spec_copyBytes ?_ ?_
  · exact ha.mono (by omega)
  · exact hc.mono (by omega)
  · exact hb.mono (by omega)
  · exact hc.shift (by omega)

lemma spec_paiRefCopyF32 {a c n : ℕ} (ha : Covers P a (4 * n) false)
    (hc : a ≠ c → Covers P c (4 * n) true) : (paiRefCopyF32 a c n).Spec P F fun _ => True := by
  have hn := u64_le (n * 4)
  unfold paiRefCopyF32
  split_ifs with hne
  · exact spec_copyBytes (ha.mono (by omega)) ((hc hne.1).mono (by omega))
  · exact trivial

lemma spec_paiRefGemmF32 {m n k a b c : ℕ} (hm : m ≠ 0) (hn : n ≠ 0) (hk : k ≠ 0)
    (ha : Covers P a (4 * (m * k)) false) (hb : Covers P b (4 * (k * n)) false)
    (hc : Covers P c (4 * (m * n)) true) : (paiRefGemmF32 m n k a b c).Spec P F fun _ => True := by
  rw [paiRefGemmF32, if_neg (by tauto)]
  refine spec_forUpTo fun i hi => spec_forUpTo fun j hj => ?_
  refine Prog.Spec.bind (R := fun _ => True) ?_ fun sum _ => ?_
  · refine spec_foldFor trivial fun sum l _ _ hl => ?_
    have hx := rowIndex_lt hi (show l < k by omega)
    have hy := rowIndex_lt (show l < k by omega) hj
    have hxw := u64_le (i * k + l)
    have hyw := u64_le (l * n + j)
    refine Prog.Spec.bind (spec_loadF32 ha (by omega)) fun x _ => ?_
    exact Prog.Spec.bind (spec_loadF32 hb (by omega)) fun y _ => trivial
  · have hz := rowIndex_lt hi hj
    have hzw := u64_le (i * n + j)
    exact spec_storeF32 hc (by omega)

/-- A row of the rotary kernel stays inside its row and inside the row of its position in the
tables. -/
lemma spec_ropeRow {xr orow hd p cosT sinT r2 ctx : ℕ} (hr2 : 2 * r2 ≤ hd) (hp : p < ctx)
    (hx : Covers P xr (4 * hd) false) (ho : Covers P orow (4 * hd) true)
    (hcos : Covers P cosT (4 * (ctx * r2)) false) (hsin : Covers P sinT (4 * (ctx * r2)) false) :
    (ropeRow xr orow hd p cosT sinT r2).Spec P F fun _ => True := by
  refine Prog.Spec.bind (spec_forUpTo fun i hi => ?_) fun _ _ => ?_
  · have ht := rowIndex_lt hp hi
    have htw := u64_le (p * r2 + i)
    refine Prog.Spec.bind (spec_loadF32 hcos (by omega)) fun c _ => ?_
    refine Prog.Spec.bind (spec_loadF32 hsin (by omega)) fun s _ => ?_
    refine Prog.Spec.bind (spec_loadF32 hx (by omega)) fun x0 _ => ?_
    refine Prog.Spec.bind (spec_loadF32 hx (by omega)) fun x1 _ => ?_
    refine Prog.Spec.bind (spec_storeF32 ho (by omega)) fun _ _ => ?_
    exact spec_storeF32 ho (by omega)
  · have hw := u64_le (2 * r2)
    refine spec_foldFor trivial fun _ i _ hlo hi => ?_
    refine Prog.Spec.bind (spec_loadF32 hx (by omega)) fun x _ => ?_
    exact spec_storeF32 ho (by omega)

/-- The rotary kernel over `seq` positions of `heads` rows. -/
lemma spec_paiRefRopeF32 {x hd seq heads cosT sinT r2 out ctx : ℕ} (hhd : hd ≠ 0) (hseq : seq ≠ 0)
    (hheads : heads ≠ 0) (hr2 : r2 ≠ 0) (hle : 2 * r2 ≤ hd) (hctx : seq ≤ ctx)
    (hx : Covers P x (4 * (seq * heads * hd)) false)
    (ho : Covers P out (4 * (seq * heads * hd)) true)
    (hcos : Covers P cosT (4 * (ctx * r2)) false) (hsin : Covers P sinT (4 * (ctx * r2)) false) :
    (paiRefRopeF32 x (seq * heads) hd seq heads cosT sinT r2 out).Spec P F fun _ => True := by
  have hrows : seq * heads ≠ 0 := Nat.mul_ne_zero hseq hheads
  have hmod : seq * heads % heads = 0 := Nat.mul_mod_left seq heads
  have hw := u64_le (2 * r2)
  have hgood : ¬ (seq * heads = 0 ∨ hd = 0 ∨ seq = 0 ∨ heads = 0 ∨ r2 = 0 ∨ hd < u64 (2 * r2) ∨
      seq * heads % heads ≠ 0) := by
    simp only [not_or, not_lt, not_not]
    exact ⟨hrows, hhd, hseq, hheads, hr2, by omega, hmod⟩
  rw [paiRefRopeF32, if_neg hgood]
  refine spec_forUpTo fun row hrow => ?_
  have hpos : row / heads < seq := Nat.div_lt_of_lt_mul (by rw [Nat.mul_comm]; exact hrow)
  have hend : row * hd + hd ≤ seq * heads * hd := by
    calc row * hd + hd = (row + 1) * hd := by rw [Nat.add_mul, Nat.one_mul]
      _ ≤ seq * heads * hd := Nat.mul_le_mul_right hd hrow
  have hroww := u64_le (row * hd)
  exact spec_ropeRow hle (by omega) (hx.shift (by omega)) (ho.shift (by omega)) hcos hsin

/-- One head at position `p` reads positions `0 .. p` of the key and value heads it shares. -/
lemma spec_attentionHead {hk hd p kvh qp kbase vbase op seq : ℕ} {invScale : Float32}
    (hp : p < seq) (hkvh : kvh < hk) (hq : Covers P qp (4 * hd) false)
    (hkey : Covers P kbase (4 * (seq * hk * hd)) false)
    (hval : Covers P vbase (4 * (seq * hk * hd)) false) (hout : Covers P op (4 * hd) true) :
    (attentionHead hk hd p kvh qp kbase vbase op invScale).Spec P F fun _ => True := by
  have hrow : ∀ i, i < p + 1 → (i * hk + kvh) * hd + hd ≤ seq * hk * hd := by
    intro i hi
    calc (i * hk + kvh) * hd + hd = (i * hk + kvh + 1) * hd := by rw [Nat.add_mul _ 1, Nat.one_mul]
      _ ≤ seq * hk * hd := Nat.mul_le_mul_right hd (rowIndex_lt (by omega) hkvh)
  refine Prog.Spec.bind (R := fun _ => True) ?_ fun scores _ => ?_
  · refine spec_foldFor trivial fun scores i _ _ hi => ?_
    refine Prog.Spec.bind (R := fun _ => True) ?_ fun dot _ => trivial
    refine spec_foldFor trivial fun dot d _ _ hd' => ?_
    have hend := hrow i (by omega)
    have hw := u64_le ((i * hk + kvh) * hd)
    have hrowKey : Covers P (kbase + 4 * u64 ((i * hk + kvh) * hd)) (4 * hd) false :=
      hkey.shift (by omega)
    refine Prog.Spec.bind (spec_loadF32 hq (by omega)) fun x _ => ?_
    exact Prog.Spec.bind (spec_loadF32 hrowKey (by omega)) fun y _ => trivial
  · refine spec_forUpTo fun d hd' => ?_
    refine Prog.Spec.bind (R := fun _ => True) ?_ fun acc _ => spec_storeF32 hout (by omega)
    refine spec_foldFor trivial fun acc i _ _ hi => ?_
    have hend := hrow i (by omega)
    have hw := u64_le ((i * hk + kvh) * hd + d)
    exact Prog.Spec.bind (spec_loadF32 hval (by omega)) fun x _ => trivial

/-- The attention kernel; the index of the shared head is below `hk` also where `hh * hk` wraps. -/
lemma spec_paiRefAttentionF32 {malloc : ℕ → Bool} {h hk seq hd q k v out : ℕ} (hh0 : h ≠ 0)
    (hk0 : hk ≠ 0) (hseq : seq ≠ 0) (hhd : hd ≠ 0) (hmod : h % hk = 0)
    (hmalloc : malloc (u64 (seq * 4)) = true) (hq : Covers P q (4 * (seq * h * hd)) false)
    (hkey : Covers P k (4 * (seq * hk * hd)) false) (hval : Covers P v (4 * (seq * hk * hd)) false)
    (hout : Covers P out (4 * (seq * h * hd)) true) :
    (paiRefAttentionF32 malloc h hk seq hd q k v out).Spec P F fun _ => True := by
  rw [paiRefAttentionF32, if_neg (by omega), if_neg (by rw [hmalloc]; decide)]
  refine spec_forUpTo fun p hp => spec_forUpTo fun hh hhh => ?_
  have hkvh : u64 (hh * hk) / h < hk := by
    apply Nat.div_lt_of_lt_mul
    have hlt := Nat.mul_lt_mul_of_pos_right hhh (Nat.pos_of_ne_zero hk0)
    have hw := u64_le (hh * hk)
    omega
  have hend : (p * h + hh) * hd + hd ≤ seq * h * hd := by
    calc (p * h + hh) * hd + hd = (p * h + hh + 1) * hd := by rw [Nat.add_mul _ 1, Nat.one_mul]
      _ ≤ seq * h * hd := Nat.mul_le_mul_right hd (rowIndex_lt hp hhh)
  have hw := u64_le ((p * h + hh) * hd)
  exact spec_attentionHead hp hkvh (hq.shift (by omega)) hkey hval (hout.shift (by omega))

end Footprints

end Prospero
