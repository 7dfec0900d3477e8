import Mathlib.Algebra.Order.Ring.Rat
import Mathlib.Algebra.Field.Rat
import Prospero.Cpu.OptLoops

/-!
# Both backends compute the same

In exact arithmetic the reference and every tier of the optimised backend compute what a call means, and
their loads and stores, vector accesses included, stay inside the operands of the call.

### Outline

* `CpuOp.operands`, `CpuOp.Inside` : where the accesses of a call may go.
* `CpuOp.ComputedBy` : some code has the outcome that the call means, inside its operands.
* `CpuOp.ref_computedBy`, `CpuOp.opt_computedBy` : the code of both backends does.
-/

namespace Prospero.Exact

open Arrays

variable {R : Type}

/-! ## Operands -/

/-- An operand of a call: an array, its number of elements, and whether it is an output. -/
structure Operand where
  /-- The array. -/
  buf : Buf
  /-- The number of elements. -/
  len : ℕ
  /-- An output. -/
  isOutput : Bool

/-- The operands of a call. -/
def CpuOp.operands : CpuOp R → List Operand
  | .vecadd a b c n => [⟨.f32 a, n, false⟩, ⟨.f32 b, n, false⟩, ⟨.f32 c, n, true⟩]
  | .vecmul a b c n => [⟨.f32 a, n, false⟩, ⟨.f32 b, n, false⟩, ⟨.f32 c, n, true⟩]
  | .scale a _ n => [⟨.f32 a, n, true⟩]
  | .relu a c n => [⟨.f32 a, n, false⟩, ⟨.f32 c, n, true⟩]
  | .softmax a c n => [⟨.f32 a, n, false⟩, ⟨.f32 c, n, true⟩]
  | .gemm m n k a b c => [⟨.f32 a, m * k, false⟩, ⟨.f32 b, k * n, false⟩, ⟨.f32 c, m * n, true⟩]
  | .gemv m k a x y => [⟨.f32 a, m * k, false⟩, ⟨.f32 x, k, false⟩, ⟨.f32 y, m, true⟩]
  | .gemmW8 m n k a wQ bScales groupSize c =>
    [⟨.f32 a, m * k, false⟩, ⟨.i8 wQ, k * n, false⟩,
      ⟨.f32 bScales, (k + groupSizeFor groupSize k - 1) / groupSizeFor groupSize k * n, false⟩,
      ⟨.f32 c, m * n, true⟩]

/-- The pointer to the array is `NULL`. -/
def Buf.IsNull : Buf → Prop
  | .f32 p => p = none
  | .i8 p => p = none

/-- The access is inside an operand of the call, and stores are to an output. -/
def CpuOp.Inside (op : CpuOp R) (acc : Access Buf) : Prop :=
  ¬ acc.array.IsNull ∧ ∃ o ∈ op.operands, acc.array = o.buf ∧ acc.first + acc.count ≤ o.len ∧
    (acc.isStore = true → o.isOutput = true)

/-- The output of a matrix product is not one of its inputs. -/
def CpuOp.Separate : CpuOp R → Prop
  | .gemm _ _ _ a b c => c = none ∨ a ≠ c ∧ b ≠ c
  | .gemv _ _ a x y => y = none ∨ a ≠ y ∧ x ≠ y
  | .gemmW8 _ _ _ a _ bScales _ c => c = none ∨ a ≠ c ∧ bScales ≠ c
  | _ => True

lemma CpuOp.reads {op : CpuOp R} {o : Operand} (ho : o ∈ op.operands) (hnull : o.len ≠ 0 → ¬ o.buf.IsNull) :
    Reads op.Inside o.buf o.len := by
  intro i count hcount hi
  exact ⟨hnull (by omega), o, ho, rfl, hi, fun h => Bool.noConfusion h⟩

lemma CpuOp.writes {op : CpuOp R} {o : Operand} (ho : o ∈ op.operands) (hnull : o.len ≠ 0 → ¬ o.buf.IsNull)
    (hout : o.isOutput = true) : Writes op.Inside o.buf o.len := by
  intro i count hcount hi
  exact ⟨hnull (by omega), o, ho, rfl, hi, fun _ => hout⟩

/-! ## Calls -/

section Calls

variable [Field R] [LinearOrder R] (expf : WithTop R → R) (s : Memory R)

/-- Running `m` for the call has the outcome that the call means, with accesses inside its operands. -/
def CpuOp.ComputedBy (op : CpuOp R) (m : Kernel R PaiStatus) : Prop :=
  m.Spec op.Inside s fun status s' => (status, s') = op.meaning expf s

variable {expf s} {P : Access Buf → Prop} {a b c x y wQ bScales : Ptr} {m n k : ℕ}

omit [Field R] [LinearOrder R] in
/-- A body that leaves the memory `t`, behind the check of the arguments. -/
lemma spec_checked {bad : Prop} [Decidable bad] {m : Kernel R PaiStatus} {t : Memory R}
    (h : ¬ bad → m.Spec P s fun status s' => (status, s') = (paiOk, t)) :
    Prog.Spec P (if bad then pure paiErrInvalidArg else m) s fun status s' =>
      (status, s') = if bad then (paiErrInvalidArg, s) else (paiOk, t) := by
  split_ifs with hbad
  · exact spec_pure rfl
  · exact h hbad

omit [Field R] [LinearOrder R] in
lemma spec_ok {body : Kernel R Unit} {t : Memory R} (h : body.Spec P s fun _ s' => s' = t) :
    Prog.Spec P (do
      body
      pure paiOk) s fun status s' => (status, s') = (paiOk, t) := by
  refine Prog.Spec.bind h ?_
  rintro _ _ rfl
  exact spec_pure rfl

lemma computedBy_dispatch {op : CpuOp R} {avx2 sse2 portable : Kernel R PaiStatus} (features : UInt32)
    (havx2 : op.ComputedBy expf s avx2) (hsse2 : op.ComputedBy expf s sse2)
    (hportable : op.ComputedBy expf s portable) :
    op.ComputedBy expf s (dispatch features avx2 sse2 portable) := by
  unfold dispatch
  split_ifs
  · exact havx2
  · exact hsse2
  · exact hportable

/-! ## Element-wise operations -/

section Zip

variable {op : CpuOp R} {f : R → R → R}

/-- The code of an operation with two operands, behind its check. -/
lemma zip_computedBy (hops : op.operands = [⟨.f32 a, n, false⟩, ⟨.f32 b, n, false⟩, ⟨.f32 c, n, true⟩])
    (hmeaning : op.meaning expf s = zipMeaning f a b c n s) {body : Kernel R Unit}
    (hbody : Reads op.Inside (.f32 a) n → Reads op.Inside (.f32 b) n → Writes op.Inside (.f32 c) n →
      body.Spec op.Inside s fun _ s' =>
        s' = fillF32 s c n fun k => f (readF32 s a k) (readF32 s b k)) :
    op.ComputedBy expf s (if (a = none ∨ b = none ∨ c = none) ∧ n ≠ 0 then pure paiErrInvalidArg
      else do
        body
        pure paiOk) := by
  unfold CpuOp.ComputedBy
  rw [hmeaning]
  refine spec_checked fun h => spec_ok (hbody ?_ ?_ ?_)
  · exact CpuOp.reads (o := ⟨.f32 a, n, false⟩) (by simp [hops]) fun hn ha => h ⟨.inl ha, hn⟩
  · exact CpuOp.reads (o := ⟨.f32 b, n, false⟩) (by simp [hops]) fun hn hb => h ⟨.inr (.inl hb), hn⟩
  · exact CpuOp.writes (o := ⟨.f32 c, n, true⟩) (by simp [hops])
      (fun hn hc => h ⟨.inr (.inr hc), hn⟩) rfl

lemma zipOp_computedBy
    (hops : op.operands = [⟨.f32 a, n, false⟩, ⟨.f32 b, n, false⟩, ⟨.f32 c, n, true⟩])
    (hmeaning : op.meaning expf s = zipMeaning f a b c n s) :
    op.ComputedBy expf s (zipOp f a b c n) := by
  refine zip_computedBy hops hmeaning fun ha hb hc => ?_
  have hloop := spec_zipScalar (s := s) (i := 0) f ha hb hc (Nat.zero_le n)
  rwa [fillF32_zero] at hloop

lemma zipOpWide_computedBy {w : ℕ} (hw : 0 < w) {vop : (Fin w → R) → (Fin w → R) → Fin w → R}
    (hvop : ∀ x y j, vop x y j = f (x j) (y j))
    (hops : op.operands = [⟨.f32 a, n, false⟩, ⟨.f32 b, n, false⟩, ⟨.f32 c, n, true⟩])
    (hmeaning : op.meaning expf s = zipMeaning f a b c n s) :
    op.ComputedBy expf s (zipOpWide hw vop f a b c n) :=
  zip_computedBy hops hmeaning (spec_zipWide hw hvop)

end Zip

lemma vecadd_computedBy (features : UInt32) :
    (CpuOp.vecadd a b c n).ComputedBy expf s (paiOptVecaddF32 features a b c n) :=
  computedBy_dispatch features
    (zipOpWide_computedBy (by decide) (fun _ _ _ => rfl) rfl rfl)
    (zipOpWide_computedBy (by decide) (fun _ _ _ => rfl) rfl rfl) (zipOp_computedBy rfl rfl)

lemma vecmul_computedBy (features : UInt32) :
    (CpuOp.vecmul a b c n).ComputedBy expf s (paiOptVecmulF32 features a b c n) :=
  computedBy_dispatch features
    (zipOpWide_computedBy (by decide) (fun _ _ _ => rfl) rfl rfl)
    (zipOpWide_computedBy (by decide) (fun _ _ _ => rfl) rfl rfl) (zipOp_computedBy rfl rfl)

/-- The code of a scaling, behind its check. -/
lemma scale_computedBy_of {alpha : R} {body : Kernel R Unit}
    (hbody : Reads (CpuOp.scale a alpha n).Inside (.f32 a) n →
      Writes (CpuOp.scale a alpha n).Inside (.f32 a) n →
      body.Spec (CpuOp.scale a alpha n).Inside s fun _ s' =>
        s' = fillF32 s a n fun k => alpha * readF32 s a k) :
    (CpuOp.scale a alpha n).ComputedBy expf s (if a = none ∧ n ≠ 0 then pure paiErrInvalidArg
      else do
        body
        pure paiOk) := by
  refine spec_checked fun h => spec_ok (hbody ?_ ?_)
  · exact CpuOp.reads (o := ⟨.f32 a, n, true⟩) List.mem_cons_self fun hn ha => h ⟨ha, hn⟩
  · exact CpuOp.writes (o := ⟨.f32 a, n, true⟩) List.mem_cons_self (fun hn ha => h ⟨ha, hn⟩) rfl

lemma optScalePortable_computedBy {alpha : R} :
    (CpuOp.scale a alpha n).ComputedBy expf s (optScalePortable a alpha n) := by
  refine scale_computedBy_of fun hread hwrite => ?_
  have hloop := spec_mapScalar (s := s) (i := 0) (fun x => alpha * x) hread hwrite (Nat.zero_le n)
  rwa [fillF32_zero] at hloop

lemma scaleWide_computedBy {w : ℕ} (hw : 0 < w) {alpha : R} :
    (CpuOp.scale a alpha n).ComputedBy expf s (scaleWide hw a alpha n) :=
  scale_computedBy_of (spec_mapWide hw fun x j => mul_comm (x j) alpha)

/-- The code of a rectifier, behind its check. -/
lemma relu_computedBy_of {body : Kernel R Unit}
    (hbody : Reads (CpuOp.relu (R := R) a c n).Inside (.f32 a) n →
      Writes (CpuOp.relu (R := R) a c n).Inside (.f32 c) n →
      body.Spec (CpuOp.relu (R := R) a c n).Inside s fun _ s' =>
        s' = fillF32 s c n fun k => reluScalar (readF32 s a k)) :
    (CpuOp.relu a c n).ComputedBy expf s (if (a = none ∨ c = none) ∧ n ≠ 0 then pure paiErrInvalidArg
      else do
        body
        pure paiOk) := by
  refine spec_checked fun h => spec_ok (hbody ?_ ?_)
  · exact CpuOp.reads (o := ⟨.f32 a, n, false⟩) List.mem_cons_self fun hn ha => h ⟨.inl ha, hn⟩
  · exact CpuOp.writes (o := ⟨.f32 c, n, true⟩) (by simp [CpuOp.operands])
      (fun hn hc => h ⟨.inr hc, hn⟩) rfl

lemma optReluPortable_computedBy :
    (CpuOp.relu a c n).ComputedBy expf s (optReluPortable a c n) := by
  refine relu_computedBy_of fun hread hwrite => ?_
  have hloop := spec_mapScalar (s := s) (i := 0) reluScalar hread hwrite (Nat.zero_le n)
  rwa [fillF32_zero] at hloop

lemma reluWide_computedBy {w : ℕ} (hw : 0 < w) :
    (CpuOp.relu a c n).ComputedBy expf s (reluWide hw a c n) :=
  relu_computedBy_of (spec_mapWide hw fun _ _ => rfl)

/-! ## Softmax -/

omit [Field R] [LinearOrder R] in
/-- What a softmax may access. -/
lemma softmax_allowed (h : ¬ (n = 0 ∨ a = none ∨ c = none)) :
    Reads (CpuOp.softmax (R := R) a c n).Inside (.f32 a) n ∧
      Reads (CpuOp.softmax (R := R) a c n).Inside (.f32 c) n ∧
      Writes (CpuOp.softmax (R := R) a c n).Inside (.f32 c) n := by
  refine ⟨?_, ?_, ?_⟩
  · exact CpuOp.reads (o := ⟨.f32 a, n, false⟩) List.mem_cons_self fun _ ha => h (.inr (.inl ha))
  · exact CpuOp.reads (o := ⟨.f32 c, n, true⟩) (by simp [CpuOp.operands])
      fun _ hc => h (.inr (.inr hc))
  · exact CpuOp.writes (o := ⟨.f32 c, n, true⟩) (by simp [CpuOp.operands])
      (fun _ hc => h (.inr (.inr hc))) rfl

lemma softmaxScalar_computedBy :
    (CpuOp.softmax a c n).ComputedBy expf s (softmaxScalar expf a c n) := by
  refine spec_checked fun h => ?_
  obtain ⟨ha, hread, hc⟩ := softmax_allowed (R := R) h
  have hn : 0 < n := Nat.pos_of_ne_zero fun hn => h (.inl hn)
  refine Prog.Spec.bind (spec_loadF32 ha hn) ?_
  rintro _ s ⟨rfl, rfl⟩
  have htop : Tops s a 1 ((readF32 s a 0 : R) : WithBot R) := fun x =>
    ⟨fun hx k hk => by rwa [Nat.lt_one_iff.mp hk], fun hx => hx 0 Nat.zero_lt_one⟩
  refine Prog.Spec.bind (spec_softmaxMax ha hn htop) ?_
  rintro _ s ⟨rfl, rfl⟩
  have hexp := spec_softmaxExp (s := s) expf ha hc (Nat.zero_le n)
  rw [fillF32_zero] at hexp
  refine Prog.Spec.bind hexp ?_
  rintro _ _ ⟨rfl, rfl⟩
  exact spec_ok (spec_softmaxDiv _ _ hread hc)

lemma softmaxWide_computedBy {w : ℕ} (hw : 0 < w) {hmax : (Fin w → WithBot R) → WithBot R}
    {hsum : (Fin w → R) → R} (hle : ∀ v x, hmax v ≤ x ↔ ∀ j, v j ≤ x) (hadd : ∀ v, hsum v = ∑ j, v j) :
    (CpuOp.softmax a c n).ComputedBy expf s (softmaxWide hw hmax hsum expf a c n) := by
  refine spec_checked fun h => ?_
  obtain ⟨ha, hread, hc⟩ := softmax_allowed (R := R) h
  refine Prog.Spec.bind (spec_softmaxMaxWide hw hle ha) ?_
  rintro ⟨i, v⟩ _ ⟨hi, rfl, htop⟩
  refine Prog.Spec.bind (spec_softmaxMax ha hi htop) ?_
  rintro _ _ ⟨rfl, rfl⟩
  refine Prog.Spec.bind (spec_softmaxExpWide hw hadd expf ha hc) ?_
  rintro ⟨i, v⟩ _ ⟨hi, hv, rfl⟩
  rw [hv]
  refine Prog.Spec.bind (spec_softmaxExp expf ha hc hi) ?_
  rintro _ _ ⟨rfl, rfl⟩
  exact spec_ok (spec_softmaxDiv _ _ hread hc)

/-! ## Matrix products -/

omit [Field R] [LinearOrder R] in
/-- What a matrix product may access. -/
lemma gemm_allowed (h : ¬ (m = 0 ∨ n = 0 ∨ k = 0 ∨ a = none ∨ b = none ∨ c = none)) :
    Reads (CpuOp.gemm (R := R) m n k a b c).Inside (.f32 a) (m * k) ∧
      Reads (CpuOp.gemm (R := R) m n k a b c).Inside (.f32 b) (k * n) ∧
      Writes (CpuOp.gemm (R := R) m n k a b c).Inside (.f32 c) (m * n) := by
  simp only [not_or] at h
  obtain ⟨-, -, -, ha, hb, hc⟩ := h
  refine ⟨?_, ?_, ?_⟩
  · exact CpuOp.reads (o := ⟨.f32 a, m * k, false⟩) List.mem_cons_self fun _ => ha
  · exact CpuOp.reads (o := ⟨.f32 b, k * n, false⟩) (by simp [CpuOp.operands]) fun _ => hb
  · exact CpuOp.writes (o := ⟨.f32 c, m * n, true⟩) (by simp [CpuOp.operands]) (fun _ => hc) rfl

lemma gemmScalar_computedBy (hsep : (CpuOp.gemm (R := R) m n k a b c).Separate) :
    (CpuOp.gemm m n k a b c).ComputedBy expf s (gemmScalar m n k a b c) := by
  refine spec_checked fun h => spec_ok (spec_rows fun i hi => ?_)
  obtain ⟨ha, hb, hc⟩ := gemm_allowed (R := R) h
  obtain ⟨hac, hbc⟩ := hsep.resolve_left fun hnull => h (by tauto)
  exact spec_gemmScalarRow ha hb hc hac hbc hi (Nat.zero_le n)

lemma gemmWide_computedBy {w : ℕ} (hw : 0 < w)
    {macc : (Fin w → R) → (Fin w → R) → (Fin w → R) → Fin w → R}
    (hmacc : ∀ x y acc j, macc x y acc j = acc j + x j * y j)
    (hsep : (CpuOp.gemm (R := R) m n k a b c).Separate) :
    (CpuOp.gemm m n k a b c).ComputedBy expf s (gemmWide hw macc m n k a b c) := by
  refine spec_checked fun h => spec_ok (spec_rows fun i hi => ?_)
  obtain ⟨ha, hb, hc⟩ := gemm_allowed (R := R) h
  obtain ⟨hac, hbc⟩ := hsep.resolve_left fun hnull => h (by tauto)
  refine spec_rowWide hw (e := gemmEntry n k a b s) hc hi (fun j hj => ?_) (fun j hj q => ?_)
    fun j hj => spec_gemmScalarRow ha hb hc hac hbc hi hj
  · rw [row_div hj, row_mod hj]
  · refine (spec_gemmDotWide hw hmacc ha hb hi hj).mono fun x s' h => ⟨h.1.trans ?_, h.2⟩
    exact funext fun v => gemmEntry_fill hac hbc

omit [Field R] [LinearOrder R] in
/-- What a product with a vector may access. -/
lemma gemv_allowed (h : ¬ (m = 0 ∨ k = 0 ∨ a = none ∨ x = none ∨ y = none)) :
    Reads (CpuOp.gemv (R := R) m k a x y).Inside (.f32 a) (m * k) ∧
      Reads (CpuOp.gemv (R := R) m k a x y).Inside (.f32 x) k ∧
      Writes (CpuOp.gemv (R := R) m k a x y).Inside (.f32 y) m := by
  simp only [not_or] at h
  obtain ⟨-, -, ha, hx, hy⟩ := h
  refine ⟨?_, ?_, ?_⟩
  · exact CpuOp.reads (o := ⟨.f32 a, m * k, false⟩) List.mem_cons_self fun _ => ha
  · exact CpuOp.reads (o := ⟨.f32 x, k, false⟩) (by simp [CpuOp.operands]) fun _ => hx
  · exact CpuOp.writes (o := ⟨.f32 y, m, true⟩) (by simp [CpuOp.operands]) (fun _ => hy) rfl

/-- A product with a vector, one entry after the other. -/
lemma gemv_computedBy_of {row : ℕ → Kernel R Unit} (hsep : (CpuOp.gemv (R := R) m k a x y).Separate)
    (hrow : Reads (CpuOp.gemv (R := R) m k a x y).Inside (.f32 a) (m * k) →
      Reads (CpuOp.gemv (R := R) m k a x y).Inside (.f32 x) k → ∀ i < m, ∀ t : Memory R, ∃ dot,
      (dot.Spec (CpuOp.gemv (R := R) m k a x y).Inside t fun v s' =>
        v = gemmEntry 1 k a x t i 0 ∧ s' = t) ∧
      ∀ Q, (dot >>= storeF32 y i).Spec (CpuOp.gemv (R := R) m k a x y).Inside t Q →
        (row i).Spec (CpuOp.gemv (R := R) m k a x y).Inside t Q) :
    (CpuOp.gemv m k a x y).ComputedBy expf s
      (if m = 0 ∨ k = 0 ∨ a = none ∨ x = none ∨ y = none then pure paiErrInvalidArg
      else do
        forUp 0 m () fun i _ => row i
        pure paiOk) := by
  refine spec_checked fun h => spec_ok ?_
  obtain ⟨ha, hx, hy⟩ := gemv_allowed (R := R) h
  obtain ⟨hay, hxy⟩ := hsep.resolve_left fun hnull => h (by tauto)
  refine spec_forUp (fun i _ s' => s' = fillF32 s y i fun i => gemmEntry 1 k a x s i 0) (Nat.zero_le m)
    (fillF32_zero s _).symm ?_
  rintro i _ _ rfl hi
  obtain ⟨dot, hdot, hstore⟩ := hrow ha hx i hi (fillF32 s y i fun i => gemmEntry 1 k a x s i 0)
  refine hstore _ (Prog.Spec.bind hdot ?_)
  rintro _ _ ⟨rfl, rfl⟩
  exact spec_storeF32 hy hi (gemmEntry_fill hay hxy)

lemma paiRefGemvF32_computedBy (hsep : (CpuOp.gemv (R := R) m k a x y).Separate) :
    (CpuOp.gemv m k a x y).ComputedBy expf s (paiRefGemvF32 m k a x y) := by
  refine gemv_computedBy_of hsep fun ha hx i hi t => ⟨_, ?_, fun Q h => h⟩
  refine spec_forUp (fun l sum s' => sum = ∑ l ∈ Finset.range l,
    readF32 t a (i * k + l) * readF32 t x (l * 1 + 0) ∧ s' = t) (Nat.zero_le k) ⟨rfl, rfl⟩ ?_
  rintro l _ t ⟨rfl, rfl⟩ hl
  refine Prog.Spec.bind (spec_loadF32 ha (row_lt hi hl)) ?_
  rintro _ t ⟨rfl, rfl⟩
  refine Prog.Spec.bind (spec_loadF32 hx hl) ?_
  rintro _ t ⟨rfl, rfl⟩
  refine spec_pure ⟨?_, rfl⟩
  rw [Finset.sum_range_succ, Nat.mul_one, Nat.add_zero]

lemma optGemvAvx2_computedBy (hsep : (CpuOp.gemv (R := R) m k a x y).Separate) :
    (CpuOp.gemv m k a x y).ComputedBy expf s (optGemvAvx2 m k a x y) :=
  gemv_computedBy_of hsep fun ha hx _ hi _ => ⟨_, spec_gemvDotWide ha hx hi, fun _ => Prog.Spec.assoc⟩

/-- A product with a vector is a matrix product with one column. -/
lemma gemv_computedBy_gemm {body : Kernel R PaiStatus}
    (h : (CpuOp.gemm m 1 k a x y).ComputedBy expf s body) :
    (CpuOp.gemv m k a x y).ComputedBy expf s body := by
  have hinside (acc : Access Buf) (hacc : (CpuOp.gemm (R := R) m 1 k a x y).Inside acc) :
      (CpuOp.gemv (R := R) m k a x y).Inside acc := by
    simpa only [CpuOp.Inside, CpuOp.operands, Nat.mul_one] using hacc
  refine ⟨h.1.trans ?_, fun acc hacc => hinside acc (h.2 acc hacc)⟩
  simp only [CpuOp.meaning, Nat.one_ne_zero, false_or, Nat.mul_one, Nat.div_one, Nat.mod_one]

omit [Field R] [LinearOrder R] in
/-- What a product with eight-bit weights may access. -/
lemma gemmW8_allowed {groupSize : ℕ}
    (h : ¬ (m = 0 ∨ n = 0 ∨ k = 0 ∨ a = none ∨ wQ = none ∨ bScales = none ∨ c = none)) :
    Reads (CpuOp.gemmW8 (R := R) m n k a wQ bScales groupSize c).Inside (.f32 a) (m * k) ∧
      Reads (CpuOp.gemmW8 (R := R) m n k a wQ bScales groupSize c).Inside (.i8 wQ) (k * n) ∧
      Reads (CpuOp.gemmW8 (R := R) m n k a wQ bScales groupSize c).Inside (.f32 bScales)
        ((k + groupSizeFor groupSize k - 1) / groupSizeFor groupSize k * n) ∧
      Writes (CpuOp.gemmW8 (R := R) m n k a wQ bScales groupSize c).Inside (.f32 c) (m * n) := by
  simp only [not_or] at h
  obtain ⟨-, -, -, ha, hw, hs, hc⟩ := h
  refine ⟨?_, ?_, ?_, ?_⟩
  · exact CpuOp.reads (o := ⟨.f32 a, m * k, false⟩) List.mem_cons_self fun _ => ha
  · exact CpuOp.reads (o := ⟨.i8 wQ, k * n, false⟩) (by simp [CpuOp.operands]) fun _ => hw
  · exact CpuOp.reads (o := ⟨.f32 bScales, _, false⟩) (by simp [CpuOp.operands]) fun _ => hs
  · exact CpuOp.writes (o := ⟨.f32 c, m * n, true⟩) (by simp [CpuOp.operands]) (fun _ => hc) rfl

lemma gemmW8Scalar_computedBy {groupSize : ℕ}
    (hsep : (CpuOp.gemmW8 (R := R) m n k a wQ bScales groupSize c).Separate) :
    (CpuOp.gemmW8 m n k a wQ bScales groupSize c).ComputedBy expf s
      (gemmW8Scalar m n k a wQ bScales groupSize c) := by
  refine spec_checked fun h => spec_ok (spec_rows fun i hi => ?_)
  obtain ⟨ha, hw, hs, hc⟩ := gemmW8_allowed (R := R) h
  obtain ⟨hac, hsc⟩ := hsep.resolve_left fun hnull => h (by tauto)
  exact spec_w8ScalarRow ha hw (groupSizeFor_pos fun hk => h (by tauto)) hs hc hac hsc hi (Nat.zero_le n)

lemma optGemmW8Avx2_computedBy {groupSize : ℕ}
    (hsep : (CpuOp.gemmW8 (R := R) m n k a wQ bScales groupSize c).Separate) :
    (CpuOp.gemmW8 m n k a wQ bScales groupSize c).ComputedBy expf s
      (optGemmW8Avx2 m n k a wQ bScales groupSize c) := by
  unfold CpuOp.ComputedBy optGemmW8Avx2
  by_cases h : m = 0 ∨ n = 0 ∨ k = 0 ∨ a = none ∨ wQ = none ∨ bScales = none ∨ c = none
  · rw [dif_pos h]
    exact spec_pure (if_pos h).symm
  rw [dif_neg h]
  refine Prog.Spec.mono (spec_ok (spec_rows fun i hi => ?_)) fun _ _ hs => hs.trans (if_neg h).symm
  obtain ⟨ha, hw, hs, hc⟩ := gemmW8_allowed (R := R) h
  obtain ⟨hac, hsc⟩ := hsep.resolve_left fun hnull => h (by tauto)
  have hg : 0 < groupSizeFor groupSize k := groupSizeFor_pos fun hk => h (by tauto)
  refine spec_rowWide (by decide) (e := w8Entry n k a wQ bScales (groupSizeFor groupSize k) s) hc hi
    (fun j hj => ?_) (fun j hj q => ?_) fun j hj => spec_w8ScalarRow ha hw hg hs hc hac hsc hi hj
  · rw [row_div hj, row_mod hj]
  · refine (spec_w8DotWide ha hw hg hs hi hj).mono fun x s' h => ⟨h.1.trans (funext fun v => ?_), h.2⟩
    exact Finset.sum_congr rfl fun t _ => w8Term_fill hac hsc

/-! ## Both backends -/

/-- The reference computes what a call means. -/
lemma CpuOp.ref_computedBy {op : CpuOp R} (hsep : op.Separate) : op.ComputedBy expf s (op.ref expf) := by
  cases op with
  | vecadd a b c n => exact zipOp_computedBy rfl rfl
  | vecmul a b c n => exact zipOp_computedBy rfl rfl
  | scale a alpha n => exact optScalePortable_computedBy
  | relu a c n => exact optReluPortable_computedBy
  | softmax a c n => exact softmaxScalar_computedBy
  | gemm m n k a b c => exact gemmScalar_computedBy hsep
  | gemv m k a x y => exact paiRefGemvF32_computedBy hsep
  | gemmW8 m n k a wQ bScales groupSize c => exact gemmW8Scalar_computedBy hsep

lemma paiOptGemmF32_computedBy (features : UInt32)
    (hsep : (CpuOp.gemm (R := R) m n k a b c).Separate) :
    (CpuOp.gemm m n k a b c).ComputedBy expf s (paiOptGemmF32 features m n k a b c) :=
  computedBy_dispatch features
    (gemmWide_computedBy _ (fun x y acc j => add_comm (x j * y j) (acc j)) hsep)
    (gemmWide_computedBy _ (fun _ _ _ _ => rfl) hsep) (gemmScalar_computedBy hsep)

/-- So does the optimised backend, with every set of features. -/
lemma CpuOp.opt_computedBy (features : UInt32) {op : CpuOp R} (hsep : op.Separate) :
    op.ComputedBy expf s (op.opt features expf) := by
  cases op with
  | vecadd a b c n => exact vecadd_computedBy features
  | vecmul a b c n => exact vecmul_computedBy features
  | scale a alpha n =>
    exact computedBy_dispatch features (scaleWide_computedBy _) (scaleWide_computedBy _)
      optScalePortable_computedBy
  | relu a c n =>
    exact computedBy_dispatch features (reluWide_computedBy _) (reluWide_computedBy _)
      optReluPortable_computedBy
  | softmax a c n =>
    exact computedBy_dispatch features (softmaxWide_computedBy _ hmax256Ps_le_iff hsum256Ps_eq)
      (softmaxWide_computedBy _ hmax128Ps_le_iff hsum128Ps_eq) softmaxScalar_computedBy
  | gemm m n k a b c => exact paiOptGemmF32_computedBy features hsep
  | gemv m k a x y =>
    change CpuOp.ComputedBy _ _ _ (paiOptGemvF32 features m k a x y)
    unfold paiOptGemvF32
    split_ifs
    · exact optGemvAvx2_computedBy hsep
    · exact gemv_computedBy_gemm (paiOptGemmF32_computedBy features hsep)
  | gemmW8 m n k a wQ bScales groupSize c =>
    change CpuOp.ComputedBy _ _ _ (paiOptGemmW8F32 features m n k a wQ bScales groupSize c)
    unfold paiOptGemmW8F32
    split_ifs
    · exact optGemmW8Avx2_computedBy hsep
    · exact gemmW8Scalar_computedBy hsep

end Calls

/-- With every set of features, the optimised backend returns the status of the reference and leaves the
memory that it leaves, and every load and store is inside its operand. -/
theorem paiOpt_eq_paiRef [Field R] [LinearOrder R] (features : UInt32) (expf : WithTop R → R)
    (op : CpuOp R) (s : Memory R) (hsep : op.Separate) :
    (op.opt features expf s).1 = (op.ref expf s).1 ∧
      (op.opt features expf s).2.1 = (op.ref expf s).2.1 ∧
      ∀ acc ∈ (op.opt features expf s).2.2, op.Inside acc := by
  have hopt : op.ComputedBy expf s (op.opt features expf) := op.opt_computedBy features hsep
  have href : op.ComputedBy expf s (op.ref expf) := op.ref_computedBy hsep
  have heq := hopt.1.trans href.1.symm
  exact ⟨(Prod.mk.inj heq).1, (Prod.mk.inj heq).2, hopt.2⟩

/-- Memory in which every array counts up. -/
def countingMemory : Memory ℚ
  | .f32 _ => fun i => i
  | .i8 _ => fun i => Int8.ofNat i

/-- A product with eight-bit weights, with one vector of columns, one more column, and a last group that is
shorter than the others. -/
def sampleW8 : CpuOp ℚ := .gemmW8 2 9 5 (some 0) (some 1) (some 2) 2 (some 3)

theorem paiOpt_eq_paiRef_w8 :
    (sampleW8.opt 6 (fun _ => 1) countingMemory).1 = (sampleW8.ref (fun _ => 1) countingMemory).1 ∧
      (sampleW8.opt 6 (fun _ => 1) countingMemory).2.1 =
        (sampleW8.ref (fun _ => 1) countingMemory).2.1 ∧
      ∀ acc ∈ (sampleW8.opt 6 (fun _ => 1) countingMemory).2.2, sampleW8.Inside acc :=
  paiOpt_eq_paiRef 6 (fun _ => 1) sampleW8 countingMemory (.inr ⟨by decide, by decide⟩)

end Prospero.Exact
