import Mathlib.Tactic.Abel
import Mathlib.Tactic.Ring
import Prospero.Cpu.Meaning

/-!
# The vector loops

One lemma `spec_…` for each vector loop of the optimised operations.  A loop is followed through its lanes:
of an element-wise operation each lane is the scalar operation, of a sum the lanes add up to the sum of what
has been read, and of a maximum the largest lane is the largest element that has been read.
-/

namespace Prospero.Exact

open Arrays

variable {R : Type}

/-! ## Vectors -/

section Vectors

variable {α : Type}

lemma maxPs_eq [LinearOrder α] {w : ℕ} (x y : Fin w → α) : maxPs x y = fun j => max (x j) (y j) := by
  funext j
  rw [maxPs]
  split_ifs with h
  · exact (max_eq_left h.le).symm
  · exact (max_eq_right (not_lt.mp h)).symm

lemma hsum128Ps_eq [AddCommMonoid α] (v : Fin 4 → α) : hsum128Ps v = ∑ j, v j := by
  rw [Fin.sum_univ_four]
  change v 0 + v 2 + (v 1 + v 3) = _
  exact (add_add_add_comm _ _ _ _).trans (add_assoc _ _ _).symm

lemma hsum256Ps_eq [AddCommMonoid α] (v : Fin 8 → α) : hsum256Ps v = ∑ j, v j := by
  rw [Fin.sum_univ_eight]
  change v 0 + v 4 + (v 2 + v 6) + (v 1 + v 5 + (v 3 + v 7)) = _
  abel

lemma hmax128Ps_le_iff [LinearOrder α] (v : Fin 4 → α) (x : α) : hmax128Ps v ≤ x ↔ ∀ j, v j ≤ x := by
  have hmax : hmax128Ps v = max (max (v 0) (v 2)) (max (v 1) (v 3)) := by
    unfold hmax128Ps
    simp only [maxPs_eq]
    rfl
  rw [hmax]
  simp only [max_le_iff, Fin.forall_fin_succ]
  constructor
  · rintro ⟨⟨h0, h2⟩, h1, h3⟩
    exact ⟨h0, h1, h2, h3, fun j => j.elim0⟩
  · rintro ⟨h0, h1, h2, h3, -⟩
    exact ⟨⟨h0, h2⟩, h1, h3⟩

lemma hmax256Ps_le_iff [LinearOrder α] (v : Fin 8 → α) (x : α) : hmax256Ps v ≤ x ↔ ∀ j, v j ≤ x := by
  have hmax : hmax256Ps v =
      max (max (max (v 0) (v 4)) (max (v 2) (v 6))) (max (max (v 1) (v 5)) (max (v 3) (v 7))) := by
    unfold hmax256Ps
    simp only [maxPs_eq]
    rfl
  rw [hmax]
  simp only [max_le_iff, Fin.forall_fin_succ]
  constructor
  · rintro ⟨⟨⟨h0, h4⟩, h2, h6⟩, ⟨h1, h5⟩, h3, h7⟩
    exact ⟨h0, h1, h2, h3, h4, h5, h6, h7, fun j => j.elim0⟩
  · rintro ⟨h0, h1, h2, h3, h4, h5, h6, h7, -⟩
    exact ⟨⟨⟨h0, h4⟩, h2, h6⟩, ⟨h1, h5⟩, h3, h7⟩

end Vectors

/-! ## Vector loops -/

variable {P : Access Buf → Prop} {s : Memory R} {w : ℕ}

lemma spec_loaduPs {p : Ptr} {i n : ℕ} (hw : 0 < w) (h : Reads P (.f32 p) n) (hi : i + w ≤ n) :
    (loaduPs w p i).Spec P s fun v s' => v = (fun j : Fin w => readF32 s p (i + j)) ∧ s' = s :=
  spec_load (h i w hw hi) ⟨rfl, rfl⟩

/-- A store of the next elements. -/
lemma spec_storeuPs {p : Ptr} {i n : ℕ} {f : ℕ → R} {v : Fin w → R} (hw : 0 < w)
    (h : Writes P (.f32 p) n) (hi : i + w ≤ n) (hv : ∀ j : Fin w, v j = f (i + j)) :
    (storeuPs p i v).Spec P (fillF32 s p i f) fun _ s' => s' = fillF32 s p (i + w) f :=
  spec_store (h i w hw hi) (s.put_fill (.f32 p) i f v hv)

/-- A blocked loop keeps the invariant that each of its rounds keeps. -/
lemma spec_forWide {α : Type} (hw : 0 < w) {n : ℕ} {b : α} {body : ℕ → α → Kernel R α}
    (I : ℕ → α → Memory R → Prop) (hstart : I 0 b s)
    (hbody : ∀ i b s, I i b s → i + w ≤ n → (body i b).Spec P s (I (i + w))) :
    (forWide hw n b body).Spec P s fun r s' => r.1 ≤ n ∧ I r.1 r.2 s' := by
  refine spec_forStep (fun i b s => i ≤ n ∧ I i b s) ⟨Nat.zero_le n, hstart⟩ ?_ fun i b s h _ => h
  intro i b s h hle
  exact (hbody i b s h.2 hle).mono fun b' s' hI => ⟨hle, hI⟩

section ElementWise

variable {a b c : Ptr} {n : ℕ}

lemma spec_zipWide (hw : 0 < w) {vop : (Fin w → R) → (Fin w → R) → Fin w → R} {op : R → R → R}
    (hop : ∀ x y j, vop x y j = op (x j) (y j)) (ha : Reads P (.f32 a) n) (hb : Reads P (.f32 b) n)
    (hc : Writes P (.f32 c) n) :
    (zipWide hw vop op a b c n).Spec P s fun _ s' =>
      s' = fillF32 s c n fun k => op (readF32 s a k) (readF32 s b k) := by
  refine Prog.Spec.bind (spec_forWide hw (fun i _ s' =>
    s' = fillF32 s c i fun k => op (readF32 s a k) (readF32 s b k)) (fillF32_zero s _).symm ?_) ?_
  · rintro i _ _ rfl hle
    refine Prog.Spec.bind (spec_loaduPs hw ha hle) ?_
    rintro _ _ ⟨rfl, rfl⟩
    refine Prog.Spec.bind (spec_loaduPs hw hb hle) ?_
    rintro _ _ ⟨rfl, rfl⟩
    refine spec_storeuPs hw hc hle fun j => ?_
    rw [hop, readF32_fill_of_le s _ (Nat.le_add_right i j), readF32_fill_of_le s _ (Nat.le_add_right i j)]
  · rintro ⟨i, _⟩ _ ⟨hi, rfl⟩
    exact spec_zipScalar op ha hb hc hi

lemma spec_mapWide (hw : 0 < w) {vop : (Fin w → R) → Fin w → R} {op : R → R}
    (hop : ∀ x j, vop x j = op (x j)) (ha : Reads P (.f32 a) n) (hc : Writes P (.f32 c) n) :
    (mapWide hw vop op a c n).Spec P s fun _ s' =>
      s' = fillF32 s c n fun k => op (readF32 s a k) := by
  refine Prog.Spec.bind (spec_forWide hw (fun i _ s' =>
    s' = fillF32 s c i fun k => op (readF32 s a k)) (fillF32_zero s _).symm ?_) ?_
  · rintro i _ _ rfl hle
    refine Prog.Spec.bind (spec_loaduPs hw ha hle) ?_
    rintro _ _ ⟨rfl, rfl⟩
    refine spec_storeuPs hw hc hle fun j => ?_
    rw [hop, readF32_fill_of_le s _ (Nat.le_add_right i j)]
  · rintro ⟨i, _⟩ _ ⟨hi, rfl⟩
    exact spec_mapScalar op ha hc hi

end ElementWise

/-- A sum over the first elements and the next `w` ones, lane by lane. -/
lemma sum_range_add_lanes [AddCommMonoid R] (f : ℕ → R) (i w : ℕ) :
    ∑ t ∈ Finset.range (i + w), f t = ∑ t ∈ Finset.range i, f t + ∑ j : Fin w, f (i + j) := by
  rw [Finset.sum_range_add, Finset.sum_range fun j => f (i + j)]

/-- The first elements and the next `w` ones, lane by lane. -/
lemma forall_lt_add_lanes {p : ℕ → Prop} (i w : ℕ) :
    (∀ k < i + w, p k) ↔ (∀ k < i, p k) ∧ ∀ j : Fin w, p (i + j) := by
  constructor
  · exact fun h => ⟨fun k hk => h k (by omega), fun j => h _ (by omega)⟩
  · rintro ⟨hlow, hhigh⟩ k hk
    by_cases hki : k < i
    · exact hlow k hki
    · have h := hhigh ⟨k - i, by omega⟩
      rwa [show i + (k - i) = k by omega] at h

section Softmax

variable [LinearOrder R] {a c : Ptr} {n : ℕ}

/-- The vector loop for the largest element. -/
lemma spec_softmaxMaxWide (hw : 0 < w) {hmax : (Fin w → WithBot R) → WithBot R}
    (hle : ∀ v x, hmax v ≤ x ↔ ∀ j, v j ≤ x) (ha : Reads P (.f32 a) n) :
    (forWide (R := R) hw n (set1Ps ⊥) fun i m => do
        let x ← loaduPs w a i
        pure (maxPs m fun j => (x j : WithBot R))).Spec P s fun r s' =>
      r.1 ≤ n ∧ s' = s ∧ Tops s a r.1 (hmax r.2) := by
  refine spec_forWide hw (fun i m s' => s' = s ∧ Tops s a i (hmax m)) ⟨rfl, fun x => ?_⟩ ?_
  · rw [hle]
    exact ⟨fun _ k hk => absurd hk (Nat.not_lt_zero k), fun _ _ => bot_le⟩
  · rintro i m _ ⟨rfl, htop⟩ hi
    refine Prog.Spec.bind (spec_loaduPs hw ha hi) ?_
    rintro _ _ ⟨rfl, rfl⟩
    refine spec_pure ⟨rfl, fun x => ?_⟩
    rw [hle, forall_lt_add_lanes, ← htop x, hle, ← forall_and]
    exact forall_congr' fun j => by rw [maxPs_eq, max_le_iff]

variable [Field R]

/-- The vector loop for the exponentials. -/
lemma spec_softmaxExpWide (hw : 0 < w) {hsum : (Fin w → R) → R} (hadd : ∀ v, hsum v = ∑ j, v j)
    (expf : WithTop R → R) (ha : Reads P (.f32 a) n) (hc : Writes P (.f32 c) n) :
    (forWide hw n (set1Ps 0) fun i s' => do
        let x ← loaduPs w a i
        let e := fun j => expf (subMax (x j) (maxOf s a n))
        storeuPs c i e
        pure (addPs s' e)).Spec P s fun r s' =>
      r.1 ≤ n ∧ hsum r.2 = ∑ t ∈ Finset.range r.1, expOf expf s a n t ∧
        s' = fillF32 s c r.1 (expOf expf s a n) := by
  refine spec_forWide hw (fun i v s' => hsum v = ∑ t ∈ Finset.range i, expOf expf s a n t ∧
    s' = fillF32 s c i (expOf expf s a n)) ⟨?_, (fillF32_zero s _).symm⟩ ?_
  · rw [hadd]
    exact Finset.sum_const_zero
  · rintro i v _ ⟨hv, rfl⟩ hi
    refine Prog.Spec.bind (spec_loaduPs hw ha hi) ?_
    rintro _ _ ⟨rfl, rfl⟩
    have hx (j : Fin w) : expf (subMax (readF32 (fillF32 s c i (expOf expf s a n)) a (i + j))
        (maxOf s a n)) = expOf expf s a n (i + j) := by
      rw [readF32_fill_of_le s _ (Nat.le_add_right i j), expOf]
    refine Prog.Spec.bind (spec_storeuPs hw hc hi hx) ?_
    rintro _ _ rfl
    refine spec_pure ⟨?_, rfl⟩
    rw [hadd, sum_range_add_lanes, ← hv, hadd, ← Finset.sum_add_distrib]
    exact Finset.sum_congr rfl fun j _ => congrArg (v j + ·) (hx j)

end Softmax

section Products

variable {m n k : ℕ} {a b c wQ bScales : Ptr} {g i j : ℕ}

/-- A row of an array computed front to back, `w` entries at a time and then entry by entry. -/
lemma spec_rowWide (hw : 0 < w) {e : ℕ → ℕ → R} {dot : ℕ → Kernel R (Fin w → R)}
    {rest : ℕ → Kernel R Unit} (hc : Writes P (.f32 c) (m * n)) (hi : i < m) {f : ℕ → R}
    (hf : ∀ j < n, f (i * n + j) = e i j)
    (hdot : ∀ j, j + w ≤ n → ∀ q, (dot j).Spec P (fillF32 s c q f) fun x s' =>
      x = (fun v : Fin w => e i (j + v)) ∧ s' = fillF32 s c q f)
    (hrest : ∀ j ≤ n, (rest j).Spec P (fillF32 s c (i * n + j) f) fun _ s' =>
      s' = fillF32 s c (i * n + n) f) :
    Prog.Spec P (do
        let r ← forWide hw n () fun j _ => do
          let acc ← dot j
          storeuPs c (i * n + j) acc
        rest r.1) (fillF32 s c (i * n) f) fun _ s' => s' = fillF32 s c (i * n + n) f := by
  refine Prog.Spec.bind (spec_forWide hw (fun j _ s' => s' = fillF32 s c (i * n + j) f) rfl ?_) ?_
  · rintro j _ _ rfl hj
    refine Prog.Spec.bind (hdot j hj _) ?_
    rintro _ _ ⟨rfl, rfl⟩
    have hcols : i * n + j + w ≤ m * n := by
      rw [Nat.add_assoc]
      exact row_le hi hj
    refine (spec_storeuPs hw hc hcols fun v => ?_).mono fun _ s' h => h.trans (by rw [Nat.add_assoc])
    rw [Nat.add_assoc, hf _ (by omega)]
  · rintro ⟨j, _⟩ _ ⟨hj, rfl⟩
    exact hrest j hj

variable [Field R]

/-- The dot products of a row with the next `w` columns. -/
lemma spec_gemmDotWide (hw : 0 < w) {macc : (Fin w → R) → (Fin w → R) → (Fin w → R) → Fin w → R}
    (hmacc : ∀ x y acc j, macc x y acc j = acc j + x j * y j) (ha : Reads P (.f32 a) (m * k))
    (hb : Reads P (.f32 b) (k * n)) (hi : i < m) (hj : j + w ≤ n) :
    (forUp 0 k (set1Ps 0) fun l acc => do
        let bj ← loaduPs w b (l * n + j)
        let x ← loadF32 a (i * k + l)
        pure (macc (set1Ps x) bj acc)).Spec P s fun acc s' =>
      acc = (fun v : Fin w => gemmEntry n k a b s i (j + v)) ∧ s' = s := by
  refine spec_forUp (fun l acc s' => acc = (fun v : Fin w => ∑ l ∈ Finset.range l,
    readF32 s a (i * k + l) * readF32 s b (l * n + (j + v))) ∧ s' = s) (Nat.zero_le k) ⟨rfl, rfl⟩ ?_
  rintro l _ _ ⟨rfl, rfl⟩ hl
  have hcols : l * n + j + w ≤ k * n := by
    rw [Nat.add_assoc]
    exact row_le hl hj
  refine Prog.Spec.bind (spec_loaduPs hw hb hcols) ?_
  rintro _ _ ⟨rfl, rfl⟩
  refine Prog.Spec.bind (spec_loadF32 ha (row_lt hi hl)) ?_
  rintro _ _ ⟨rfl, rfl⟩
  refine spec_pure ⟨funext fun v => ?_, rfl⟩
  rw [hmacc, Finset.sum_range_succ, Nat.add_assoc]
  rfl

/-- A dot product in eight partial sums, and the rest of the row. -/
lemma spec_gemvDotWide {x : Ptr} (ha : Reads P (.f32 a) (m * k)) (hx : Reads P (.f32 x) k) (hi : i < m) :
    Prog.Spec P (do
        let r ← forWide (by decide : 0 < 8) k (set1Ps 0) fun l acc => do
          let av ← loaduPs 8 a (i * k + l)
          let xv ← loaduPs 8 x l
          pure (fmaddPs av xv acc)
        forUp r.1 k (hsum256Ps r.2) fun l s => do
          let al ← loadF32 a (i * k + l)
          let xl ← loadF32 x l
          pure (s + al * xl)) s fun y s' => y = gemmEntry 1 k a x s i 0 ∧ s' = s := by
  refine Prog.Spec.bind (spec_forWide (by decide : 0 < 8) (fun l acc s' => hsum256Ps acc =
    ∑ l ∈ Finset.range l, readF32 s a (i * k + l) * readF32 s x (l * 1 + 0) ∧ s' = s) ⟨?_, rfl⟩ ?_) ?_
  · rw [hsum256Ps_eq]
    exact Finset.sum_const_zero
  · rintro l acc _ ⟨hacc, rfl⟩ hl
    have hcols : i * k + l + 8 ≤ m * k := by
      rw [Nat.add_assoc]
      exact row_le hi hl
    refine Prog.Spec.bind (spec_loaduPs (by decide) ha hcols) ?_
    rintro _ _ ⟨rfl, rfl⟩
    refine Prog.Spec.bind (spec_loaduPs (by decide) hx hl) ?_
    rintro _ _ ⟨rfl, rfl⟩
    refine spec_pure ⟨?_, rfl⟩
    rw [hsum256Ps_eq, sum_range_add_lanes, ← hacc, hsum256Ps_eq, ← Finset.sum_add_distrib]
    refine Finset.sum_congr rfl fun v _ => ?_
    rw [fmaddPs, add_comm, Nat.mul_one, Nat.add_zero, Nat.add_assoc]
  · rintro ⟨l, acc⟩ _ ⟨hl, hacc, rfl⟩
    rw [hacc]
    refine spec_forUp (fun l sum s' => sum = ∑ l ∈ Finset.range l,
      readF32 _ a (i * k + l) * readF32 _ x (l * 1 + 0) ∧ s' = _) hl ⟨rfl, rfl⟩ ?_
    rintro l _ _ ⟨rfl, rfl⟩ hl
    refine Prog.Spec.bind (spec_loadF32 ha (row_lt hi hl)) ?_
    rintro _ _ ⟨rfl, rfl⟩
    refine Prog.Spec.bind (spec_loadF32 hx hl) ?_
    rintro _ _ ⟨rfl, rfl⟩
    refine spec_pure ⟨?_, rfl⟩
    rw [Finset.sum_range_succ, Nat.mul_one, Nat.add_zero]

lemma spec_loadW8 {p : Ptr} (hw : Reads P (.i8 p) n) (hi : i + 8 ≤ n) :
    (loadW8 p i).Spec P s fun v s' => v = (fun j : Fin 8 => ofInt8 (readI8 s p (i + j))) ∧ s' = s := by
  refine Prog.Spec.bind (spec_load (Q := fun v s' => v = _ ∧ s' = s) (hw i 8 (by decide) hi)
    ⟨rfl, rfl⟩) ?_
  rintro _ _ ⟨rfl, rfl⟩
  exact spec_pure ⟨rfl, rfl⟩

/-- The rows of a group have the scale of its first row. -/
lemma group_div {q t : ℕ} (hlow : q * g ≤ t) (hhigh : t < q * g + g) : t / g = q * g / g := by
  have hg : 0 < g := by omega
  rw [Nat.mul_div_cancel q hg]
  exact Nat.div_eq_of_lt_le hlow (by rw [Nat.succ_mul]; exact hhigh)

/-- Eight dot products, group by group. -/
lemma spec_w8DotWide (ha : Reads P (.f32 a) (m * k)) (hw : Reads P (.i8 wQ) (k * n)) (hg : 0 < g)
    (hs : Reads P (.f32 bScales) ((k + g - 1) / g * n)) (hi : i < m) (hj : j + 8 ≤ n) :
    (w8DotWide n k a wQ bScales hg i j).Spec P s fun acc s' =>
      acc = (fun v : Fin 8 => w8Entry n k a wQ bScales g s i (j + v)) ∧ s' = s := by
  refine Prog.Spec.bind (R := fun r s' => r.2 = (fun v : Fin 8 =>
    w8Entry n k a wQ bScales g s i (j + v)) ∧ s' = s) (spec_forStep (fun t0 acc s' =>
      (∃ q, t0 = q * g) ∧ acc = (fun v : Fin 8 =>
        ∑ t ∈ Finset.range (min t0 k), w8Term n k a wQ bScales g s i (j + v) t) ∧ s' = s)
      ⟨⟨0, (Nat.zero_mul g).symm⟩, ?_, rfl⟩ ?_ ?_) fun r s' h => spec_pure h
  · rw [Nat.zero_min]
    rfl
  · rintro _ _ _ ⟨⟨q, rfl⟩, rfl, rfl⟩ hlt
    have hscale : q * g / g * n + j + 8 ≤ (k + g - 1) / g * n := by
      rw [Nat.add_assoc]
      exact groups_mul_le hg hlt hj
    refine Prog.Spec.bind (spec_loaduPs (by decide) hs hscale) ?_
    rintro _ _ ⟨rfl, rfl⟩
    have hend : (if q * g + g < k then q * g + g else k) = min (q * g + g) k := by
      split_ifs with h
      · exact (min_eq_left h.le).symm
      · exact (min_eq_right (Nat.not_lt.mp h)).symm
    rw [hend, min_eq_left (Nat.le_of_lt hlt)]
    -- the rows of the group
    refine (spec_forUp (fun t acc s' => q * g ≤ t ∧ acc = (fun v : Fin 8 =>
      ∑ t ∈ Finset.range t, w8Term n k a wQ bScales g _ i (j + v) t) ∧ s' = _)
      (le_min (Nat.le_add_right _ _) (Nat.le_of_lt hlt)) ⟨le_rfl, rfl, rfl⟩ ?_).mono
      fun _ s' h => ⟨⟨q + 1, (Nat.succ_mul q g).symm⟩, h.2⟩
    rintro t _ _ ⟨hlow, rfl, rfl⟩ ht
    obtain ⟨hhigh, htk⟩ := lt_min_iff.mp ht
    have hcols : t * n + j + 8 ≤ k * n := by
      rw [Nat.add_assoc]
      exact row_le htk hj
    refine Prog.Spec.bind (spec_loadW8 hw hcols) ?_
    rintro _ _ ⟨rfl, rfl⟩
    refine Prog.Spec.bind (spec_loadF32 ha (row_lt hi htk)) ?_
    rintro _ _ ⟨rfl, rfl⟩
    refine spec_pure ⟨Nat.le_succ_of_le hlow, funext fun v => ?_, rfl⟩
    rw [Finset.sum_range_succ, fmaddPs, mulPs, set1Ps, w8Term, group_div hlow hhigh, Nat.add_assoc,
      Nat.add_assoc]
    ring
  · rintro t0 acc s' ⟨-, rfl, rfl⟩ hlt
    rw [min_eq_right (Nat.lt_succ_iff.mp hlt)]
    exact ⟨rfl, rfl⟩

end Products

end Prospero.Exact
