import Prospero.Lib.Relocation
import Prospero.Scheduler.RefOps

/-!
# Reference kernels under two layouts

Each kernel of the executor computes its output from its inputs alone, wherever the operands lie: run with other
pointers it makes the same accesses up to the layout, reads what is known of its inputs or what it has written
itself, and knows its whole output at the end.  There is one `tracks_…` lemma for each kernel; the bounds are
those of the sizes it is called with, so that no index wraps.
-/

namespace Prospero

open ByteString Footprint

section Tracks

variable {r : Relocation ℕ} {S : Cells ℕ}

/-! ## Elements -/

lemma tracks_loadF32 {v o p p' i n : ℕ} (hat : r.At v o p p') (hknown : Known S v o n) (hi : 4 * i + 4 ≤ n) :
    Tracks .region r (fun _ T => T = S) S (loadF32 p i) (loadF32 p' i) :=
  Tracks.bind (tracks_loadBytes (hat.shift (4 * i)) (hknown.part hi)) fun _ _ _ hload => .ret hload.2

lemma tracks_storeF32 {v o p p' i n : ℕ} {x : Float32} (hat : r.At v o p p') (hwrite : r.Writable v o n)
    (hi : 4 * i + 4 ≤ n) :
    Tracks .region r (fun _ T => Known T v (o + 4 * i) 4) S (storeF32 p i x) (storeF32 p' i x) := by
  have hlen : (leBytes 4 x.toBits.toNat).length = 4 := length_leBytes _ _
  have hstore : Tracks .region r (fun _ T => Known T v (o + 4 * i) (leBytes 4 x.toBits.toNat).length) S
      (storeF32 p i x) (storeF32 p' i x) :=
    tracks_storeBytes (hat.shift (4 * i)) (by rw [hlen]; exact hwrite.part hi)
  rwa [hlen] at hstore

/-- The next element of an output. -/
lemma known_snoc {T : Cells ℕ} {v o i : ℕ} (h : Known T v o (4 * i)) (hnext : Known T v (o + 4 * i) 4) :
    Known T v o (4 * (i + 1)) :=
  h.append hnext

lemma tracks_copyBytes {v o w q p p' d d' n : ℕ} (hsrc : r.At v o p p') (hdst : r.At w q d d')
    (hknown : Known S v o n) (hwrite : r.Writable w q n) :
    Tracks .region r (fun _ T => Known T w q n) S (copyBytes d p n) (copyBytes d' p' n) := by
  refine Tracks.bind (tracks_loadBytes hsrc hknown) fun bs T _ ⟨hbs, _⟩ => ?_
  have hstore : Tracks .region r (fun _ T => Known T w q bs.length) T (storeBytes .region d bs : Kernel Unit)
      (storeBytes .region d' bs) := tracks_storeBytes hdst (by rw [hbs]; exact hwrite)
  rwa [hbs] at hstore

/-! ## Elementwise kernels -/

lemma tracks_mapKernel {f : Float32 → Float32} {a oa c oc pa pa' pc pc' n : ℕ} (hpa : r.At a oa pa pa')
    (hpc : r.At c oc pc pc') (ha : Known S a oa (4 * n)) (hc : r.Writable c oc (4 * n)) :
    Tracks .region r (fun _ T => Known T c oc (4 * n)) S (mapKernel f pa pc n) (mapKernel f pa' pc' n) := by
  refine tracks_forUpTo (I := fun i T => Known T c oc (4 * i)) known_zero fun i T hST hi hT => ?_
  refine Tracks.bind (tracks_loadF32 hpa (ha.mono hST) (by omega)) fun x T' hle _ => ?_
  exact (tracks_storeF32 hpc hc (by omega)).grow.mono fun _ _ h => known_snoc (hT.mono (hle.trans h.1)) h.2

lemma tracks_zipKernel {f : Float32 → Float32 → Float32} {a oa b ob c oc pa pa' pb pb' pc pc' n : ℕ}
    (hpa : r.At a oa pa pa') (hpb : r.At b ob pb pb') (hpc : r.At c oc pc pc') (ha : Known S a oa (4 * n))
    (hb : Known S b ob (4 * n)) (hc : r.Writable c oc (4 * n)) :
    Tracks .region r (fun _ T => Known T c oc (4 * n)) S (zipKernel f pa pb pc n)
      (zipKernel f pa' pb' pc' n) := by
  refine tracks_forUpTo (I := fun i T => Known T c oc (4 * i)) known_zero fun i T hST hi hT => ?_
  refine Tracks.bind (tracks_loadF32 hpa (ha.mono hST) (by omega)) fun x T' hle _ => ?_
  refine Tracks.bind (tracks_loadF32 hpb (hb.mono (hST.trans hle)) (by omega)) fun y T'' hle' _ => ?_
  exact (tracks_storeF32 hpc hc (by omega)).grow.mono fun _ _ h =>
    known_snoc (hT.mono (hle.trans (hle'.trans h.1))) h.2

/-! ## Row kernels -/

/-- The softmax kernel reads back the exponentials it has written. -/
lemma tracks_paiRefSoftmaxF32 {a oa c oc pa pa' pc pc' n : ℕ} (hn : n ≠ 0) (hpa : r.At a oa pa pa')
    (hpc : r.At c oc pc pc') (ha : Known S a oa (4 * n)) (hc : r.Writable c oc (4 * n)) :
    Tracks .region r (fun _ T => Known T c oc (4 * n)) S (paiRefSoftmaxF32 pa pc n)
      (paiRefSoftmaxF32 pa' pc' n) := by
  rw [paiRefSoftmaxF32, paiRefSoftmaxF32, if_neg hn, if_neg hn]
  refine Tracks.bind (tracks_loadF32 hpa ha (by omega)) fun first T₁ h₁ _ => ?_
  refine Tracks.bind (R := fun _ _ => True) ?_ fun maxv T₂ h₂ _ => ?_
  · refine tracks_foldFor (I := fun _ _ _ => True) trivial fun maxv i T hT _ hi _ => ?_
    exact Tracks.bind (tracks_loadF32 hpa (ha.mono (h₁.trans hT)) (by omega)) fun x _ _ _ => .ret trivial
  have ha₂ := ha.mono (h₁.trans h₂)
  refine Tracks.bind (R := fun _ T => Known T c oc (4 * n)) ?_ fun sum T₃ _ h₃ => ?_
  · refine (tracks_foldFor (I := fun _ i T => Known T c oc (4 * i)) known_zero
      fun sum i T hT _ hi hI => ?_).mono fun _ _ h => by rwa [Nat.zero_add] at h
    refine Tracks.bind (tracks_loadF32 hpa (ha₂.mono hT) (by omega)) fun x T' hle _ => ?_
    refine Tracks.bind (tracks_storeF32 hpc hc (by omega)) fun _ T'' hle' hT'' => ?_
    exact .ret (known_snoc (hI.mono (hle.trans hle')) hT'')
  · refine (tracks_forUpTo (I := fun _ _ => True) trivial fun i T hT hi _ => ?_).grow.mono
      fun _ _ h => h₃.mono h.1
    refine Tracks.bind (tracks_loadF32 hpc (h₃.mono hT) (by omega)) fun x _ _ _ => ?_
    exact (tracks_storeF32 hpc hc (by omega)).mono fun _ _ _ => trivial

lemma tracks_sumSquares {a oa pa pa' n : ℕ} (hpa : r.At a oa pa pa') (ha : Known S a oa (4 * n)) :
    Tracks .region r (fun _ _ => True) S (sumSquares pa n) (sumSquares pa' n) := by
  refine tracks_foldFor (I := fun _ _ _ => True) trivial fun acc i T hT _ hi _ => ?_
  exact Tracks.bind (tracks_loadF32 hpa (ha.mono hT) (by omega)) fun x _ _ _ => .ret trivial

lemma tracks_paiRefRmsnormF32 {a oa c oc pa pa' pc pc' n : ℕ} (hn : n ≠ 0) (hpa : r.At a oa pa pa')
    (hpc : r.At c oc pc pc') (ha : Known S a oa (4 * n)) (hc : r.Writable c oc (4 * n)) :
    Tracks .region r (fun _ T => Known T c oc (4 * n)) S (paiRefRmsnormF32 pa pc n)
      (paiRefRmsnormF32 pa' pc' n) := by
  rw [paiRefRmsnormF32, paiRefRmsnormF32, if_neg hn, if_neg hn]
  exact Tracks.bind (tracks_sumSquares hpa ha) fun acc T hT _ => tracks_mapKernel hpa hpc (ha.mono hT) hc

lemma tracks_paiRefRmsnormGammaF32 {a oa c oc g og pa pa' pc pc' pg pg' n : ℕ} (hn : n ≠ 0)
    (hpa : r.At a oa pa pa') (hpc : r.At c oc pc pc') (hpg : r.At g og pg pg') (ha : Known S a oa (4 * n))
    (hg : Known S g og (4 * n)) (hc : r.Writable c oc (4 * n)) :
    Tracks .region r (fun _ T => Known T c oc (4 * n)) S (paiRefRmsnormGammaF32 pa pc n pg)
      (paiRefRmsnormGammaF32 pa' pc' n pg') := by
  rw [paiRefRmsnormGammaF32, paiRefRmsnormGammaF32, if_neg hn, if_neg hn]
  exact Tracks.bind (tracks_sumSquares hpa ha) fun acc T hT _ =>
    tracks_zipKernel hpa hpg hpc (ha.mono hT) (hg.mono hT) hc

lemma tracks_paiRefLayernormF32 {a oa c oc pa pa' pc pc' n : ℕ} (hn : n ≠ 0) (hpa : r.At a oa pa pa')
    (hpc : r.At c oc pc pc') (ha : Known S a oa (4 * n)) (hc : r.Writable c oc (4 * n)) :
    Tracks .region r (fun _ T => Known T c oc (4 * n)) S (paiRefLayernormF32 pa pc n)
      (paiRefLayernormF32 pa' pc' n) := by
  rw [paiRefLayernormF32, paiRefLayernormF32, if_neg hn, if_neg hn]
  refine Tracks.bind (R := fun _ _ => True) ?_ fun acc T hT _ => tracks_mapKernel hpa hpc (ha.mono hT) hc
  refine tracks_foldFor (I := fun _ _ _ => True) trivial fun acc i T hT _ hi _ => ?_
  exact Tracks.bind (tracks_loadF32 hpa (ha.mono hT) (by omega)) fun x _ _ _ => .ret trivial

/-! ## Copies -/

lemma tracks_paiRefConcatF32 {a oa b ob c oc pa pa' pb pb' pc pc' na nb : ℕ}
    (hfit : 4 * (na + nb) < 0x10000000000000000) (hpa : r.At a oa pa pa') (hpb : r.At b ob pb pb')
    (hpc : r.At c oc pc pc') (ha : Known S a oa (4 * na)) (hb : Known S b ob (4 * nb))
    (hc : r.Writable c oc (4 * (na + nb))) :
    Tracks .region r (fun _ T => Known T c oc (4 * (na + nb))) S (paiRefConcatF32 pa pb pc na nb)
      (paiRefConcatF32 pa' pb' pc' na nb) := by
  have hna : u64 (na * 4) = 4 * na := by rw [u64_of_lt (by omega), Nat.mul_comm]
  have hnb : u64 (nb * 4) = 4 * nb := by rw [u64_of_lt (by omega), Nat.mul_comm]
  unfold paiRefConcatF32
  rw [hna, hnb]
  have hfirst : r.Writable c oc (4 * na) := hc.part (k := 0) (by omega)
  refine Tracks.bind (tracks_copyBytes hpa hpc ha hfirst) fun _ T hT hdone => ?_
  refine (tracks_copyBytes hpb (hpc.shift (4 * na)) (hb.mono hT) (hc.part (by omega))).grow.mono fun _ _ h => ?_
  rw [Nat.mul_add]
  exact (hdone.mono h.1).append h.2

/-- Input and output lie apart on both sides or on neither. -/
lemma tracks_paiRefCopyF32 {a oa c oc pa pa' pc pc' n : ℕ} (hfit : 4 * n < 0x10000000000000000)
    (hpa : r.At a oa pa pa') (hpc : r.At c oc pc pc') (hne : pa ≠ pc) (hne' : pa' ≠ pc')
    (ha : Known S a oa (4 * n)) (hc : r.Writable c oc (4 * n)) :
    Tracks .region r (fun _ T => Known T c oc (4 * n)) S (paiRefCopyF32 pa pc n) (paiRefCopyF32 pa' pc' n) := by
  have hn : u64 (n * 4) = 4 * n := by rw [u64_of_lt (by omega), Nat.mul_comm]
  unfold paiRefCopyF32
  rw [hn]
  by_cases hzero : n = 0
  · subst hzero
    rw [if_neg (by tauto), if_neg (by tauto)]
    exact .ret known_zero
  · rw [if_pos ⟨hne, hzero⟩, if_pos ⟨hne', hzero⟩]
    exact tracks_copyBytes hpa hpc ha hc

/-! ## Matrix product -/

lemma tracks_paiRefGemmF32 {m n k a b c pa pa' pb pb' pc pc' : ℕ} (hm : m ≠ 0) (hn : n ≠ 0) (hk : k ≠ 0)
    (hfit : 4 * (m * n) < 0x10000000000000000) (hpa : r.At a 0 pa pa') (hpb : r.At b 0 pb pb')
    (hpc : r.At c 0 pc pc') (ha : Known S a 0 (4 * (m * k))) (hb : Known S b 0 (4 * (k * n)))
    (hc : r.Writable c 0 (4 * (m * n))) :
    Tracks .region r (fun _ T => Known T c 0 (4 * (m * n))) S (paiRefGemmF32 m n k pa pb pc)
      (paiRefGemmF32 m n k pa' pb' pc') := by
  rw [paiRefGemmF32, paiRefGemmF32, if_neg (by tauto), if_neg (by tauto)]
  refine tracks_forUpTo (I := fun i T => Known T c 0 (4 * (i * n))) ?_ fun i T hT hi hI => ?_
  · rw [Nat.zero_mul]
    exact known_zero
  rw [Nat.add_mul, Nat.one_mul]
  refine tracks_forUpTo (I := fun j T => Known T c 0 (4 * (i * n + j))) hI fun j T' hT' hj hJ => ?_
  have hz := rowIndex_lt hi hj
  refine Tracks.bind (R := fun _ _ => True) ?_ fun sum T'' hle _ => ?_
  · refine tracks_foldFor (I := fun _ _ _ => True) trivial fun sum l T₁ h₁ _ hl _ => ?_
    have hx := rowIndex_lt hi (show l < k by omega)
    have hy := rowIndex_lt (show l < k by omega) hj
    have hxw := u64_le (i * k + l)
    have hyw := u64_le (l * n + j)
    have hall := hT.trans (hT'.trans h₁)
    refine Tracks.bind (tracks_loadF32 hpa (ha.mono hall) (by omega)) fun x T₂ h₂ _ => ?_
    exact Tracks.bind (tracks_loadF32 hpb (hb.mono (hall.trans h₂)) (by omega)) fun y _ _ _ => .ret trivial
  · rw [u64_of_lt (by omega)]
    exact (tracks_storeF32 hpc hc (by omega)).grow.mono fun _ _ h => known_snoc (hJ.mono (hle.trans h.1)) h.2

/-! ## Rotary embeddings -/

/-- A row is written in two halves and a rest. -/
lemma tracks_ropeRow {x ox c oc co si pxr pxr' porow porow' pcos pcos' psin psin' hd p r2 ctx : ℕ}
    (hle : 2 * r2 ≤ hd) (hfit : hd < 0x10000000000000000) (hp : p < ctx) (hpx : r.At x ox pxr pxr')
    (hpc : r.At c oc porow porow') (hpco : r.At co 0 pcos pcos') (hpsi : r.At si 0 psin psin')
    (hx : Known S x ox (4 * hd)) (hco : Known S co 0 (4 * (ctx * r2))) (hsi : Known S si 0 (4 * (ctx * r2)))
    (hc : r.Writable c oc (4 * hd)) :
    Tracks .region r (fun _ T => Known T c oc (4 * hd)) S (ropeRow pxr porow hd p pcos psin r2)
      (ropeRow pxr' porow' hd p pcos' psin' r2) := by
  unfold ropeRow
  rw [u64_of_lt (show 2 * r2 < 0x10000000000000000 by omega)]
  refine Tracks.bind (R := fun _ T => Known T c oc (4 * r2) ∧ Known T c (oc + 4 * r2) (4 * r2)) ?_
    fun _ T hT hhalves => ?_
  · refine tracks_forUpTo (I := fun i T => Known T c oc (4 * i) ∧ Known T c (oc + 4 * r2) (4 * i))
      ⟨known_zero, known_zero⟩ fun i T hT hi hI => ?_
    have ht := rowIndex_lt hp hi
    have htw := u64_le (p * r2 + i)
    refine Tracks.bind (tracks_loadF32 hpco (hco.mono hT) (by omega)) fun _ T₁ h₁ _ => ?_
    refine Tracks.bind (tracks_loadF32 hpsi (hsi.mono (hT.trans h₁)) (by omega)) fun _ T₂ h₂ _ => ?_
    have hx₂ := hx.mono (hT.trans (h₁.trans h₂))
    refine Tracks.bind (tracks_loadF32 hpx hx₂ (by omega)) fun _ T₃ h₃ _ => ?_
    refine Tracks.bind (tracks_loadF32 hpx (hx₂.mono h₃) (by omega)) fun _ T₄ h₄ _ => ?_
    have h₀₄ := h₁.trans (h₂.trans (h₃.trans h₄))
    refine Tracks.bind (tracks_storeF32 hpc hc (by omega)) fun _ T₅ h₅ hlow => ?_
    refine (tracks_storeF32 hpc hc (by omega)).grow.mono fun _ T₆ h => ⟨?_, ?_⟩
    · exact known_snoc (hI.1.mono (h₀₄.trans (h₅.trans h.1))) (hlow.mono h.1)
    · refine known_snoc (hI.2.mono (h₀₄.trans (h₅.trans h.1))) ?_
      have hhigh := h.2
      rwa [show oc + 4 * (i + r2) = oc + 4 * r2 + 4 * i by omega] at hhigh
  · refine (tracks_foldFor (I := fun _ i T => Known T c oc (4 * i)) ?_ fun _ i T' hT' hlo hi hI => ?_).mono
      fun _ _ h => by rwa [show 2 * r2 + (hd - 2 * r2) = hd by omega] at h
    · rw [show 4 * (2 * r2) = 4 * r2 + 4 * r2 by omega]
      exact hhalves.1.append hhalves.2
    · refine Tracks.bind (tracks_loadF32 hpx (hx.mono (hT.trans hT')) (by omega)) fun _ T₁ h₁ _ => ?_
      exact (tracks_storeF32 hpc hc (by omega)).grow.mono fun _ _ h => known_snoc (hI.mono (h₁.trans h.1)) h.2

lemma tracks_paiRefRopeF32 {x c co si px px' pcos pcos' psin psin' pc pc' hd seq heads r2 ctx : ℕ} (hhd : hd ≠ 0)
    (hseq : seq ≠ 0) (hheads : heads ≠ 0) (hr2 : r2 ≠ 0) (hle : 2 * r2 ≤ hd) (hctx : seq ≤ ctx)
    (hfit : 4 * (seq * heads * hd) < 0x10000000000000000) (hpx : r.At x 0 px px') (hpco : r.At co 0 pcos pcos')
    (hpsi : r.At si 0 psin psin') (hpc : r.At c 0 pc pc') (hx : Known S x 0 (4 * (seq * heads * hd)))
    (hco : Known S co 0 (4 * (ctx * r2))) (hsi : Known S si 0 (4 * (ctx * r2)))
    (hc : r.Writable c 0 (4 * (seq * heads * hd))) :
    Tracks .region r (fun _ T => Known T c 0 (4 * (seq * heads * hd))) S
      (paiRefRopeF32 px (seq * heads) hd seq heads pcos psin r2 pc)
      (paiRefRopeF32 px' (seq * heads) hd seq heads pcos' psin' r2 pc') := by
  have hrows : seq * heads ≠ 0 := Nat.mul_ne_zero hseq hheads
  have hmod : seq * heads % heads = 0 := Nat.mul_mod_left seq heads
  have hw := u64_le (2 * r2)
  have hgood : ¬ (seq * heads = 0 ∨ hd = 0 ∨ seq = 0 ∨ heads = 0 ∨ r2 = 0 ∨ hd < u64 (2 * r2) ∨
      seq * heads % heads ≠ 0) := by
    simp only [not_or, not_lt, not_not]
    exact ⟨hrows, hhd, hseq, hheads, hr2, by omega, hmod⟩
  rw [paiRefRopeF32, paiRefRopeF32, if_neg hgood, if_neg hgood]
  refine tracks_forUpTo (I := fun row T => Known T c 0 (4 * (row * hd))) ?_ fun row T hT hrow hI => ?_
  · rw [Nat.zero_mul]
    exact known_zero
  have hpos : row / heads < seq := Nat.div_lt_of_lt_mul (by rw [Nat.mul_comm]; exact hrow)
  have hend : row * hd + hd ≤ seq * heads * hd := by
    calc row * hd + hd = (row + 1) * hd := by rw [Nat.add_mul, Nat.one_mul]
      _ ≤ seq * heads * hd := Nat.mul_le_mul_right hd hrow
  rw [u64_of_lt (show row * hd < 0x10000000000000000 by omega)]
  refine (tracks_ropeRow hle (by omega) (by omega) (hpx.shift (4 * (row * hd))) (hpc.shift (4 * (row * hd)))
    hpco hpsi ((hx.mono hT).part (by omega)) (hco.mono hT) (hsi.mono hT) (hc.part (by omega))).grow.mono
    fun _ T' h => ?_
  rw [Nat.add_mul, Nat.one_mul, Nat.mul_add]
  exact (hI.mono h.1).append h.2

/-! ## Attention -/

lemma tracks_attentionHead {hk hd p kvh pq pq' pk pk' pv pv' po po' seq q oq k v c oc : ℕ} {invScale : Float32}
    (hp : p < seq) (hkvh : kvh < hk) (hpq : r.At q oq pq pq') (hpk : r.At k 0 pk pk') (hpv : r.At v 0 pv pv')
    (hpc : r.At c oc po po') (hq : Known S q oq (4 * hd)) (hkey : Known S k 0 (4 * (seq * hk * hd)))
    (hval : Known S v 0 (4 * (seq * hk * hd))) (hc : r.Writable c oc (4 * hd)) :
    Tracks .region r (fun _ T => Known T c oc (4 * hd)) S (attentionHead hk hd p kvh pq pk pv po invScale)
      (attentionHead hk hd p kvh pq' pk' pv' po' invScale) := by
  have hrow : ∀ i, i < p + 1 → (i * hk + kvh) * hd + hd ≤ seq * hk * hd := by
    intro i hi
    calc (i * hk + kvh) * hd + hd = (i * hk + kvh + 1) * hd := by rw [Nat.add_mul _ 1, Nat.one_mul]
      _ ≤ seq * hk * hd := Nat.mul_le_mul_right hd (rowIndex_lt (by omega) hkvh)
  refine Tracks.bind (R := fun _ _ => True) ?_ fun scores T hT _ => ?_
  · refine tracks_foldFor (I := fun _ _ _ => True) trivial fun scores i T hT _ hi _ => ?_
    refine Tracks.bind (R := fun _ _ => True) ?_ fun dot _ _ _ => .ret trivial
    refine tracks_foldFor (I := fun _ _ _ => True) trivial fun dot d T' hT' _ hd' _ => ?_
    have hend := hrow i (by omega)
    have hw := u64_le ((i * hk + kvh) * hd)
    have hkeyRow : Known S k (0 + 4 * u64 ((i * hk + kvh) * hd)) (4 * hd) := hkey.part (by omega)
    refine Tracks.bind (tracks_loadF32 hpq (hq.mono (hT.trans hT')) (by omega)) fun x T₁ h₁ _ => ?_
    exact Tracks.bind (tracks_loadF32 (hpk.shift _) (hkeyRow.mono (hT.trans (hT'.trans h₁))) (by omega))
      fun y _ _ _ => .ret trivial
  · refine tracks_forUpTo (I := fun d T => Known T c oc (4 * d)) known_zero fun d T' hT' hd' hI => ?_
    refine Tracks.bind (R := fun _ _ => True) ?_ fun acc T₁ h₁ _ => ?_
    · refine tracks_foldFor (I := fun _ _ _ => True) trivial fun acc i T₁ h₁ _ hi _ => ?_
      have hend := hrow i (by omega)
      have hw := u64_le ((i * hk + kvh) * hd + d)
      exact Tracks.bind (tracks_loadF32 hpv (hval.mono (hT.trans (hT'.trans h₁))) (by omega))
        fun x _ _ _ => .ret trivial
    · exact (tracks_storeF32 hpc hc (by omega)).grow.mono fun _ _ h => known_snoc (hI.mono (h₁.trans h.1)) h.2

lemma tracks_paiRefAttentionF32 {malloc : ℕ → Bool} {h hk seq hd q k v c pq pq' pk pk' pv pv' pc pc' : ℕ}
    (hh0 : h ≠ 0) (hk0 : hk ≠ 0) (hseq : seq ≠ 0) (hhd : hd ≠ 0) (hmod : h % hk = 0)
    (hmalloc : malloc (u64 (seq * 4)) = true) (hfit : 4 * (seq * h * hd) < 0x10000000000000000)
    (hpq : r.At q 0 pq pq') (hpk : r.At k 0 pk pk') (hpv : r.At v 0 pv pv') (hpc : r.At c 0 pc pc')
    (hq : Known S q 0 (4 * (seq * h * hd))) (hkey : Known S k 0 (4 * (seq * hk * hd)))
    (hval : Known S v 0 (4 * (seq * hk * hd))) (hc : r.Writable c 0 (4 * (seq * h * hd))) :
    Tracks .region r (fun _ T => Known T c 0 (4 * (seq * h * hd))) S
      (paiRefAttentionF32 malloc h hk seq hd pq pk pv pc)
      (paiRefAttentionF32 malloc h hk seq hd pq' pk' pv' pc') := by
  have hgood : ¬ (h = 0 ∨ hk = 0 ∨ seq = 0 ∨ hd = 0 ∨ h % hk ≠ 0) := by tauto
  have hroom : ¬ malloc (u64 (seq * 4)) = false := by rw [hmalloc]; decide
  rw [paiRefAttentionF32, paiRefAttentionF32, if_neg hgood, if_neg hgood, if_neg hroom, if_neg hroom]
  refine tracks_forUpTo (I := fun p T => Known T c 0 (4 * (p * h * hd))) ?_ fun p T hT hp hI => ?_
  · rw [Nat.zero_mul, Nat.zero_mul]
    exact known_zero
  rw [Nat.add_mul p 1, Nat.one_mul]
  refine tracks_forUpTo (I := fun hh T => Known T c 0 (4 * ((p * h + hh) * hd))) hI fun hh T' hT' hhh hJ => ?_
  have hkvh : u64 (hh * hk) / h < hk := by
    apply Nat.div_lt_of_lt_mul
    have hlt := Nat.mul_lt_mul_of_pos_right hhh (Nat.pos_of_ne_zero hk0)
    have hw := u64_le (hh * hk)
    omega
  have hnext : (p * h + (hh + 1)) * hd = (p * h + hh) * hd + hd := by
    rw [← Nat.add_assoc, Nat.add_mul _ 1, Nat.one_mul]
  have hend : (p * h + hh) * hd + hd ≤ seq * h * hd := by
    rw [← hnext]
    exact Nat.mul_le_mul_right hd (rowIndex_lt hp hhh)
  have hall := hT.trans hT'
  rw [u64_of_lt (show (p * h + hh) * hd < 0x10000000000000000 by omega)]
  refine (tracks_attentionHead hp hkvh (hpq.shift (4 * ((p * h + hh) * hd))) hpk hpv
    (hpc.shift (4 * ((p * h + hh) * hd))) ((hq.mono hall).part (by omega)) (hkey.mono hall) (hval.mono hall)
    (hc.part (by omega))).grow.mono fun _ T'' hdone => ?_
  rw [hnext, Nat.mul_add]
  exact (hJ.mono hdone.1).append hdone.2

end Tracks

end Prospero
