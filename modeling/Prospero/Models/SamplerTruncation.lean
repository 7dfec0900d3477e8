import Mathlib.Algebra.BigOperators.Group.Finset.Basic
import Mathlib.Algebra.Order.BigOperators.Group.Finset
import Mathlib.Algebra.Order.Field.Rat
import Prospero.Lib.ExchangeSort
import Prospero.Models.Sampler
import Prospero.Status

/-!
# Sampling from truncated probabilities

`pai_sampler_sample_probs` in exact arithmetic.  The probabilities are sorted, cut off behind `top_k` entries,
cut off again where their mass reaches `top_p`, renormalised, and searched for a random number.

### Outline

* the function, loop by loop;
* `IsCut` says where the list is cut off, `Drawn` which entry a number draws;
* one lemma a loop: `sortDesc_spec`, `topPLoop_isCut`, `cdf_eq`, `searchCdf_spec`;
* `paiSamplerSampleProbs_spec`.  With `top_p = 1` the second cut is disabled, which makes no difference unless
  the probabilities have a mass above one.
-/

namespace Prospero

open Binary64 Finset

section Definitions

variable {K : Type*} [Field K] [LinearOrder K]

/-- The greedy loop: the first largest of `n` numbers. -/
def argmaxLoop (probs : ℕ → K) (n : ℕ) : ℕ :=
  ((List.range' 1 (n - 1)).foldl
    (fun best i => if best.1 < probs i then (probs i, i) else best) (probs 0, 0)).2

/-- The inner loop of `sort_desc`. -/
def sortDescStep (vals : ℕ → K) (i : ℕ) (order : ℕ → ℕ) (j : ℕ) : ℕ → ℕ :=
  if vals (order i) < vals (order j) then
    let tmp := order i
    Function.update (Function.update order i (order j)) j tmp
  else order

/-- `sort_desc`. -/
def sortDesc (vals : ℕ → K) (n : ℕ) : ℕ → ℕ :=
  (List.range n).foldl
    (fun order i => (List.range' (i + 1) (n - (i + 1))).foldl (sortDescStep vals i) order) id

/-- The number of entries that `top_k` keeps. -/
def keepTopK (topK : UInt32) (n : ℕ) : ℕ := if 0 < topK ∧ topK.toNat < n then topK.toNat else n

/-- The loop of `top_p`, with `left` entries left to keep. -/
def topPLoop (w : ℕ → K) (order : ℕ → ℕ) (topP : K) : ℕ → ℕ → K → ℕ
  | 0, k, _ => k
  | left + 1, k, acc => if acc < topP then topPLoop w order topP left (k + 1) (acc + w (order k)) else k

/-- The number of entries that `top_p` keeps. -/
def keepTopP (w : ℕ → K) (order : ℕ → ℕ) (topP : K) (keep : ℕ) : ℕ :=
  if topP < 1 then
    let k := topPLoop w order topP keep 0 0
    if 0 < k then k else keep
  else keep

/-- `cdf[i]`. -/
def cdf (w : ℕ → K) (order : ℕ → ℕ) (sum : K) : ℕ → K
  | 0 => w (order 0) / sum
  | i + 1 => cdf w order sum i + w (order (i + 1)) / sum

/-- The search for `r`, with `left` entries left. -/
def searchCdf (cdf : ℕ → K) (order : ℕ → ℕ) (keep : ℕ) (r : K) : ℕ → ℕ → ℕ
  | 0, _ => order (keep - 1)
  | left + 1, i => if r ≤ cdf i then order i else searchCdf cdf order keep r left (i + 1)

/-- The number that `pai_sampler_next_double` makes of a draw. -/
def samplerDouble (next : UInt64) : K := ((next >>> 11).toNat : K) * (1 / 9007199254740992)

/-- `pai_sampler_sample_probs` on `n` probabilities.  `malloc` says which of its allocations succeed. -/
def paiSamplerSampleProbs (malloc : Fin 3 → Bool) (sampler : PaiSampler K) (probs : ℕ → K) (n : UInt32) :
    Except PaiStatus ℕ × PaiSampler K :=
  if n = 0 ∨ sampler.temperature < 0 then (.error paiErrInvalidArg, sampler)
  else if sampler.temperature = 0 then (.ok (argmaxLoop probs n.toNat), sampler)
  else if (malloc 0 && malloc 1 && malloc 2) = false then (.error paiErrNomem, sampler)
  else
    let order := sortDesc probs n.toNat
    let keep := keepTopP probs order sampler.topP (keepTopK sampler.topK n.toNat)
    let sum := (List.range keep).foldl (fun sum i => sum + probs (order i)) 0
    if sum ≤ 0 then (.error paiErrInvalidArg, sampler)
    else
      let (next, sampler) := paiSamplerNextU64 sampler
      (.ok (searchCdf (cdf probs order sum) order keep (samplerDouble next) keep 0), sampler)

end Definitions

/-! ## What is drawn -/

section Meaning

variable {K : Type*} [Field K] [LinearOrder K]

/-- The places of `n` numbers in descending order. -/
structure Descending (probs : ℕ → K) (n : ℕ) (order : ℕ → ℕ) : Prop where
  /-- Every number has one place. -/
  bijOn : Set.BijOn order (Set.Iio n) (Set.Iio n)
  /-- The numbers descend. -/
  sorted : ∀ p q, p ≤ q → q < n → probs (order q) ≤ probs (order p)

/-- The mass of the first `k` entries. -/
def mass (w : ℕ → K) (k : ℕ) : K := ∑ i ∈ range k, w i

/-- The smallest number of entries whose mass reaches `topP`, or the limit. -/
structure IsCut (limit : ℕ) (topP : K) (w : ℕ → K) (k : ℕ) : Prop where
  /-- There is an entry. -/
  pos : 0 < k
  /-- There are at most as many as the limit. -/
  le_limit : k ≤ limit
  /-- The mass reaches the threshold, or the limit is reached. -/
  reaches : k = limit ∨ topP ≤ mass w k
  /-- Fewer entries do not reach it. -/
  first : ∀ j < k, mass w j < topP

/-- `r` draws entry `i` of the first `k`: it lies in the interval of the entry, after renormalising. -/
structure Drawn (w : ℕ → K) (k : ℕ) (r : K) (i : ℕ) : Prop where
  /-- It is one of the entries. -/
  lt : i < k
  /-- It is not impossible. -/
  pos : 0 < w i
  /-- The intervals of the earlier entries are below `r`. -/
  below : i = 0 ∨ mass w i / mass w k < r
  /-- Its own interval is not. -/
  le : r ≤ mass w (i + 1) / mass w k

/-- `r` draws the number `id` from the entries that stay, of the numbers in descending order. -/
def Samples (probs : ℕ → K) (n : ℕ) (cut : (ℕ → K) → ℕ → Prop) (r : K) (id : ℕ) : Prop :=
  ∃ order k i, Descending probs n order ∧ cut (fun i => probs (order i)) k ∧
    Drawn (fun i => probs (order i)) k r i ∧ order i = id ∧ id < n

end Meaning

/-! ## Sorting -/

section Sorting

variable {K : Type*} [LinearOrder K]

/-- The assignments through `tmp` exchange two places. -/
lemma sortDescStep_eq [Field K] (vals : ℕ → K) (i : ℕ) :
    sortDescStep vals i = ExchangeSort.step vals i := by
  funext order j
  unfold sortDescStep ExchangeSort.step
  split_ifs
  · rw [Equiv.swap_comm, Equiv.comp_swap_eq_update]
  · rfl

/-- The numbers are sorted. -/
lemma sortDesc_spec [Field K] (vals : ℕ → K) (n : ℕ) : Descending vals n (sortDesc vals n) := by
  have heq : sortDesc vals n = ExchangeSort.sort vals n id := by
    unfold sortDesc ExchangeSort.sort ExchangeSort.round
    simp only [sortDescStep_eq]
  rw [heq]
  obtain ⟨⟨σ, hσ, hfix⟩, hsorted⟩ := ExchangeSort.sort_spec vals n id
  rw [Function.id_comp] at hσ
  refine ⟨?_, hsorted⟩
  rw [hσ]
  have hlt : ∀ k, σ k < n ↔ k < n := by
    intro k
    by_contra hne
    rcases Nat.lt_or_ge k n with hk | hk
    · have hge : n ≤ σ k := by
        by_contra hlt
        exact hne ⟨fun _ => hk, fun _ => by omega⟩
      have hsame := σ.injective (hfix (σ k) (Or.inr hge))
      omega
    · exact hne (by rw [hfix k (Or.inr hk)])
  refine ⟨fun k hk => (hlt k).mpr hk, σ.injective.injOn, fun k hk => ⟨σ.symm k, ?_, σ.apply_symm_apply k⟩⟩
  exact (hlt _).mp (by rw [σ.apply_symm_apply]; exact hk)

end Sorting

/-! ## Masses -/

section Mass

variable {K : Type*} [Field K] {w : ℕ → K} {limit k : ℕ}

@[simp] lemma mass_zero (w : ℕ → K) : mass w 0 = 0 := sum_range_zero w

lemma mass_succ (w : ℕ → K) (k : ℕ) : mass w (k + 1) = mass w k + w k := sum_range_succ w k

/-- The loop of the sum. -/
lemma foldl_mass (w : ℕ → K) (k : ℕ) : (List.range k).foldl (fun sum i => sum + w i) 0 = mass w k := by
  induction k with
  | zero => exact (mass_zero w).symm
  | succ k ih => rw [List.range_succ, List.foldl_append, List.foldl_cons, List.foldl_nil, ih, mass_succ]

/-- The renormalised cumulative distribution. -/
lemma cdf_eq (w : ℕ → K) (order : ℕ → ℕ) (sum : K) (i : ℕ) :
    cdf w order sum i = mass (fun i => w (order i)) (i + 1) / sum := by
  induction i with
  | zero => rw [cdf, mass_succ, mass_zero, zero_add]
  | succ i ih => rw [cdf, ih, mass_succ _ (i + 1), add_div]

variable [LinearOrder K]

/-- The order of the numbers does not change their mass. -/
lemma mass_comp {probs : ℕ → K} {n : ℕ} {order : ℕ → ℕ} (h : Descending probs n order) :
    mass (fun i => probs (order i)) n = mass probs n := by
  refine sum_bij (fun i _ => order i) (fun i hi => ?_) (fun i hi j hj heq => ?_) (fun k hk => ?_)
    fun _ _ => rfl
  · exact mem_range.mpr (h.bijOn.mapsTo (mem_range.mp hi))
  · exact h.bijOn.injOn (mem_range.mp hi) (mem_range.mp hj) heq
  · obtain ⟨i, hi, heq⟩ := h.bijOn.surjOn (mem_range.mp hk)
    exact ⟨i, mem_range.mpr hi, heq⟩

variable [IsStrictOrderedRing K]

/-- Masses of nonnegative entries grow. -/
lemma mass_le {j : ℕ} (hw : ∀ i < k, 0 ≤ w i) (h : j ≤ k) : mass w j ≤ mass w k :=
  sum_le_sum_of_subset_of_nonneg (range_subset_range.mpr h) fun i hi _ => hw i (mem_range.mp hi)

/-- The largest of some numbers with a mass is positive. -/
lemma head_pos {probs : ℕ → K} {n : ℕ} {order : ℕ → ℕ} (h : Descending probs n order)
    (hsum : 0 < mass probs n) : 0 < probs (order 0) := by
  by_contra hneg
  rw [← mass_comp h] at hsum
  refine absurd (sum_nonpos fun i hi => ?_) (not_le.mpr hsum)
  exact (h.sorted 0 i (Nat.zero_le i) (mem_range.mp hi)).trans (not_lt.mp hneg)

end Mass

/-! ## The loops -/

section Exact

variable {K : Type*} [LinearOrder K]

/-- The search returns the first entry that is not below `r`. -/
lemma searchCdf_spec {cdf : ℕ → K} {order : ℕ → ℕ} {keep left i last : ℕ} {r : K} (hi : i ≤ last)
    (hlast : last < i + left) (hr : r ≤ cdf last) :
    ∃ j, i ≤ j ∧ j < i + left ∧ searchCdf cdf order keep r left i = order j ∧ r ≤ cdf j ∧
      ∀ p, i ≤ p → p < j → cdf p < r := by
  induction left generalizing i with
  | zero => omega
  | succ left ih =>
    unfold searchCdf
    split_ifs with hle
    · exact ⟨i, le_rfl, by omega, rfl, hle, fun p hp hpi => absurd hpi (by omega)⟩
    · have hne : i ≠ last := fun heq => hle (heq ▸ hr)
      obtain ⟨j, hij, hj, hsearch, hrj, hbelow⟩ := ih (i := i + 1) (by omega) (by omega)
      refine ⟨j, by omega, by omega, hsearch, hrj, fun p hp hpj => ?_⟩
      rcases Nat.lt_or_eq_of_le hp with hlt | rfl
      · exact hbelow p hlt hpj
      · exact not_le.mp hle

variable [Field K]

/-- The loop stops at the first count that reaches the threshold, or at the limit. -/
lemma topPLoop_spec {w : ℕ → K} {order : ℕ → ℕ} {topP : K} {left k : ℕ}
    (h : ∀ j < k, mass (fun i => w (order i)) j < topP) :
    let cut := topPLoop w order topP left k (mass (fun i => w (order i)) k)
    k ≤ cut ∧ cut ≤ k + left ∧ (cut = k + left ∨ topP ≤ mass (fun i => w (order i)) cut) ∧
      ∀ j < cut, mass (fun i => w (order i)) j < topP := by
  induction left generalizing k with
  | zero => exact ⟨le_rfl, le_rfl, Or.inl rfl, h⟩
  | succ left ih =>
    unfold topPLoop
    split_ifs with hlt
    · rw [← mass_succ (fun i => w (order i)) k]
      obtain ⟨hk, hle, hreach, hfirst⟩ := ih (k := k + 1) fun j hj =>
        (Nat.lt_succ_iff_lt_or_eq.mp hj).elim (h j) fun heq => heq ▸ hlt
      refine ⟨by omega, by omega, hreach.imp_left fun heq => ?_, hfirst⟩
      omega
    · exact ⟨le_rfl, by omega, Or.inr (not_lt.mp hlt), h⟩

/-- The loop cuts the list off. -/
lemma topPLoop_isCut (w : ℕ → K) (order : ℕ → ℕ) {topP : K} {limit : ℕ} (hlimit : 0 < limit)
    (htopP : 0 < topP) :
    IsCut limit topP (fun i => w (order i)) (topPLoop w order topP limit 0 0) := by
  have hspec := @topPLoop_spec K _ _ w order topP limit 0 fun j hj => absurd hj (Nat.not_lt_zero j)
  rw [mass_zero, Nat.zero_add] at hspec
  obtain ⟨-, hle, hreach, hfirst⟩ := hspec
  refine ⟨Nat.pos_of_ne_zero fun hzero => ?_, hle, hreach, hfirst⟩
  rcases hreach with heq | hreach
  · omega
  · rw [hzero, mass_zero] at hreach
    exact absurd htopP (not_lt.mpr hreach)

lemma keepTopK_pos (topK : UInt32) {n : ℕ} (hn : 0 < n) : 0 < keepTopK topK n ∧ keepTopK topK n ≤ n := by
  unfold keepTopK
  split_ifs with h
  · exact ⟨UInt32.lt_iff_toNat_lt.mp h.1, h.2.le⟩
  · exact ⟨hn, le_rfl⟩

/-! ## The draw -/

variable [IsStrictOrderedRing K]

/-- The number of a draw is the double that `pai_sampler_next_double` returns. -/
lemma is_samplerDouble (sampler : PaiSampler ℚ) :
    Is (paiSamplerNextDouble sampler).1 (samplerDouble (paiSamplerNextU64 sampler).1) := by
  rw [samplerDouble, mul_one_div]
  exact is_paiSamplerNextDouble sampler

/-- The number of a draw lies in `[0, 1)`. -/
lemma samplerDouble_mem (next : UInt64) : 0 ≤ (samplerDouble next : K) ∧ (samplerDouble next : K) < 1 := by
  have hlt : ((next >>> 11).toNat : K) < 9007199254740992 := by
    have hcast : ((next >>> 11).toNat : K) < ((2 ^ 53 : ℕ) : K) := by exact_mod_cast toNat_upper_lt next
    rwa [show ((2 ^ 53 : ℕ) : K) = 9007199254740992 by norm_num] at hcast
  unfold samplerDouble
  rw [mul_one_div, div_lt_one (by norm_num)]
  exact ⟨div_nonneg (Nat.cast_nonneg _) (by norm_num), hlt⟩

/-- The search draws an entry. -/
lemma exists_drawn {probs : ℕ → K} {n k : ℕ} {order : ℕ → ℕ} {r : K} (h : Descending probs n order)
    (hprobs : ∀ i < n, 0 ≤ probs i) (hsum : 0 < mass probs n) (hk : 0 < k) (hkn : k ≤ n) (hr : r < 1) :
    ∃ i, searchCdf (cdf probs order (mass (fun i => probs (order i)) k)) order k r k 0 = order i ∧
      Drawn (fun i => probs (order i)) k r i := by
  have hw : ∀ i < k, 0 ≤ probs (order i) := fun i hi => hprobs _ (h.bijOn.mapsTo (by
    exact Nat.lt_of_lt_of_le hi hkn))
  have hhead := head_pos h hsum
  have htotal : 0 < mass (fun i => probs (order i)) k := by
    have hone := mass_le hw (show 1 ≤ k from hk)
    rw [mass_succ, mass_zero, zero_add] at hone
    exact hhead.trans_le hone
  have hlast : r ≤ cdf probs order (mass (fun i => probs (order i)) k) (k - 1) := by
    rw [cdf_eq, Nat.sub_add_cancel hk, div_self htotal.ne']
    exact hr.le
  obtain ⟨i, -, hi, hsearch, hle, hbelow⟩ :=
    searchCdf_spec (Nat.zero_le (k - 1)) (show k - 1 < 0 + k by omega) hlast
  rw [cdf_eq] at hle
  rcases Nat.eq_zero_or_pos i with rfl | hpos
  · exact ⟨0, hsearch, by omega, hhead, Or.inl rfl, hle⟩
  · have hprev := hbelow (i - 1) (Nat.zero_le _) (by omega)
    rw [cdf_eq, Nat.sub_add_cancel hpos] at hprev
    refine ⟨i, hsearch, by omega, ?_, Or.inr hprev, hle⟩
    have hlt := (div_lt_div_iff_of_pos_right htotal).mp (hprev.trans_le hle)
    rw [mass_succ] at hlt
    exact pos_of_lt_add_right hlt

/-- Without a mass above one, a threshold of one cuts off nothing that could be drawn. -/
lemma Drawn.of_isCut_one {w : ℕ → K} {limit k i : ℕ} {r : K} (h : Drawn w limit r i)
    (hcut : IsCut limit 1 w k) (hw : ∀ i < limit, 0 ≤ w i) (htotal : mass w limit ≤ 1) :
    Drawn w k r i := by
  rcases hcut.reaches with rfl | hreach
  · exact h
  have hsame : mass w k = mass w limit :=
    le_antisymm (mass_le hw hcut.le_limit) (htotal.trans hreach)
  refine ⟨?_, h.pos, ?_, ?_⟩
  · by_contra hge
    have hfront : mass w k ≤ mass w i := mass_le (fun j hj => hw j (hj.trans h.lt)) (not_lt.mp hge)
    have hback : mass w (i + 1) ≤ mass w limit := mass_le hw h.lt
    rw [mass_succ] at hback
    have hpos := h.pos
    linarith
  · rw [hsame]
    exact h.below
  · rw [hsame]
    exact h.le

end Exact

/-- Sampling from probabilities draws, for the random number `r`, the entry in whose interval of the
renormalised cumulative distribution `r` lies, from the entries that stay of the descending order: the
smallest number of them, up to the limit of `top_k`, whose mass reaches `top_p`.  With `top_p = 1` the limit
of `top_k` alone counts, which draws the same as long as the mass of the probabilities is at most one. -/
theorem paiSamplerSampleProbs_spec {K : Type*} [Field K] [LinearOrder K] [IsStrictOrderedRing K]
    (malloc : Fin 3 → Bool) (sampler : PaiSampler K) (probs : ℕ → K) (n : UInt32)
    (hmalloc : ∀ i, malloc i = true) (hn : n ≠ 0) (htemp : 0 < sampler.temperature)
    (htopP : 0 < sampler.topP ∧ sampler.topP ≤ 1) (hprobs : ∀ i < n.toNat, 0 ≤ probs i)
    (hsum : 0 < mass probs n.toNat) :
    ∃ id, paiSamplerSampleProbs malloc sampler probs n = (.ok id, (paiSamplerNextU64 sampler).2) ∧
      (sampler.topP < 1 ∨ mass probs n.toNat ≤ 1 →
        Samples probs n.toNat (IsCut (keepTopK sampler.topK n.toNat) sampler.topP)
          (samplerDouble (paiSamplerNextU64 sampler).1) id) ∧
      (sampler.topP = 1 →
        Samples probs n.toNat (fun _ k => k = keepTopK sampler.topK n.toNat)
          (samplerDouble (paiSamplerNextU64 sampler).1) id) := by
  have hnpos : 0 < n.toNat := Nat.pos_of_ne_zero fun h0 => hn (UInt32.toNat_inj.mp h0)
  obtain ⟨hlimit, hlimitn⟩ := keepTopK_pos sampler.topK hnpos
  have hdesc := sortDesc_spec probs n.toNat
  generalize hlim : keepTopK sampler.topK n.toNat = limit at hlimit hlimitn ⊢
  generalize hr : (samplerDouble (paiSamplerNextU64 sampler).1 : K) = r
  obtain ⟨-, hr1⟩ := samplerDouble_mem (K := K) (paiSamplerNextU64 sampler).1
  rw [hr] at hr1
  -- the number of entries that stay
  have hkeep : ∃ keep, keepTopP probs (sortDesc probs n.toNat) sampler.topP limit = keep ∧
      0 < keep ∧ keep ≤ limit ∧
      (sampler.topP < 1 → IsCut limit sampler.topP (fun i => probs (sortDesc probs n.toNat i)) keep) ∧
      (sampler.topP = 1 → keep = limit) := by
    have hcut := topPLoop_isCut probs (sortDesc probs n.toNat) hlimit htopP.1
    unfold keepTopP
    split_ifs with hlt
    · refine ⟨_, if_pos hcut.pos, hcut.pos, hcut.le_limit, fun _ => hcut, fun heq => ?_⟩
      exact absurd hlt (by rw [heq]; exact lt_irrefl 1)
    · exact ⟨limit, rfl, hlimit, le_rfl, fun h => absurd h hlt, fun _ => rfl⟩
  obtain ⟨keep, hkeepeq, hkeep, hkeeple, hcut, hfull⟩ := hkeep
  obtain ⟨i, hsearch, hdrawn⟩ := exists_drawn hdesc hprobs hsum hkeep (hkeeple.trans hlimitn) hr1
  have hid : sortDesc probs n.toNat i < n.toNat :=
    hdesc.bijOn.mapsTo (Nat.lt_of_lt_of_le hdrawn.lt (hkeeple.trans hlimitn))
  have hw : ∀ j < n.toNat, 0 ≤ probs (sortDesc probs n.toNat j) := fun j hj =>
    hprobs _ (hdesc.bijOn.mapsTo hj)
  have hmass : 0 < mass (fun i => probs (sortDesc probs n.toNat i)) keep := by
    have hone := mass_le (fun j hj => hw j (by omega)) (show 1 ≤ keep from hkeep)
    rw [mass_succ, mass_zero, zero_add] at hone
    exact (head_pos hdesc hsum).trans_le hone
  refine ⟨sortDesc probs n.toNat i, ?_, fun hcase => ?_, fun hone => ?_⟩
  · have hargs : ¬ (n = 0 ∨ sampler.temperature < 0) := not_or.mpr ⟨hn, not_lt.mpr htemp.le⟩
    rw [paiSamplerSampleProbs, if_neg hargs, if_neg htemp.ne',
      if_neg (by rw [hmalloc, hmalloc, hmalloc]; decide)]
    simp only [hlim, hkeepeq, foldl_mass, hr]
    rw [if_neg (not_le.mpr hmass), hsearch]
  · rcases lt_or_eq_of_le htopP.2 with hlt | heq
    · exact ⟨_, keep, i, hdesc, hcut hlt, hdrawn, rfl, hid⟩
    · -- the cut at one keeps what is drawn
      have htotal := hcase.resolve_left (not_lt.mpr heq.ge)
      have hloop := topPLoop_isCut probs (sortDesc probs n.toNat) hlimit htopP.1
      rw [heq] at hloop ⊢
      refine ⟨_, _, i, hdesc, hloop, ?_, rfl, hid⟩
      rw [hfull heq] at hdrawn
      refine hdrawn.of_isCut_one hloop (fun j hj => hw j (by omega)) ?_
      rw [← mass_comp hdesc] at htotal
      exact (mass_le hw hlimitn).trans htotal
  · exact ⟨_, keep, i, hdesc, hfull hone, hdrawn, rfl, hid⟩

/-- A draw from three probabilities with a threshold of nine tenths. -/
theorem paiSamplerSampleProbs_spec_three : ∃ id,
    paiSamplerSampleProbs (fun _ => true) ⟨3, 1, 0, 9 / 10⟩ (fun _ => 1 / 3) 3 =
        (.ok id, (paiSamplerNextU64 (⟨3, 1, 0, 9 / 10⟩ : PaiSampler ℚ)).2) ∧
      Samples (fun _ => 1 / 3) 3 (IsCut 3 (9 / 10))
        (samplerDouble (paiSamplerNextU64 (⟨3, 1, 0, 9 / 10⟩ : PaiSampler ℚ)).1 : ℚ) id := by
  obtain ⟨id, hrun, hsamples, -⟩ := paiSamplerSampleProbs_spec (fun _ => true)
    (⟨3, 1, 0, 9 / 10⟩ : PaiSampler ℚ) (fun _ => 1 / 3) 3 (fun _ => rfl) (by decide) (by norm_num)
    (by norm_num) (fun _ _ => by norm_num) (by decide +kernel)
  exact ⟨id, hrun, hsamples (Or.inl (by norm_num))⟩

/-- Three numbers with a mass of two. -/
def heavyProbs (i : ℕ) : ℚ := [4 / 5, 7 / 10, 1 / 2].getD i 0

/-- With a mass above one, the threshold of one is reached by two of the three numbers, and the third is
drawn. -/
theorem paiSamplerSampleProbs_mass_above_one :
    (paiSamplerSampleProbs (fun _ => true) ⟨3, 1, 0, 1⟩ heavyProbs 3).1 = .ok 2 ∧
      ∀ r, ¬ Samples heavyProbs 3 (IsCut 3 1) r 2 := by
  refine ⟨?_, ?_⟩
  · have hrun : (paiSamplerSampleProbs (fun _ => true) ⟨3, 1, 0, 1⟩ heavyProbs 3).1.toOption = some 2 := by
      decide +kernel
    cases hres : (paiSamplerSampleProbs (fun _ => true) ⟨3, 1, 0, 1⟩ heavyProbs 3).1 with
    | ok id =>
      rw [hres] at hrun
      exact congrArg _ (Option.some.inj hrun)
    | error e =>
      rw [hres] at hrun
      cases hrun
  · rintro r ⟨order, k, i, hdesc, hcut, hdrawn, hid, -⟩
    have hhalf : ∀ j < 3, (1 : ℚ) / 2 ≤ heavyProbs j := by decide +kernel
    have hlast : ∀ j < 3, heavyProbs j ≤ 1 / 2 → j = 2 := by decide +kernel
    -- two entries reach the threshold
    have hk : k ≤ 2 := by
      by_contra hlarge
      have hlt := hcut.first 2 (by omega)
      have h0 := hhalf _ (hdesc.bijOn.mapsTo (show 0 ∈ Set.Iio 3 by decide))
      have h1 := hhalf _ (hdesc.bijOn.mapsTo (show 1 ∈ Set.Iio 3 by decide))
      rw [mass_succ, mass_succ, mass_zero] at hlt
      linarith
    -- the smallest number comes last
    have hi : i < 2 := by have := hdrawn.lt; omega
    have hle := hdesc.sorted i 2 (by omega) (by omega)
    rw [hid] at hle
    have hsame := hlast _ (hdesc.bijOn.mapsTo (show 2 ∈ Set.Iio 3 by decide)) hle
    have heq := hdesc.bijOn.injOn (show i ∈ Set.Iio 3 from Nat.lt_succ_of_lt hi)
      (show 2 ∈ Set.Iio 3 by decide) (hid.trans hsame.symm)
    omega

end Prospero
