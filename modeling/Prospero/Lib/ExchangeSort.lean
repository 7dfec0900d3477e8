import Mathlib

/-!
# Exchange sort

Two nested loops that bring the largest key of the remaining places to the next place, by exchanging two
places whenever the later one has the larger key.

## Outline

1. One exchange and one round.  A round permutes the places from `i` on, and leaves the largest key at `i`.
2. All rounds: the result is a permutation with descending keys.
-/

namespace ExchangeSort

variable {α κ : Type*} [LinearOrder κ] (key : α → κ)

/-- Exchange the places `i` and `j` when `j` has the larger key. -/
def step (i : ℕ) (a : ℕ → α) (j : ℕ) : ℕ → α :=
  if key (a i) < key (a j) then a ∘ Equiv.swap i j else a

/-- The exchanges of place `i` with all later ones. -/
def round (n : ℕ) (a : ℕ → α) (i : ℕ) : ℕ → α := (List.range' (i + 1) (n - (i + 1))).foldl (step key i) a

/-- The rounds of all places. -/
def sort (n : ℕ) (a : ℕ → α) : ℕ → α := (List.range n).foldl (round key n) a

/-- `b` is `a` with the places from `lo` up to `n` permuted. -/
def Rearranged (lo n : ℕ) (a b : ℕ → α) : Prop :=
  ∃ σ : Equiv.Perm ℕ, b = a ∘ σ ∧ ∀ k, k < lo ∨ n ≤ k → σ k = k

namespace Rearranged

variable {lo lo' n : ℕ} {a b c : ℕ → α}

lemma refl (a : ℕ → α) : Rearranged lo n a a := ⟨Equiv.refl ℕ, rfl, fun _ _ => rfl⟩

lemma trans (h : Rearranged lo n a b) (h' : Rearranged lo n b c) : Rearranged lo n a c := by
  obtain ⟨σ, rfl, hσ⟩ := h
  obtain ⟨τ, rfl, hτ⟩ := h'
  refine ⟨τ.trans σ, rfl, fun k hk => ?_⟩
  rw [Equiv.trans_apply, hτ k hk, hσ k hk]

lemma mono (h : Rearranged lo n a b) (hlo : lo' ≤ lo) : Rearranged lo' n a b := by
  obtain ⟨σ, hb, hσ⟩ := h
  exact ⟨σ, hb, fun k hk => hσ k (by omega)⟩

/-- The places before `lo` are as they were. -/
lemma apply_of_lt (h : Rearranged lo n a b) {k : ℕ} (hk : k < lo) : b k = a k := by
  obtain ⟨σ, rfl, hσ⟩ := h
  exact congrArg a (hσ k (Or.inl hk))

/-- A place from `lo` on holds what such a place held. -/
lemma exists_place (h : Rearranged lo n a b) {k : ℕ} (hlo : lo ≤ k) (hk : k < n) :
    ∃ p, lo ≤ p ∧ p < n ∧ b k = a p := by
  obtain ⟨σ, rfl, hσ⟩ := h
  refine ⟨σ k, ?_, ?_, rfl⟩
  · by_contra hlt
    have hfix := σ.injective (hσ (σ k) (Or.inl (by omega)))
    omega
  · by_contra hle
    have hfix := σ.injective (hσ (σ k) (Or.inr (by omega)))
    omega

end Rearranged

/-! ## One round -/

lemma rearranged_step {i j n : ℕ} (a : ℕ → α) (hij : i < j) (hj : j < n) :
    Rearranged i n a (step key i a j) := by
  unfold step
  split_ifs
  · exact ⟨Equiv.swap i j, rfl, fun k hk => Equiv.swap_apply_of_ne_of_ne (by omega) (by omega)⟩
  · exact .refl a

/-- Behind an exchange, place `i` has a key at least as large as before and as at `j`. -/
lemma key_step {i j : ℕ} (a : ℕ → α) :
    key (a i) ≤ key (step key i a j i) ∧ key (step key i a j j) ≤ key (step key i a j i) := by
  unfold step
  split_ifs with h
  · rw [Function.comp_apply, Function.comp_apply, Equiv.swap_apply_left, Equiv.swap_apply_right]
    exact ⟨h.le, h.le⟩
  · exact ⟨le_rfl, not_lt.mp h⟩

/-- The other places are left alone. -/
lemma step_apply_of_ne {i j k : ℕ} (a : ℕ → α) (hi : k ≠ i) (hj : k ≠ j) : step key i a j k = a k := by
  unfold step
  split_ifs
  · rw [Function.comp_apply, Equiv.swap_apply_of_ne_of_ne hi hj]
  · rfl

/-- The exchanges with `count` places from `j` on: the places from `i` on are permuted, and place `i` gets a
key at least as large as theirs, and as it had. -/
lemma exchanges {i n : ℕ} (count : ℕ) : ∀ {j : ℕ} (a : ℕ → α), i < j → j + count ≤ n →
    Rearranged i n a ((List.range' j count).foldl (step key i) a) ∧
      key (a i) ≤ key ((List.range' j count).foldl (step key i) a i) ∧
      (∀ p, p ≠ i → p < j → (List.range' j count).foldl (step key i) a p = a p) ∧
      ∀ p, j ≤ p → p < j + count → key ((List.range' j count).foldl (step key i) a p) ≤
        key ((List.range' j count).foldl (step key i) a i) := by
  induction count with
  | zero => exact fun a _ _ => ⟨.refl a, le_rfl, fun _ _ _ => rfl, fun p hj hp => absurd hp (by omega)⟩
  | succ count ih =>
    intro j a hij hn
    obtain ⟨hfirst, hat⟩ := key_step key (i := i) (j := j) a
    obtain ⟨hperm, hle, hkept, hmax⟩ := ih (j := j + 1) (step key i a j) (by omega) (by omega)
    rw [List.range'_succ, List.foldl_cons]
    refine ⟨(rearranged_step key a hij (by omega)).trans hperm, hfirst.trans hle, fun p hpi hpj => ?_,
      fun p hjp hp => ?_⟩
    · rw [hkept p hpi (by omega), step_apply_of_ne key a hpi (by omega)]
    · rcases Nat.lt_or_eq_of_le hjp with hlt | rfl
      · exact hmax p hlt (by omega)
      · rw [hkept j (by omega) (Nat.lt_succ_self j)]
        exact hat.trans hle

/-- A round permutes the places from `i` on, and leaves the largest of their keys at `i`. -/
lemma round_spec {n i : ℕ} (a : ℕ → α) (hi : i < n) : Rearranged i n a (round key n a i) ∧
    ∀ p, i ≤ p → p < n → key (round key n a i p) ≤ key (round key n a i i) := by
  obtain ⟨hperm, -, -, hmax⟩ := exchanges key (n - (i + 1)) (j := i + 1) (n := n) a
    (Nat.lt_succ_self i) (by omega)
  refine ⟨hperm, fun p hip hp => ?_⟩
  rcases Nat.lt_or_eq_of_le hip with hlt | rfl
  · exact hmax p hlt (by omega)
  · exact le_rfl

/-! ## All rounds -/

/-- The places before `i` have keys at least as large as all later ones. -/
def SortedUpTo (i n : ℕ) (a : ℕ → α) : Prop :=
  ∀ p q, p < i → p ≤ q → q < n → key (a q) ≤ key (a p)

/-- The first `i` rounds. -/
lemma rounds_spec {n i : ℕ} (a : ℕ → α) (hi : i ≤ n) :
    Rearranged 0 n a ((List.range i).foldl (round key n) a) ∧
      SortedUpTo key i n ((List.range i).foldl (round key n) a) := by
  induction i with
  | zero => exact ⟨.refl a, fun p q hp => absurd hp (Nat.not_lt_zero p)⟩
  | succ i ih =>
    obtain ⟨hperm, hsorted⟩ := ih (by omega)
    rw [List.range_succ, List.foldl_append, List.foldl_cons, List.foldl_nil]
    generalize (List.range i).foldl (round key n) a = b at hperm hsorted ⊢
    obtain ⟨hround, hmax⟩ := round_spec key b (show i < n by omega)
    refine ⟨hperm.trans (hround.mono (Nat.zero_le i)), fun p q hp hpq hq => ?_⟩
    rcases Nat.lt_or_eq_of_le (Nat.le_of_lt_succ hp) with hlt | rfl
    · -- an earlier place is left alone, and a later one holds what a later one held
      rw [hround.apply_of_lt hlt]
      rcases Nat.lt_or_ge q i with hqi | hqi
      · rw [hround.apply_of_lt hqi]
        exact hsorted p q hlt hpq hq
      · obtain ⟨q', hqi', hq', hplace⟩ := hround.exists_place hqi hq
        rw [hplace]
        exact hsorted p q' hlt (by omega) hq'
    · exact hmax q hpq hq

/-- The result is a permutation with descending keys. -/
lemma sort_spec (n : ℕ) (a : ℕ → α) : Rearranged 0 n a (sort key n a) ∧
    ∀ p q, p ≤ q → q < n → key (sort key n a q) ≤ key (sort key n a p) := by
  obtain ⟨hperm, hsorted⟩ := rounds_spec key a le_rfl
  exact ⟨hperm, fun p q hpq hq => hsorted p q (by omega) hpq hq⟩

end ExchangeSort
