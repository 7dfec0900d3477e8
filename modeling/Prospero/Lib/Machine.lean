import Mathlib.Logic.Function.Iterate
import Mathlib.Tactic.Common

/-!
# Deterministic machines

A machine is a step function; a state that has halted steps to itself.  `Machine.Reaches` says that some
number of steps lead from one state to another, `Reaches.unique` that a run halts in one state only, and
`halts_of_measure` that a run halts when a number falls with every step.
-/

namespace Machine

variable {σ : Type*} {step : σ → σ} {Halted : σ → Prop} {a b c : σ}

/-- Some number of steps lead from `a` to `b`. -/
def Reaches (step : σ → σ) (a b : σ) : Prop := ∃ k, step^[k] a = b

lemma Reaches.refl (a : σ) : Reaches step a a := ⟨0, rfl⟩

lemma Reaches.single (h : step a = b) : Reaches step a b := ⟨1, h⟩

lemma Reaches.trans (hab : Reaches step a b) (hbc : Reaches step b c) : Reaches step a c := by
  obtain ⟨k, rfl⟩ := hab
  obtain ⟨m, rfl⟩ := hbc
  exact ⟨m + k, Function.iterate_add_apply step m k a⟩

/-- A step in front of a run. -/
lemma Reaches.head (h : step a = b) (hbc : Reaches step b c) : Reaches step a c :=
  (Reaches.single h).trans hbc

/-- A halted state stays. -/
lemma iterate_halted (hstop : ∀ a, Halted a → step a = a) (ha : Halted a) (k : ℕ) :
    step^[k] a = a := by
  induction k with
  | zero => rfl
  | succ k ih => rw [Function.iterate_succ_apply, hstop a ha, ih]

/-- A run halts in one state only. -/
lemma Reaches.unique (Halted : σ → Prop) (hstop : ∀ a, Halted a → step a = a) (hb : Reaches step a b)
    (hc : Reaches step a c) (hbh : Halted b) (hch : Halted c) : b = c := by
  obtain ⟨k, rfl⟩ := hb
  obtain ⟨m, rfl⟩ := hc
  -- whichever of the two has run for longer has not moved since the other halted
  rcases Nat.le_total k m with hle | hle
  · obtain ⟨d, rfl⟩ := Nat.exists_eq_add_of_le' hle
    rw [Function.iterate_add_apply, iterate_halted hstop hbh]
  · obtain ⟨d, rfl⟩ := Nat.exists_eq_add_of_le' hle
    rw [Function.iterate_add_apply, iterate_halted hstop hch]

/-- What every step keeps holds along the run. -/
lemma invariant_iterate {I : σ → Prop} (hstep : ∀ a, I a → I (step a)) (ha : I a) (k : ℕ) :
    I (step^[k] a) := by
  induction k generalizing a with
  | zero => exact ha
  | succ k ih => exact ih (hstep a ha)

/-- A run along which a number falls until the machine halts. -/
lemma halts_of_measure (Halted : σ → Prop) (μ : σ → ℕ) (hstep : ∀ k, ¬ Halted (step^[k] a) →
    μ (step^[k + 1] a) < μ (step^[k] a)) : ∃ k, Halted (step^[k] a) := by
  by_contra hnot
  push Not at hnot
  have hle (k : ℕ) : μ (step^[k] a) + k ≤ μ a := by
    induction k with
    | zero => exact Nat.le_refl _
    | succ k ih =>
      have hlt := hstep k (hnot k)
      omega
  have hfall := hle (μ a + 1)
  omega

end Machine
