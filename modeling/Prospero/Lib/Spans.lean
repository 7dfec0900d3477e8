import Mathlib.Algebra.BigOperators.Group.List.Basic
import Mathlib.Data.List.Pairwise
import Mathlib.Tactic.Common
import Mathlib.Tactic.Linarith

/-!
# Weighted spans of time

A span is a half-open interval of steps that carries a weight: a buffer and its lifetime, a job and its
slot.  The load of a list of spans at a step is the weight of those that contain the step.

### Outline

* `Span.load`, `Span.begun`, `Span.ended` : the weight that is present at a step, begins there, ends
  there; `Span.load_succ` balances them from one step to the next.
* `Span.IsPeak` : the largest load.  `IsPeak.concat` is the rule for a sweep that meets the spans in the
  order of their starts and measures the load only there.
-/

/-- The steps `start, …, stop - 1`, with a weight. -/
structure Span where
  /-- First step. -/
  start : ℕ
  /-- The step after the last. -/
  stop : ℕ
  /-- What the span weighs. -/
  weight : ℕ

namespace Span

variable {l l' : List Span} {x : Span} {p q : Span → Bool} {t peak : ℕ}

/-- The weight of the spans that satisfy the test. -/
def weightWhere (l : List Span) (p : Span → Bool) : ℕ := ((l.filter p).map weight).sum

/-- The weight of all spans. -/
def total (l : List Span) : ℕ := (l.map weight).sum

/-- The weight present at step `t`. -/
def load (l : List Span) (t : ℕ) : ℕ := weightWhere l fun x => x.start ≤ t ∧ t < x.stop

/-- The weight that begins at step `t`. -/
def begun (l : List Span) (t : ℕ) : ℕ := weightWhere l fun x => x.start = t

/-- The weight that ends at step `t`. -/
def ended (l : List Span) (t : ℕ) : ℕ := weightWhere l fun x => x.stop = t

/-! ### Weights -/

@[simp] lemma weightWhere_nil : weightWhere [] p = 0 := rfl

@[simp] lemma weightWhere_cons :
    weightWhere (x :: l) p = (if p x then x.weight else 0) + weightWhere l p := by
  unfold weightWhere
  by_cases h : p x = true
  · simp [h]
  · simp [h]

lemma weightWhere_append : weightWhere (l ++ l') p = weightWhere l p + weightWhere l' p := by
  simp [weightWhere]

lemma weightWhere_perm (h : l.Perm l') : weightWhere l p = weightWhere l' p :=
  ((h.filter p).map weight).sum_eq

/-- The weight depends on the test only at the spans of the list. -/
lemma weightWhere_congr (h : ∀ x ∈ l, p x = q x) : weightWhere l p = weightWhere l q := by
  unfold weightWhere
  rw [List.filter_congr h]

/-- A weaker test finds more weight. -/
lemma weightWhere_mono (h : ∀ x ∈ l, p x = true → q x = true) :
    weightWhere l p ≤ weightWhere l q := by
  induction l with
  | nil => exact le_rfl
  | cons x l ih =>
    have ih := ih fun y hy => h y (List.mem_cons_of_mem x hy)
    have hx := h x List.mem_cons_self
    rw [weightWhere_cons, weightWhere_cons]
    refine Nat.add_le_add ?_ ih
    by_cases hp : p x = true
    · rw [if_pos hp, if_pos (hx hp)]
    · rw [if_neg hp]
      exact Nat.zero_le _

/-- Two tests that no span satisfies together. -/
lemma weightWhere_add (h : ∀ x ∈ l, p x = true → q x = false) :
    weightWhere l p + weightWhere l q = weightWhere l fun x => p x || q x := by
  induction l with
  | nil => rfl
  | cons x l ih =>
    have ih := ih fun y hy => h y (List.mem_cons_of_mem x hy)
    have hx := h x List.mem_cons_self
    simp only [weightWhere_cons, ← ih]
    cases hp : p x with
    | true => simp [hx hp]; omega
    | false => simp; omega

lemma weightWhere_le_total : weightWhere l p ≤ total l := by
  have hall : total l = weightWhere l fun _ => true := by simp [weightWhere, total]
  rw [hall]
  exact weightWhere_mono fun _ _ _ => rfl

lemma total_append : total (l ++ l') = total l + total l' := by simp [total]

/-! ### Load -/

lemma load_perm (h : l.Perm l') : load l t = load l' t := weightWhere_perm h

lemma load_le_total : load l t ≤ total l := weightWhere_le_total

lemma load_append : load (l ++ l') t = load l t + load l' t := weightWhere_append

/-- When every span has started, the load is what has not ended. -/
lemma load_of_started (h : ∀ x ∈ l, x.start ≤ t) :
    load l t = weightWhere l fun x => t < x.stop :=
  weightWhere_congr fun x hx => by simp [h x hx]

/-- What ends at the next step was present at this one. -/
lemma ended_le_load (h : ∀ x ∈ l, x.start < x.stop) : ended l (t + 1) ≤ load l t := by
  refine weightWhere_mono fun x hx hend => ?_
  have := h x hx
  simp only [decide_eq_true_eq] at hend ⊢
  omega

/-- From one step to the next: what ends leaves and what begins joins. -/
lemma load_succ (h : ∀ x ∈ l, x.start < x.stop) :
    load l (t + 1) + ended l (t + 1) = load l t + begun l (t + 1) := by
  unfold load ended begun
  rw [weightWhere_add, weightWhere_add]
  · refine weightWhere_congr fun x hx => ?_
    have := h x hx
    rw [Bool.eq_iff_iff]
    simp only [Bool.or_eq_true, decide_eq_true_eq]
    omega
  · intro x _ hx
    simp only [decide_eq_true_eq, decide_eq_false_iff_not] at hx ⊢
    omega
  · intro x _ hx
    simp only [decide_eq_true_eq, decide_eq_false_iff_not] at hx ⊢
    omega

/-- The spans that begin at a step and those that began before make up the load. -/
lemma load_eq_begun (h : ∀ x ∈ l, x.start < x.stop) :
    load l t = (weightWhere l fun x => x.start < t && t < x.stop) + begun l t := by
  unfold load begun
  rw [weightWhere_add]
  · refine weightWhere_congr fun x hx => ?_
    have := h x hx
    rw [Bool.eq_iff_iff]
    simp only [Bool.or_eq_true, Bool.and_eq_true, decide_eq_true_eq]
    omega
  · intro x _ hx
    simp only [Bool.and_eq_true, decide_eq_true_eq, decide_eq_false_iff_not] at hx ⊢
    omega

/-! ### The peak -/

/-- `peak` is the largest load: no step has more, and some start has as much. -/
structure IsPeak (l : List Span) (peak : ℕ) : Prop where
  /-- No step has a larger load. -/
  load_le : ∀ t, load l t ≤ peak
  /-- The load where some span starts is as large, unless there is none. -/
  attained : peak = 0 ∨ ∃ x ∈ l, peak ≤ load l x.start

lemma IsPeak.nil : IsPeak [] 0 := ⟨fun _ => le_rfl, Or.inl rfl⟩

lemma IsPeak.perm (h : IsPeak l peak) (hp : l.Perm l') : IsPeak l' peak where
  load_le t := load_perm hp ▸ h.load_le t
  attained := h.attained.imp_right fun ⟨x, hx, hle⟩ => ⟨x, hp.mem_iff.mp hx, load_perm hp ▸ hle⟩

lemma IsPeak.peak_le_total (h : IsPeak l peak) : peak ≤ total l := by
  obtain rfl | ⟨x, -, hle⟩ := h.attained
  · exact Nat.zero_le _
  · exact hle.trans load_le_total

/-- A sweep in the order of the starts measures the load where each span starts, and nowhere else. -/
lemma IsPeak.concat (h : IsPeak l peak) (hstart : ∀ y ∈ l, y.start ≤ x.start) :
    IsPeak (l ++ [x]) (max peak (load (l ++ [x]) x.start)) where
  load_le t := by
    by_cases ht : t < x.start
    · have hx : load [x] t = 0 := by
        have hno : ¬ x.start ≤ t := not_le.mpr ht
        simp [load, weightWhere, hno]
      rw [load_append, hx]
      exact (h.load_le t).trans (le_max_left _ _)
    · -- every span has started at `x.start`, so that the load can only fall from there on
      have hall : ∀ y ∈ l ++ [x], y.start ≤ x.start := by
        intro y hy
        obtain hy | hy := List.mem_append.mp hy
        · exact hstart y hy
        · exact (congrArg start (List.mem_singleton.mp hy)).le
      have hle : load (l ++ [x]) t ≤ load (l ++ [x]) x.start := by
        refine weightWhere_mono fun y hy hload => ?_
        have := hall y hy
        simp only [decide_eq_true_eq] at hload ⊢
        omega
      exact hle.trans (le_max_right _ _)
  attained := by
    have hmono (t : ℕ) : load l t ≤ load (l ++ [x]) t := by
      rw [load_append]
      exact Nat.le_add_right _ _
    have hx : x ∈ l ++ [x] := List.mem_append_right l (List.mem_singleton_self x)
    rcases le_total peak (load (l ++ [x]) x.start) with hle | hle
    · rw [max_eq_right hle]
      exact Or.inr ⟨x, hx, le_rfl⟩
    · rw [max_eq_left hle]
      exact h.attained.imp_right fun ⟨y, hy, hpeak⟩ =>
        ⟨y, List.mem_append_left _ hy, hpeak.trans (hmono _)⟩

end Span
