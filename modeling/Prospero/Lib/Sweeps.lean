import Mathlib.Data.List.Range
import Mathlib.Data.Set.Defs
import Mathlib.Tactic.Ring
import Prospero.Lib.Arrays

/-!
# Programs that sweep over an array

`Prog.Sweeps P m W Q` says of a program over arrays that, whatever is in memory, its loads satisfy `P`, its
stores are those of `W` in some order, and its result satisfies `Q`.  There is one rule for each way to
build a program; in a loop the stores of the rounds follow each other.

`cells r d n` are the stores of `n` single elements from the `d`th on, each once.
-/

namespace Arrays

variable {ρ : Type} {V : ρ → Type} {α β : Type}

/-- `n` rounds that carry a value, counted from `i` on. -/
def rounds (body : ℕ → β → Prog V β) : ℕ → ℕ → β → Prog V β
  | _, 0, b => pure b
  | i, n + 1, b => do
    let b ← body i b
    rounds body (i + 1) n b

/-- The loads satisfy `P`, the stores are those of `W`, the result satisfies `Q`. -/
def Prog.Sweeps (P : Access ρ → Prop) (m : Prog V α) (W : List (Access ρ)) (Q : α → Prop) : Prop :=
  ∀ s, Q (m s).1 ∧ ((m s).2.2.filter Access.isStore).Perm W ∧
    ∀ acc ∈ (m s).2.2, acc.isStore = false → P acc

section Rules

variable {P : Access ρ → Prop} {W W' : List (Access ρ)} {Q : α → Prop}

lemma sweeps_pure {a : α} (h : Q a) : (pure a : Prog V α).Sweeps P [] Q :=
  fun _ => ⟨h, List.Perm.refl _, fun _ hacc => absurd hacc List.not_mem_nil⟩

lemma Prog.Sweeps.bind {m : Prog V α} {f : α → Prog V β} {R : β → Prop} (hm : m.Sweeps P W Q)
    (hf : ∀ a, Q a → (f a).Sweeps P W' R) : (m >>= f).Sweeps P (W ++ W') R := by
  intro s
  obtain ⟨hQ, hW, hP⟩ := hm s
  obtain ⟨hR, hW', hP'⟩ := hf _ hQ (m s).2.1
  refine ⟨hR, ?_, fun acc hacc => ?_⟩
  · change (((m s).2.2 ++ _).filter _).Perm _
    rw [List.filter_append]
    exact hW.append hW'
  · rcases List.mem_append.mp hacc with hacc | hacc
    · exact hP acc hacc
    · exact hP' acc hacc

/-- A program without stores in front. -/
lemma Prog.Sweeps.bind_nil {m : Prog V α} {f : α → Prog V β} {R : β → Prop} (hm : m.Sweeps P [] Q)
    (hf : ∀ a, Q a → (f a).Sweeps P W R) : (m >>= f).Sweeps P W R := hm.bind hf

lemma Prog.Sweeps.mono {m : Prog V α} {Q' : α → Prop} (h : m.Sweeps P W Q) (hQ : ∀ a, Q a → Q' a) :
    m.Sweeps P W Q' := fun s => ⟨hQ _ (h s).1, (h s).2⟩

lemma Prog.Sweeps.perm {m : Prog V α} (h : m.Sweeps P W Q) (hW : W.Perm W') : m.Sweeps P W' Q :=
  fun s => ⟨(h s).1, (h s).2.1.trans hW, (h s).2.2⟩

/-- The loads satisfy a weaker property. -/
lemma Prog.Sweeps.loads {m : Prog V α} {P' : Access ρ → Prop} (h : m.Sweeps P W Q)
    (hP : ∀ acc, P acc → P' acc) : m.Sweeps P' W Q :=
  fun s => ⟨(h s).1, (h s).2.1, fun acc hacc hload => hP acc ((h s).2.2 acc hacc hload)⟩

lemma sweeps_load {r : ρ} {i n : ℕ} (hP : P ⟨r, i, n, false⟩) :
    (load r i n : Prog V (Fin n → V r)).Sweeps P [] fun _ => True :=
  fun _ => ⟨trivial, List.Perm.refl _, fun _ h _ => List.mem_singleton.mp h ▸ hP⟩

lemma sweeps_store [DecidableEq ρ] {r : ρ} {i n : ℕ} {v : Fin n → V r} :
    (store r i v : Prog V Unit).Sweeps P [⟨r, i, n, true⟩] fun _ => True := by
  refine fun _ => ⟨trivial, List.Perm.refl _, fun acc h hload => ?_⟩
  rw [List.mem_singleton.mp h] at hload
  cases hload

/-- The stores of a loop are those of its rounds. -/
lemma sweeps_rounds {body : ℕ → β → Prog V β} (I : ℕ → β → Prop) (W : ℕ → List (Access ρ))
    {i n : ℕ} {b : β} (hstart : I i b)
    (hbody : ∀ j b, i ≤ j → j < i + n → I j b → (body j b).Sweeps P (W j) (I (j + 1))) :
    (rounds body i n b).Sweeps P ((List.range' i n).flatMap W) (I (i + n)) := by
  induction n generalizing i b with
  | zero => exact sweeps_pure hstart
  | succ n ih =>
    rw [List.range'_succ, List.flatMap_cons]
    refine (hbody i b le_rfl (by omega) hstart).bind fun b' hb' => ?_
    have hrest := ih hb' fun j b hj hj' hI => hbody j b (by omega) (by omega) hI
    rwa [show i + 1 + n = i + (n + 1) by omega] at hrest

/-- The stores of the loop `for (; i < n; i += step)`, which makes `k` rounds. -/
lemma sweeps_forStep {step n : ℕ} {hstep : 0 < step} {body : ℕ → β → Prog V β} (I : ℕ → β → Prop)
    (W : ℕ → List (Access ρ)) {i j k : ℕ} {b : β} (hstart : I j b) (hk : n ≤ i + k * step)
    (hlast : ∀ m < k, i + m * step < n)
    (hbody : ∀ m b, m < k → I (j + m) b → (body (i + m * step) b).Sweeps P (W (j + m)) (I (j + m + 1))) :
    (forStep 1 hstep n body i b).Sweeps P ((List.range' j k).flatMap W) fun r => I (j + k) r.2 := by
  induction k generalizing i j b with
  | zero =>
    rw [Nat.zero_mul] at hk
    rw [forStep, if_neg (by omega)]
    exact sweeps_pure hstart
  | succ k ih =>
    have hfirst := hlast 0 (by omega)
    have hshift (m : ℕ) : i + (m + 1) * step = i + step + m * step := by ring
    rw [forStep, if_pos (by omega), List.range'_succ, List.flatMap_cons]
    have hround := hbody 0 b (by omega) hstart
    rw [Nat.zero_mul] at hround
    refine hround.bind fun b' hb' => ?_
    rw [Nat.add_comm k, ← Nat.add_assoc j]
    refine ih hb' (by rw [← hshift]; exact hk) (fun m hm => ?_) fun m b hm hI => ?_
    · rw [← hshift]
      exact hlast (m + 1) (by omega)
    · rw [← hshift, Nat.add_assoc j, Nat.add_comm 1]
      rw [Nat.add_assoc j, Nat.add_comm 1] at hI
      exact hbody (m + 1) b (by omega) hI

end Rules

/-- A loop of rounds keeps the invariant that each of its rounds keeps. -/
lemma spec_rounds {P : Access ρ → Prop} {s : Store V} {body : ℕ → β → Prog V β} {i n : ℕ} {b : β}
    (I : ℕ → β → Store V → Prop) (hstart : I i b s)
    (hbody : ∀ j b s, i ≤ j → j < i + n → I j b s → (body j b).Spec P s (I (j + 1))) :
    (rounds body i n b).Spec P s (I (i + n)) := by
  induction n generalizing i b s with
  | zero => exact spec_pure hstart
  | succ n ih =>
    refine (hbody i b s le_rfl (by omega) hstart).bind fun b' s' hI => ?_
    have hrest := ih hI fun j b s hj hj' => hbody j b s (by omega) (by omega)
    rwa [show i + 1 + n = i + (n + 1) by omega] at hrest

/-! ## What a run writes -/

/-- The elements of an array that are stored. -/
def written (accs : List (Access ρ)) (r : ρ) : Set ℕ :=
  {k | ∃ acc ∈ accs, acc.isStore = true ∧ acc.array = r ∧ acc.first ≤ k ∧ k < acc.first + acc.count}

/-- What a program writes does not depend on memory. -/
lemma Prog.Sweeps.mem_written {P : Access ρ → Prop} {W : List (Access ρ)} {Q : α → Prop} {m : Prog V α}
    (h : m.Sweeps P W Q) (s : Store V) {r : ρ} {k : ℕ} :
    k ∈ written (m s).2.2 r ↔ ∃ acc ∈ W, acc.array = r ∧ acc.first ≤ k ∧ k < acc.first + acc.count := by
  refine exists_congr fun acc => ?_
  rw [← (h s).2.1.mem_iff, List.mem_filter, and_assoc]

/-! ## Cells -/

/-- The stores of `n` single elements from the `d`th on. -/
def cells (r : ρ) (d n : ℕ) : List (Access ρ) := (List.range' d n).map fun i => ⟨r, i, 1, true⟩

section Cells

variable (r : ρ) (d : ℕ)

lemma cells_append (m n : ℕ) : cells r d m ++ cells r (d + m) n = cells r d (m + n) := by
  unfold cells
  rw [← List.map_append, List.range'_append_1]

/-- Blocks of `k` cells follow each other. -/
lemma flatMap_cells (k i n : ℕ) :
    (List.range' i n).flatMap (fun j => cells r (d + j * k) k) = cells r (d + i * k) (n * k) := by
  induction n generalizing i with
  | zero => simp [cells]
  | succ n ih =>
    have hnext : d + (i + 1) * k = d + i * k + k := by ring
    rw [List.range'_succ, List.flatMap_cons, ih, hnext, cells_append, Nat.succ_mul, Nat.add_comm k]

/-- The cell of every round of a loop. -/
lemma flatMap_cell (n : ℕ) :
    (List.range' 0 n).flatMap (fun j => cells r (d + j) 1) = cells r d n := by
  simpa only [Nat.mul_one, Nat.add_zero] using flatMap_cells r d 1 0 n

/-- The cell at a fixed distance in every round. -/
lemma flatMap_cell_add (k n : ℕ) :
    (List.range' 0 n).flatMap (fun j => cells r (d + (j + k)) 1) = cells r (d + k) n := by
  rw [← flatMap_cell]
  exact List.flatMap_congr fun j _ => by rw [Nat.add_assoc, Nat.add_comm k]

end Cells

/-- A loop whose rounds store blocks of `k` cells. -/
lemma sweeps_rounds_cells {r : ρ} {d n k : ℕ} {P : Access ρ → Prop} {body : ℕ → β → Prog V β} {b : β}
    (I : ℕ → β → Prop) (hstart : I 0 b)
    (hbody : ∀ j b, j < n → I j b → (body j b).Sweeps P (cells r (d + j * k) k) (I (j + 1))) :
    (rounds body 0 n b).Sweeps P (cells r d (n * k)) (I n) := by
  have hloop := sweeps_rounds (i := 0) (n := n) I (fun j => cells r (d + j * k) k) hstart
    fun j b _ hj => hbody j b (by omega)
  rwa [flatMap_cells, Nat.zero_add, Nat.zero_mul, Nat.add_zero] at hloop

end Arrays
