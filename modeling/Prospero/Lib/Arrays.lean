import Mathlib.Tactic.Common
import Mathlib.Logic.Function.Basic

/-!
# Programs over arrays

Memory is a family of arrays, each with elements of its own type.  A program loads and stores runs of
neighbouring elements, as scalar code (runs of one) and vector code do, and its run lists the accesses it
makes.

`Prog.Spec P m s Q` says of the run of `m` from the memory `s` that its accesses satisfy `P`, and its result
and the memory it leaves satisfy `Q`.  There is one rule for each way to build a program.

### Outline

* `forStep` : the loop `for (; i + ahead <= n; i += step)`, which covers blocked loops and their tails.
* `Store.fill` : memory in which the first elements of an array are replaced, the invariant of a loop that
  computes an array front to back.
-/

namespace Arrays

/-- One access of a run: some neighbouring elements of an array. -/
structure Access (ρ : Type) where
  /-- The array. -/
  array : ρ
  /-- The first element. -/
  first : ℕ
  /-- The number of elements. -/
  count : ℕ
  /-- A store. -/
  isStore : Bool

/-- The contents of every array. -/
abbrev Store {ρ : Type} (V : ρ → Type) := ∀ r, ℕ → V r

/-- Programs: the result, the memory that is left, and the accesses in order. -/
def Prog {ρ : Type} (V : ρ → Type) (α : Type) := Store V → α × Store V × List (Access ρ)

variable {ρ : Type} {V : ρ → Type} {α β : Type}

instance : Monad (Prog V) where
  pure a := fun s => (a, s, [])
  bind m f := fun s =>
    let r := m s
    let r' := f r.1 r.2.1
    (r'.1, r'.2.1, r.2.2 ++ r'.2.2)

/-- Load `n` elements from the `i`th on. -/
def load (r : ρ) (i n : ℕ) : Prog V (Fin n → V r) := fun s =>
  (fun j => s r (i + j), s, [⟨r, i, n, false⟩])

/-- Memory with `n` elements of an array replaced from the `i`th on. -/
def Store.put [DecidableEq ρ] (s : Store V) (r : ρ) (i : ℕ) {n : ℕ} (v : Fin n → V r) : Store V :=
  Function.update s r fun k => if h : i ≤ k ∧ k - i < n then v ⟨k - i, h.2⟩ else s r k

/-- Replacing one element. -/
lemma Store.put_single [DecidableEq ρ] (s : Store V) (r : ρ) (i : ℕ) (x : V r) :
    s.put r i (fun _ : Fin 1 => x) = Function.update s r (Function.update (s r) i x) := by
  unfold Store.put
  congr 1
  funext k
  by_cases hk : k = i
  · rw [hk, dif_pos ⟨Nat.le_refl i, by omega⟩, Function.update_self]
  · rw [dif_neg (by omega), Function.update_of_ne hk]

/-- Store `n` elements from the `i`th on. -/
def store [DecidableEq ρ] (r : ρ) (i : ℕ) {n : ℕ} (v : Fin n → V r) : Prog V Unit := fun s =>
  ((), s.put r i v, [⟨r, i, n, true⟩])

/-- `for (; i + ahead <= n; i += step)` with a value that the rounds carry.  The last `i` is returned with
it. -/
def forStep (ahead : ℕ) {step : ℕ} (hstep : 0 < step) (n : ℕ) (body : ℕ → β → Prog V β) (i : ℕ) (b : β) :
    Prog V (ℕ × β) :=
  if i + ahead ≤ n then do
    let b ← body i b
    forStep ahead hstep n body (i + step) b
  else pure (i, b)
termination_by n + 1 - i

/-! ## Arrays computed front to back -/

/-- Memory in which the first `n` elements of an array are those of `f`. -/
def Store.fill [DecidableEq ρ] (s : Store V) (r : ρ) (n : ℕ) (f : ℕ → V r) : Store V :=
  Function.update s r fun k => if k < n then f k else s r k

section Fill

variable [DecidableEq ρ] (s : Store V) (r : ρ) (n : ℕ) (f : ℕ → V r)

lemma Store.fill_zero : s.fill r 0 f = s := by
  unfold Store.fill
  simp only [Nat.not_lt_zero, if_false, Function.update_eq_self]

lemma Store.fill_ne {q : ρ} (h : q ≠ r) : s.fill r n f q = s q := Function.update_of_ne h _ s

lemma Store.fill_self (k : ℕ) : s.fill r n f r k = if k < n then f k else s r k := by
  rw [Store.fill, Function.update_self]

/-- What is not yet computed is as before, in any array. -/
lemma Store.fill_of_le (q : ρ) {k : ℕ} (h : n ≤ k) : s.fill r n f q k = s q k := by
  by_cases hq : q = r
  · subst hq
    rw [s.fill_self, if_neg (Nat.not_lt.mpr h)]
  · rw [s.fill_ne r n f hq]

/-- A store of the next elements. -/
lemma Store.put_fill {w : ℕ} (v : Fin w → V r) (hv : ∀ j : Fin w, v j = f (n + j)) :
    (s.fill r n f).put r n v = s.fill r (n + w) f := by
  unfold Store.put
  rw [Store.fill, Store.fill, Function.update_idem, Function.update_self]
  congr 1
  funext k
  by_cases hlow : k < n
  · rw [dif_neg (by omega), if_pos hlow, if_pos (by omega)]
  · by_cases hin : k < n + w
    · rw [dif_pos ⟨by omega, by omega⟩, if_pos hin, hv]
      congr 1
      exact Nat.add_sub_cancel' (Nat.not_lt.mp hlow)
    · rw [dif_neg (by omega), if_neg hlow, if_neg hin]

/-- Filling again from the front. -/
lemma Store.fill_fill {m : ℕ} (g : ℕ → V r) (h : n ≤ m) : (s.fill r n f).fill r m g = s.fill r m g := by
  unfold Store.fill
  rw [Function.update_idem, Function.update_self]
  congr 1
  funext k
  by_cases hk : k < m
  · rw [if_pos hk, if_pos hk]
  · rw [if_neg hk, if_neg hk, if_neg (by omega)]

end Fill

/-! ## Specifications -/

/-- The accesses satisfy `P`, the result and the memory that is left `Q`. -/
def Prog.Spec (P : Access ρ → Prop) (m : Prog V α) (s : Store V) (Q : α → Store V → Prop) : Prop :=
  Q (m s).1 (m s).2.1 ∧ ∀ acc ∈ (m s).2.2, P acc

section Rules

variable {P : Access ρ → Prop} {s : Store V}

lemma spec_pure {a : α} {Q : α → Store V → Prop} (h : Q a s) : (pure a : Prog V α).Spec P s Q :=
  ⟨h, fun _ hacc => absurd hacc List.not_mem_nil⟩

lemma Prog.Spec.bind {m : Prog V α} {f : α → Prog V β} {R : α → Store V → Prop}
    {Q : β → Store V → Prop} (hm : m.Spec P s R) (hf : ∀ a s', R a s' → (f a).Spec P s' Q) :
    (m >>= f).Spec P s Q := by
  obtain ⟨hQ, hacc⟩ := hf _ _ hm.1
  refine ⟨hQ, fun acc h => ?_⟩
  obtain h | h := List.mem_append.mp h
  · exact hm.2 acc h
  · exact hacc acc h

/-- Sequences are specified in either grouping. -/
lemma Prog.Spec.assoc {γ : Type} {m : Prog V α} {f : α → Prog V β} {g : β → Prog V γ}
    {Q : γ → Store V → Prop} (h : (m >>= f >>= g).Spec P s Q) :
    (m >>= fun a => f a >>= g).Spec P s Q := by
  refine ⟨h.1, fun acc hacc => h.2 acc ?_⟩
  change acc ∈ (_ ++ _) ++ _
  rw [List.append_assoc]
  exact hacc

lemma Prog.Spec.mono {m : Prog V α} {Q Q' : α → Store V → Prop} (h : m.Spec P s Q)
    (hQ : ∀ a s', Q a s' → Q' a s') : m.Spec P s Q' :=
  ⟨hQ _ _ h.1, h.2⟩

lemma spec_load {r : ρ} {i n : ℕ} {Q : (Fin n → V r) → Store V → Prop} (hP : P ⟨r, i, n, false⟩)
    (hQ : Q (fun j => s r (i + j)) s) : (load r i n).Spec P s Q :=
  ⟨hQ, fun _ h => List.mem_singleton.mp h ▸ hP⟩

lemma spec_store [DecidableEq ρ] {r : ρ} {i n : ℕ} {v : Fin n → V r} {Q : Unit → Store V → Prop}
    (hP : P ⟨r, i, n, true⟩) (hQ : Q () (s.put r i v)) : (store r i v).Spec P s Q :=
  ⟨hQ, fun _ h => List.mem_singleton.mp h ▸ hP⟩

/-- A loop keeps the invariant that each of its rounds keeps. -/
lemma spec_forStep {ahead step n : ℕ} {hstep : 0 < step} {body : ℕ → β → Prog V β} {i : ℕ} {b : β}
    (I : ℕ → β → Store V → Prop) {Q : ℕ × β → Store V → Prop} (hstart : I i b s)
    (hbody : ∀ i b s, I i b s → i + ahead ≤ n → (body i b).Spec P s (I (i + step)))
    (hend : ∀ i b s, I i b s → n < i + ahead → Q (i, b) s) :
    (forStep ahead hstep n body i b).Spec P s Q := by
  induction hk : n + 1 - i using Nat.strongRecOn generalizing i b s with
  | ind k ih =>
    rw [forStep]
    split_ifs with hgo
    · refine (hbody i b s hstart hgo).bind fun b' s' hI => ?_
      exact ih (n + 1 - (i + step)) (by omega) hI rfl
    · exact spec_pure (hend i b s hstart (Nat.not_le.mp hgo))

/-- Two programs that leave the same result and memory. -/
lemma Prog.Spec.agree {m m' : Prog V α} {P' : Access ρ → Prop} {a : α} {t : Store V}
    (h : m.Spec P s fun a' s' => a' = a ∧ s' = t) (h' : m'.Spec P' s fun a' s' => a' = a ∧ s' = t) :
    (m s).1 = (m' s).1 ∧ (m s).2.1 = (m' s).2.1 :=
  ⟨h.1.1.trans h'.1.1.symm, h.1.2.trans h'.1.2.symm⟩

end Rules

end Arrays
