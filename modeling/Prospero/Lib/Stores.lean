import Mathlib.Data.List.Basic
import Mathlib.Data.List.GetD
import Mathlib.Tactic.Common
import Mathlib.Tactic.Linarith

/-!
# Stores into a buffer

An encoder fills a buffer by a sequence of stores, each a run of bytes at an offset.  `Touched` says
which bytes a sequence writes and `content` what the buffer holds afterwards.  When every store starts
where the one before it ended (`Contiguous`), the bytes written are an initial piece of the buffer and
hold the stored runs one after the other.
-/

namespace Stores

variable {α : Type*}

/-- A store: an offset and the bytes written from there on. -/
abbrev Store (α : Type*) := ℕ × List α

/-- The number of bytes stored. -/
def total (stores : List (Store α)) : ℕ := (stores.map fun s => s.2.length).sum

/-- Byte `i` of the buffer is written. -/
def Touched (stores : List (Store α)) (i : ℕ) : Prop :=
  ∃ s ∈ stores, s.1 ≤ i ∧ i < s.1 + s.2.length

/-- The buffer after one store. -/
def put (out : ℕ → α) (s : Store α) (i : ℕ) : α :=
  if s.1 ≤ i then s.2.getD (i - s.1) (out i) else out i

/-- The buffer after a sequence of stores. -/
def run (out : ℕ → α) (stores : List (Store α)) : ℕ → α := stores.foldl put out

/-- The first `n` bytes of the buffer after a sequence of stores. -/
def content (out : ℕ → α) (stores : List (Store α)) (n : ℕ) : List α :=
  (List.range n).map (run out stores)

/-- Every store starts where the one before it ended, the first at `pos`. -/
def Contiguous : ℕ → List (Store α) → Prop
  | _, [] => True
  | pos, s :: stores => s.1 = pos ∧ Contiguous (pos + s.2.length) stores

@[simp] lemma total_nil : total ([] : List (Store α)) = 0 := rfl

@[simp] lemma total_cons (s : Store α) (stores : List (Store α)) :
    total (s :: stores) = s.2.length + total stores := by
  simp [total]

lemma total_append (a b : List (Store α)) : total (a ++ b) = total a + total b := by
  simp [total]

/-- Contiguous stores in two parts. -/
lemma contiguous_append {a b : List (Store α)} {pos : ℕ} :
    Contiguous pos (a ++ b) ↔ Contiguous pos a ∧ Contiguous (pos + total a) b := by
  induction a generalizing pos with
  | nil => simp [Contiguous]
  | cons s a ih =>
    rw [List.cons_append, Contiguous, Contiguous, ih, total_cons, and_assoc, Nat.add_assoc]

/-- A store leaves the bytes before it alone. -/
lemma put_of_lt (out : ℕ → α) {s : Store α} {i : ℕ} (h : i < s.1) : put out s i = out i :=
  if_neg (not_le.mpr h)

/-- Contiguous stores leave the bytes before them alone. -/
lemma run_of_lt {stores : List (Store α)} {pos : ℕ} (h : Contiguous pos stores) (out : ℕ → α)
    {i : ℕ} (hi : i < pos) : run out stores i = out i := by
  induction stores generalizing pos out with
  | nil => rfl
  | cons s stores ih =>
    obtain ⟨hstart, hrest⟩ := h
    have hbefore : i < pos + s.2.length := by omega
    calc run out (s :: stores) i = run (put out s) stores i := rfl
      _ = put out s i := ih hrest _ hbefore
      _ = out i := put_of_lt out (by omega)

/-- The bytes contiguous stores write. -/
lemma touched_iff {stores : List (Store α)} {pos : ℕ} (h : Contiguous pos stores) (i : ℕ) :
    Touched stores i ↔ pos ≤ i ∧ i < pos + total stores := by
  induction stores generalizing pos with
  | nil =>
    simp only [Touched, List.not_mem_nil, false_and, exists_false, total_nil, false_iff]
    omega
  | cons s stores ih =>
    obtain ⟨hstart, hrest⟩ := h
    have hsplit : Touched (s :: stores) i ↔
        (s.1 ≤ i ∧ i < s.1 + s.2.length) ∨ Touched stores i := by
      simp [Touched]
    rw [hsplit, ih hrest, total_cons]
    omega

/-- What contiguous stores leave in the buffer. -/
lemma run_getElem {stores : List (Store α)} {pos : ℕ} (h : Contiguous pos stores) (out : ℕ → α)
    {i : ℕ} (hi : i < total stores) :
    some (run out stores (pos + i)) = (stores.flatMap fun s => s.2)[i]? := by
  induction stores generalizing pos out i with
  | nil => simp at hi
  | cons s stores ih =>
    obtain ⟨hstart, hrest⟩ := h
    rw [total_cons] at hi
    rw [List.flatMap_cons]
    by_cases hin : i < s.2.length
    · have hstay : run (put out s) stores (pos + i) = put out s (pos + i) :=
        run_of_lt hrest _ (by omega)
      change some (run (put out s) stores (pos + i)) = _
      rw [hstay, put, if_pos (by omega), List.getElem?_append_left hin,
        show pos + i - s.1 = i by omega, List.getD_eq_getElem _ _ hin, List.getElem?_eq_getElem hin]
    · have hnext := ih hrest (put out s) (show i - s.2.length < total stores by omega)
      rw [show pos + s.2.length + (i - s.2.length) = pos + i by omega] at hnext
      rw [List.getElem?_append_right (not_lt.mp hin)]
      exact hnext

/-- **Contiguous stores.**  The buffer holds the stored runs one after the other. -/
theorem content_of_contiguous {stores : List (Store α)} (h : Contiguous 0 stores) (out : ℕ → α) :
    content out stores (total stores) = stores.flatMap fun s => s.2 := by
  have hlen : (stores.flatMap fun s => s.2).length = total stores := List.length_flatMap
  apply List.ext_getElem?
  intro i
  by_cases hi : i < total stores
  · have hrun := run_getElem h out hi
    rw [Nat.zero_add] at hrun
    rw [← hrun, content, List.getElem?_map, List.getElem?_range hi]
    rfl
  · rw [List.getElem?_eq_none, List.getElem?_eq_none]
    · rw [hlen]
      omega
    · rw [content, List.length_map, List.length_range]
      omega

end Stores
