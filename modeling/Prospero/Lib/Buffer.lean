import Mathlib.Data.List.Basic
import Mathlib.Tactic.Common
import Mathlib.Tactic.Linarith

/-!
# Slices of a buffer

A buffer is the list of its cells.  `slice` reads a run of cells, `overwrite` stores a run of cells
in place.  The lemmas say how the two compose when both stay inside the buffer.
-/

namespace Buffer

variable {α : Type*}

/-- The `n` cells from `off` on. -/
def slice (buf : List α) (off n : ℕ) : List α := (buf.drop off).take n

/-- The buffer with `data` stored from `pos` on. -/
def overwrite (buf : List α) (pos : ℕ) (data : List α) : List α :=
  buf.take pos ++ (data ++ buf.drop (pos + data.length))

/-- A slice inside the buffer has its full length. -/
lemma length_slice {buf : List α} {off n : ℕ} (h : off + n ≤ buf.length) :
    (slice buf off n).length = n := by
  rw [slice, List.length_take, List.length_drop]
  omega

@[simp] lemma slice_zero (buf : List α) (off : ℕ) : slice buf off 0 = [] := List.take_zero

/-- Storing inside a buffer does not change its length. -/
lemma length_overwrite {buf data : List α} {pos : ℕ} (h : pos + data.length ≤ buf.length) :
    (overwrite buf pos data).length = buf.length := by
  rw [overwrite, List.length_append, List.length_append, List.length_take, List.length_drop]
  omega

/-- A slice is its first part and the rest. -/
lemma slice_add (buf : List α) (off n k : ℕ) :
    slice buf off (n + k) = slice buf off n ++ slice buf (off + n) k := by
  rw [slice, List.take_add, slice, slice, List.drop_drop]

/-- What is stored is read back. -/
lemma slice_overwrite_self {buf data : List α} {pos : ℕ} (h : pos + data.length ≤ buf.length) :
    slice (overwrite buf pos data) pos data.length = data := by
  have hlen : (buf.take pos).length = pos := by
    rw [List.length_take]
    omega
  rw [slice, overwrite, List.drop_left' hlen, List.take_left' rfl]

/-- A slice that ends before the stored cells is unchanged. -/
lemma slice_overwrite_of_le {buf data : List α} {pos off n : ℕ}
    (h : pos + data.length ≤ buf.length) (hle : off + n ≤ pos) :
    slice (overwrite buf pos data) off n = slice buf off n := by
  have hlen : (buf.take pos).length = pos := by
    rw [List.length_take]
    omega
  rw [slice, overwrite, List.drop_append_of_le_length (by omega),
    List.take_append_of_le_length (by rw [List.length_drop]; omega), slice, List.drop_take,
    List.take_take, min_eq_left (by omega)]

/-- Storing right after a slice extends it. -/
lemma slice_overwrite_append {buf data : List α} {off n : ℕ}
    (h : off + n + data.length ≤ buf.length) :
    slice (overwrite buf (off + n) data) off (n + data.length) = slice buf off n ++ data := by
  rw [slice_add, slice_overwrite_of_le h le_rfl, slice_overwrite_self h]

end Buffer
