import Mathlib.Logic.Function.Basic
import Mathlib.Tactic.Common

/-!
# Copies within a memory

Two ways to copy a stretch of a memory to another place of it.  `Lz.blit` reads everything before it writes;
`Lz.copy` goes entry by entry, so that with a distance below the length it repeats the last `dist` entries
over and over (`Lz.copy_apply`).  A `Lz.blit` within such a repetition continues it when it goes back a multiple
of the distance.
-/

namespace Lz

variable {α : Type*}

/-- Copy `len` entries from `src` to `dst`, reading them all first. -/
def blit (mem : ℕ → α) (dst src len : ℕ) : ℕ → α := fun a =>
  if dst ≤ a ∧ a < dst + len then mem (src + (a - dst)) else mem a

/-- Copy `n` entries to `dst`, one by one, each from `dist` places before. -/
def copy (mem : ℕ → α) (dst dist : ℕ) : ℕ → ℕ → α
  | 0 => mem
  | n + 1 => Function.update (copy mem dst dist n) (dst + n) (copy mem dst dist n (dst + n - dist))

@[simp] lemma copy_zero (mem : ℕ → α) (dst dist : ℕ) : copy mem dst dist 0 = mem := rfl

/-- What stands where after a copy: a periodic continuation of the `dist` entries before `dst`. -/
theorem copy_apply {mem : ℕ → α} {dst dist : ℕ} (hpos : 0 < dist) (hle : dist ≤ dst) (n a : ℕ) :
    copy mem dst dist n a =
      if dst ≤ a ∧ a < dst + n then mem (dst - dist + (a - dst) % dist) else mem a := by
  induction n generalizing a with
  | zero => rw [copy_zero, if_neg (by omega)]
  | succ n ih =>
    rw [copy]
    by_cases ha : a = dst + n
    · subst ha
      rw [Function.update_self, if_pos (by omega), Nat.add_sub_cancel_left, ih]
      by_cases hn : n < dist
      · -- the first period reads the entries before `dst`
        rw [if_neg (by omega), Nat.mod_eq_of_lt hn]
        congr 1
        omega
      · rw [if_pos (by omega), Nat.mod_eq_sub_mod (by omega : n ≥ dist)]
        congr 3
        omega
    · rw [Function.update_of_ne ha, ih]
      by_cases hin : dst ≤ a ∧ a < dst + n
      · rw [if_pos hin, if_pos (by omega)]
      · rw [if_neg hin, if_neg (by omega)]

/-- A copy in two parts. -/
theorem copy_add (mem : ℕ → α) (dst dist n k : ℕ) :
    copy mem dst dist (n + k) = copy (copy mem dst dist n) (dst + n) dist k := by
  induction k with
  | zero => rfl
  | succ k ih =>
    rw [← Nat.add_assoc, copy, ih, copy, Nat.add_assoc]

/-- Up to the distance a copy reads nothing that it writes. -/
theorem copy_eq_blit {mem : ℕ → α} {dst dist n : ℕ} (hle : dist ≤ dst) (hn : n ≤ dist) :
    copy mem dst dist n = blit mem dst (dst - dist) n := by
  funext a
  rcases Nat.eq_zero_or_pos dist with rfl | hpos
  · obtain rfl : n = 0 := by omega
    rw [copy_zero, blit, if_neg (by omega)]
  · rw [copy_apply hpos hle, blit]
    by_cases hin : dst ≤ a ∧ a < dst + n
    · rw [if_pos hin, if_pos hin, Nat.mod_eq_of_lt (by omega)]
    · rw [if_neg hin, if_neg hin]

/-- A `blit` of written entries from `back` places before, with `back` at least its length. -/
theorem blit_copy_apply {mem : ℕ → α} {dst dist : ℕ} (hpos : 0 < dist) (hle : dist ≤ dst)
    {i back len : ℕ} (hback : back ≤ i) (hlen : len ≤ back) (a : ℕ) :
    blit (copy mem dst dist i) (dst + i) (dst + i - back) len a =
      if dst ≤ a ∧ a < dst + i then mem (dst - dist + (a - dst) % dist)
      else if dst + i ≤ a ∧ a < dst + i + len then mem (dst - dist + (a - dst - back) % dist)
      else mem a := by
  unfold blit
  by_cases hnew : dst + i ≤ a ∧ a < dst + i + len
  · rw [if_pos hnew, if_neg (by omega), if_pos hnew, copy_apply hpos hle, if_pos (by omega)]
    congr 3
    omega
  · rw [if_neg hnew, copy_apply hpos hle, if_neg hnew]

/-- Such a `blit` continues the copy exactly when it goes back to equal entries. -/
theorem blit_copy_eq_iff {mem : ℕ → α} {dst dist : ℕ} (hpos : 0 < dist) (hle : dist ≤ dst)
    {i back len : ℕ} (hback : back ≤ i) (hlen : len ≤ back) :
    blit (copy mem dst dist i) (dst + i) (dst + i - back) len = copy mem dst dist (i + len) ↔
      ∀ j < len, mem (dst - dist + (i + j - back) % dist) = mem (dst - dist + (i + j) % dist) := by
  constructor
  · intro heq j hj
    have happly := congrFun heq (dst + (i + j))
    rw [blit_copy_apply hpos hle hback hlen, copy_apply hpos hle, if_neg (by omega),
      if_pos (by omega), if_pos (by omega), Nat.add_sub_cancel_left] at happly
    exact happly
  · intro hall
    funext a
    rw [blit_copy_apply hpos hle hback hlen, copy_apply hpos hle]
    by_cases hold : dst ≤ a ∧ a < dst + i
    · rw [if_pos hold, if_pos (by omega)]
    · rw [if_neg hold]
      by_cases hnew : dst + i ≤ a ∧ a < dst + i + len
      · have hj := hall (a - dst - i) (by omega)
        rw [show i + (a - dst - i) = a - dst by omega] at hj
        rw [if_pos hnew, if_pos (by omega), hj]
      · rw [if_neg hnew, if_neg (by omega)]

/-- Going back a multiple of the distance continues the copy. -/
theorem blit_copy_of_dvd {mem : ℕ → α} {dst dist : ℕ} (hpos : 0 < dist) (hle : dist ≤ dst)
    {i back len : ℕ} (hback : back ≤ i) (hlen : len ≤ back) (hdvd : dist ∣ back) :
    blit (copy mem dst dist i) (dst + i) (dst + i - back) len = copy mem dst dist (i + len) := by
  refine (blit_copy_eq_iff hpos hle hback hlen).mpr fun j _ => ?_
  obtain ⟨c, rfl⟩ := hdvd
  rw [Nat.sub_mul_mod (by omega)]

/-! ## Copies at the end of a list -/

/-- Append `n` entries one by one, each from `dist` places before. -/
def extend (out : List α) (dist : ℕ) : ℕ → List α
  | 0 => out
  | n + 1 => extend out dist n ++ ((extend out dist n)[(extend out dist n).length - dist]?).toList

/-- The first `n` entries of a memory. -/
def front (mem : ℕ → α) (n : ℕ) : List α := (List.range n).map mem

@[simp] lemma length_front (mem : ℕ → α) (n : ℕ) : (front mem n).length = n := by
  rw [front, List.length_map, List.length_range]

lemma getElem?_front {mem : ℕ → α} {n a : ℕ} (ha : a < n) : (front mem n)[a]? = some (mem a) := by
  rw [front, List.getElem?_map, List.getElem?_range ha, Option.map_some]

lemma front_succ (mem : ℕ → α) (n : ℕ) : front mem (n + 1) = front mem n ++ [mem n] := by
  rw [front, List.range_succ, List.map_append]
  rfl

lemma front_congr {mem mem' : ℕ → α} {n : ℕ} (h : ∀ a < n, mem a = mem' a) : front mem n = front mem' n :=
  List.map_congr_left fun a ha => h a (List.mem_range.mp ha)

/-- Entries that follow the front. -/
lemma front_append {mem mem' : ℕ → α} {n : ℕ} {entries : List α} (h : ∀ a < n, mem' a = mem a)
    (h' : ∀ i < entries.length, entries[i]? = some (mem' (n + i))) :
    front mem' (n + entries.length) = front mem n ++ entries := by
  rw [front, List.range_add, List.map_append, List.map_map]
  congr 1
  · exact front_congr h
  · refine List.ext_getElem? fun i => ?_
    by_cases hi : i < entries.length
    · rw [h' i hi, List.getElem?_map, List.getElem?_range hi]
      rfl
    · rw [List.getElem?_eq_none (Nat.not_lt.mp hi), List.getElem?_eq_none]
      rw [List.length_map, List.length_range]
      exact Nat.not_lt.mp hi

/-- A copy to the end of the front extends it. -/
theorem front_copy {mem : ℕ → α} {dst dist : ℕ} (hpos : 0 < dist) (hle : dist ≤ dst) (n : ℕ) :
    front (copy mem dst dist n) (dst + n) = extend (front mem dst) dist n := by
  induction n with
  | zero => rfl
  | succ n ih =>
    have hlast : copy mem dst dist (n + 1) (dst + n) = copy mem dst dist n (dst + n - dist) := by
      rw [copy, Function.update_self]
    have hsame : front (copy mem dst dist (n + 1)) (dst + n) = front (copy mem dst dist n) (dst + n) :=
      front_congr fun a ha => by rw [copy, Function.update_of_ne (Nat.ne_of_lt ha)]
    rw [← Nat.add_assoc, front_succ, hsame, hlast, extend, ← ih, length_front,
      getElem?_front (by omega), Option.toList_some]

end Lz
