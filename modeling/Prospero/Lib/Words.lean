import Prospero.Lib.Bytes

/-!
# Numbers in byte memory

Memory is a byte for every address.  `load` and `store` read and write `n`-byte little-endian numbers;
a store is read back, and leaves every number apart from it alone.
-/

namespace Words

open ByteString

/-- Byte-addressed memory. -/
abbrev Mem := ℕ → UInt8

/-- The `n`-byte number at `a`. -/
def load (mem : Mem) (a n : ℕ) : ℕ := leNat ((List.range n).map fun i => mem (a + i))

/-- Write the `n`-byte number `v` at `a`. -/
def store (mem : Mem) (a n v : ℕ) : Mem := fun p =>
  if a ≤ p ∧ p < a + n then (leBytes n v).getD (p - a) 0 else mem p

/-- A number depends on its own bytes only. -/
lemma load_congr {mem mem' : Mem} {a n : ℕ} (h : ∀ p, a ≤ p → p < a + n → mem p = mem' p) :
    load mem a n = load mem' a n := by
  unfold load
  congr 1
  apply List.map_congr_left
  intro i hi
  exact h _ (Nat.le_add_right _ _) (Nat.add_lt_add_left (List.mem_range.mp hi) _)

/-- A store leaves the bytes outside it alone. -/
lemma store_of_outside (mem : Mem) {a n p : ℕ} (v : ℕ) (h : p < a ∨ a + n ≤ p) :
    store mem a n v p = mem p := by
  rw [store, if_neg]
  omega

/-- A number apart from a store is unchanged. -/
lemma load_store_apart (mem : Mem) {a n b k : ℕ} (v : ℕ) (h : b + k ≤ a ∨ a + n ≤ b) :
    load (store mem a n v) b k = load mem b k := by
  apply load_congr
  intro p hp hp'
  exact store_of_outside mem v (by omega)

/-- What is stored is read back. -/
lemma load_store (mem : Mem) {a n v : ℕ} (h : v < 256 ^ n) : load (store mem a n v) a n = v := by
  have hbytes : ((List.range n).map fun i => store mem a n v (a + i)) = leBytes n v := by
    apply List.ext_getElem
    · rw [List.length_map, List.length_range, length_leBytes]
    · intro i hi hi'
      rw [length_leBytes] at hi'
      rw [List.getElem_map, List.getElem_range, store, if_pos (by omega), Nat.add_sub_cancel_left,
        List.getD_eq_getElem]
  rw [load, hbytes, leNat_leBytes_of_lt h]

/-- A number fits its bytes. -/
lemma load_lt (mem : Mem) (a n : ℕ) : load mem a n < 256 ^ n := by
  have h := leNat_lt ((List.range n).map fun i => mem (a + i))
  rwa [List.length_map, List.length_range] at h

end Words
