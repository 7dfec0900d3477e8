import Mathlib.Data.Fintype.Basic
import Mathlib.Data.Fintype.Fin
import Mathlib.Data.Fintype.Card

/-!
# Slot tables

A table with a fixed number of slots, where an entry goes to the first slot that is free.

### Outline
* `firstSlot` is the first slot with a property (`firstSlot_some`, `firstSlot_none_iff`).
* `Keyed` relates a table of keys to the set of the keys in it: each stands in one slot, and a given key
  marks the free slots.  Putting a new key in a free slot adds it (`Keyed.put`), freeing a slot takes its
  key out (`Keyed.clear`), and the table is full when the set has as many members as the table has slots
  (`Keyed.card_eq_iff`).
-/

namespace Slots

variable {n : ℕ}

/-- The first slot with a property. -/
def firstSlot (test : Fin n → Bool) : Option (Fin n) := (List.finRange n).find? test

lemma firstSlot_some {test : Fin n → Bool} {i : Fin n} (h : firstSlot test = some i) :
    test i ∧ ∀ j < i, test j = false := by
  obtain ⟨htest, before, behind, hlist, hbefore⟩ := List.find?_eq_some_iff_append.mp h
  refine ⟨htest, fun j hj => ?_⟩
  have hsorted : (before ++ i :: behind).Pairwise (· < ·) := hlist ▸ List.pairwise_lt_finRange n
  have hmem : j ∈ before ++ i :: behind := hlist ▸ List.mem_finRange j
  rcases List.mem_append.mp hmem with hmem | hmem
  · simpa using hbefore j hmem
  · rcases List.mem_cons.mp hmem with rfl | hmem
    · exact absurd hj (lt_irrefl _)
    · have hlt := (List.pairwise_cons.mp (List.pairwise_append.mp hsorted).2.1).1 j hmem
      exact absurd hj (lt_asymm hlt)

lemma firstSlot_none_iff {test : Fin n → Bool} : firstSlot test = none ↔ ∀ i, test i = false := by
  simp [firstSlot]

variable {κ : Type} [DecidableEq κ] {free : κ}

/-- The keys in a table, each in one slot.  The key `free` marks the slots without an entry. -/
structure Keyed (free : κ) (table : Fin n → κ) (keys : Finset κ) : Prop where
  /-- The set holds exactly the keys of the table. -/
  mem_iff : ∀ key, key ∈ keys ↔ key ≠ free ∧ ∃ i, table i = key
  /-- No key stands in two slots. -/
  once : ∀ i j, table i = table j → table i ≠ free → i = j

omit [DecidableEq κ] in
lemma Keyed.empty (free : κ) {table : Fin n → κ} (h : ∀ i, table i = free) : Keyed free table ∅ where
  mem_iff key := by
    simp only [Finset.notMem_empty, false_iff, not_and, not_exists]
    rintro hkey i rfl
    exact hkey (h i)
  once i j _ hi := absurd (h i) hi

/-- A new key in a free slot. -/
lemma Keyed.put {table : Fin n → κ} {keys : Finset κ} (h : Keyed free table keys) {i : Fin n}
    (hi : table i = free) {key : κ} (hfree : key ≠ free) (hnew : key ∉ keys) :
    Keyed free (Function.update table i key) (insert key keys) where
  mem_iff other := by
    rw [Finset.mem_insert, h.mem_iff]
    constructor
    · rintro (rfl | ⟨hother, j, hj⟩)
      · exact ⟨hfree, i, Function.update_self ..⟩
      · refine ⟨hother, j, ?_⟩
        have hne : j ≠ i := by
          rintro rfl
          exact hother (hj.symm.trans hi)
        rw [Function.update_of_ne hne, hj]
    · rintro ⟨hother, j, hj⟩
      by_cases hji : j = i
      · rw [hji, Function.update_self] at hj
        exact .inl hj.symm
      · rw [Function.update_of_ne hji] at hj
        exact .inr ⟨hother, j, hj⟩
  once j k hjk hj := by
    have hfresh : ∀ l, table l ≠ key := fun l hl => hnew ((h.mem_iff key).mpr ⟨hfree, l, hl⟩)
    by_cases hji : j = i <;> by_cases hki : k = i
    · rw [hji, hki]
    · rw [hji, Function.update_self, Function.update_of_ne hki] at hjk
      exact absurd hjk.symm (hfresh k)
    · rw [hki, Function.update_self, Function.update_of_ne hji] at hjk
      exact absurd hjk (hfresh j)
    · rw [Function.update_of_ne hji, Function.update_of_ne hki] at hjk
      rw [Function.update_of_ne hji] at hj
      exact h.once j k hjk hj

/-- A slot freed. -/
lemma Keyed.clear {table : Fin n → κ} {keys : Finset κ} (h : Keyed free table keys) (i : Fin n) :
    Keyed free (Function.update table i free) (keys.erase (table i)) where
  mem_iff key := by
    rw [Finset.mem_erase, h.mem_iff]
    constructor
    · rintro ⟨hne, hkey, j, hj⟩
      refine ⟨hkey, j, ?_⟩
      rw [Function.update_of_ne (fun hji => hne (by rw [← hj, hji])), hj]
    · rintro ⟨hkey, j, hj⟩
      by_cases hji : j = i
      · rw [hji, Function.update_self] at hj
        exact absurd hj.symm hkey
      · rw [Function.update_of_ne hji] at hj
        refine ⟨?_, hkey, j, hj⟩
        rintro rfl
        exact hji (h.once j i hj (hj ▸ hkey))
  once j k hjk hj := by
    by_cases hji : j = i
    · rw [hji, Function.update_self] at hj
      exact absurd rfl hj
    by_cases hki : k = i
    · rw [hki, Function.update_self] at hjk
      exact absurd hjk hj
    rw [Function.update_of_ne hji, Function.update_of_ne hki] at hjk
    rw [Function.update_of_ne hji] at hj
    exact h.once j k hjk hj

/-- The table has no free slot exactly when it has as many keys as slots. -/
lemma Keyed.card_eq_iff {table : Fin n → κ} {keys : Finset κ} (h : Keyed free table keys) :
    keys.card = n ↔ ∀ i, table i ≠ free := by
  have himage : keys = (Finset.univ.filter fun i => table i ≠ free).image table := by
    ext key
    rw [h.mem_iff, Finset.mem_image]
    constructor
    · rintro ⟨hkey, i, hi⟩
      exact ⟨i, Finset.mem_filter.mpr ⟨Finset.mem_univ i, hi ▸ hkey⟩, hi⟩
    · rintro ⟨i, hi, rfl⟩
      exact ⟨(Finset.mem_filter.mp hi).2, i, rfl⟩
  have hcard : keys.card = (Finset.univ.filter fun i => table i ≠ free).card := by
    rw [himage]
    refine Finset.card_image_of_injOn fun i hi j _ hij => h.once i j hij ?_
    exact (Finset.mem_filter.mp hi).2
  rw [hcard]
  constructor
  · intro hfull
    have hall := (Finset.card_eq_iff_eq_univ _).mp (hfull.trans (Fintype.card_fin n).symm)
    intro i
    have hi : i ∈ Finset.univ.filter fun i => table i ≠ free := by
      rw [hall]
      exact Finset.mem_univ i
    exact (Finset.mem_filter.mp hi).2
  · intro hall
    rw [Finset.filter_true_of_mem fun i _ => hall i, Finset.card_univ, Fintype.card_fin]

end Slots
