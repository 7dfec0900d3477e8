import Mathlib.Data.List.Perm.Basic
import Mathlib.Data.List.Pairwise
import Mathlib.Data.List.Nodup
import Mathlib.Tactic.Common
import Mathlib.Tactic.Linarith

/-!
# Extents of a linear space

An extent is a run of consecutive addresses.  A list of extents is *packed* when no address lies in
two of them.  Allocators carve, merge and drop extents; each of these replaces some extents by others
that cover no new address, and `Packed.replace` is the one rule for all of them.
-/

/-- The addresses `off, …, off + size - 1`. -/
structure Extent where
  /-- First address. -/
  off : ℕ
  /-- Number of addresses. -/
  size : ℕ
deriving DecidableEq

namespace Extent

/-- The address lies in the extent. -/
def Has (e : Extent) (p : ℕ) : Prop := e.off ≤ p ∧ p < e.off + e.size

instance (e : Extent) (p : ℕ) : Decidable (e.Has p) := inferInstanceAs (Decidable (_ ∧ _))

/-- The two extents share no address. -/
def Apart (a b : Extent) : Prop := ∀ p, a.Has p → ¬ b.Has p

/-- Some extent of the list holds the address. -/
def Covers (l : List Extent) (p : ℕ) : Prop := ∃ e ∈ l, e.Has p

/-- No address lies in two extents of the list. -/
def Packed (l : List Extent) : Prop := l.Pairwise Apart

variable {a b c : Extent} {l l' olds news rest : List Extent} {p : ℕ}

theorem Apart.symm (h : a.Apart b) : b.Apart a := fun p hb ha => h p ha hb

/-- Extents that share no address lie on either side of each other. -/
theorem Apart.le_or_le (h : a.Apart b) (ha : 0 < a.size) (hb : 0 < b.size) :
    a.off + a.size ≤ b.off ∨ b.off + b.size ≤ a.off := by
  by_contra hnot
  push Not at hnot
  refine h (max a.off b.off) ⟨le_max_left _ _, ?_⟩ ⟨le_max_right _ _, ?_⟩
  · exact max_lt (by omega) (by omega)
  · exact max_lt (by omega) (by omega)

/-- An extent that ends before another begins shares no address with it. -/
theorem apart_of_le (h : a.off + a.size ≤ b.off) : a.Apart b := by
  rintro p ⟨-, hpa⟩ ⟨hpb, -⟩
  omega

/-- What lies inside an extent shares no address with what the extent is apart from. -/
theorem Apart.mono (h : a.Apart b) (hc : ∀ p, c.Has p → a.Has p) : c.Apart b :=
  fun p hp => h p (hc p hp)

@[simp] theorem covers_nil : ¬ Covers [] p := by simp [Covers]

@[simp] theorem covers_cons : Covers (a :: l) p ↔ a.Has p ∨ Covers l p := by simp [Covers]

@[simp] theorem covers_append : Covers (l ++ l') p ↔ Covers l p ∨ Covers l' p := by
  simp [Covers, or_and_right, exists_or]

/-- Two adjacent extents cover what their union covers. -/
theorem has_merge {off size size' : ℕ} :
    (⟨off, size + size'⟩ : Extent).Has p ↔
      (⟨off, size⟩ : Extent).Has p ∨ (⟨off + size, size'⟩ : Extent).Has p := by
  simp only [Has]
  omega

/-- Packing does not depend on the order of the list. -/
theorem Packed.perm (h : Packed l) (hp : l.Perm l') : Packed l' :=
  (hp.pairwise_iff fun {_ _} hab => hab.symm).mp h

/-- An extent is apart from a list when the two together are packed. -/
theorem packed_cons : Packed (a :: l) ↔ (∀ e ∈ l, a.Apart e) ∧ Packed l := List.pairwise_cons

/-- Extents of a packed list may be replaced by packed extents that cover no new address. -/
theorem Packed.replace (h : Packed (olds ++ rest)) (hnews : Packed news)
    (hcov : ∀ p, Covers news p → Covers olds p) : Packed (news ++ rest) := by
  obtain ⟨-, hrest, hcross⟩ := List.pairwise_append.mp h
  refine List.pairwise_append.mpr ⟨hnews, hrest, fun e he r hr p hep => ?_⟩
  obtain ⟨o, ho, hop⟩ := hcov p ⟨e, he, hep⟩
  exact hcross o ho r hr p hop

/-- One extent of a packed list may be replaced by an extent that lies in the first ones. -/
theorem Packed.replace_one (h : Packed (olds ++ rest)) (hcov : ∀ p, a.Has p → Covers olds p) :
    Packed (a :: rest) :=
  h.replace (List.pairwise_singleton _ a) fun p hp => hcov p (by simpa using hp)

/-- An extent of a packed list may be split into a left part, a middle and a right part. -/
theorem Packed.split {off left mid right : ℕ}
    (h : Packed (⟨off, left + mid + right⟩ :: rest)) :
    Packed (⟨off, left⟩ :: ⟨off + left + mid, right⟩ :: ⟨off + left, mid⟩ :: rest) := by
  change Packed ([⟨off, left + mid + right⟩] ++ rest) at h
  change Packed ([⟨off, left⟩, ⟨off + left + mid, right⟩, ⟨off + left, mid⟩] ++ rest)
  refine h.replace ?_ fun p hp => ?_
  · refine packed_cons.mpr ⟨fun e he => ?_, packed_cons.mpr ⟨fun e he => ?_, ?_⟩⟩
    · simp only [List.mem_cons, List.not_mem_nil, or_false] at he
      obtain rfl | rfl := he
      · exact apart_of_le (by simp only; omega)
      · exact apart_of_le le_rfl
    · obtain rfl := List.mem_singleton.mp he
      exact (apart_of_le le_rfl).symm
    · exact List.pairwise_singleton _ _
  · simp only [covers_cons, covers_nil, or_false, Has] at hp ⊢
    omega

/-- Dropping extents keeps a list packed. -/
theorem Packed.of_append_right (h : Packed (olds ++ rest)) : Packed rest :=
  (List.pairwise_append.mp h).2.1

/-- Packed extents below a bound have no more addresses than there are below it. -/
theorem Packed.sum_size_le (h : Packed l) {bound : ℕ} (hl : ∀ e ∈ l, e.off + e.size ≤ bound) :
    (l.map size).sum ≤ bound := by
  set addresses := l.flatMap fun e => List.range' e.off e.size with haddresses
  have hnodup : addresses.Nodup := by
    refine List.nodup_flatMap.mpr ⟨fun e _ => List.nodup_range', h.imp fun {e f} hapart => ?_⟩
    intro p he hf
    exact hapart p (List.mem_range'_1.mp he) (List.mem_range'_1.mp hf)
  have hsub : addresses ⊆ List.range bound := by
    intro p hp
    obtain ⟨e, he, hmem⟩ := List.mem_flatMap.mp hp
    have hlt := (List.mem_range'_1.mp hmem).2
    exact List.mem_range.mpr (hlt.trans_le (hl e he))
  have hlen : addresses.length = (l.map size).sum := by
    simp [haddresses, List.length_flatMap]
  have hle := (List.subperm_of_subset hnodup hsub).length_le
  rwa [hlen, List.length_range] at hle

/-- A fresh extent past every address covered may be added. -/
theorem Packed.cons_of_lt (h : Packed l) {bound : ℕ} (hl : ∀ p, Covers l p → p < bound)
    (ha : bound ≤ a.off) : Packed (a :: l) := by
  refine packed_cons.mpr ⟨fun e he p hap hep => ?_, h⟩
  have := hl p ⟨e, he, hep⟩
  have := hap.1
  omega

end Extent
