import Mathlib.Algebra.BigOperators.Group.List.Basic
import Mathlib.Algebra.Order.Ring.Nat
import Mathlib.Data.List.Pairwise
import Mathlib.Data.List.Perm.Basic
import Mathlib.Data.Nat.Bitwise
import Mathlib.Tactic.Common
import Mathlib.Tactic.Linarith
import Mathlib.Tactic.Ring

/-!
# Dyadic blocks

A block of order `k` and index `i` is the run of `2 ^ k` addresses from `i * 2 ^ k` on, so that blocks are
aligned by construction; an address `p` lies in it exactly when `p / 2 ^ k = i`.  A block of order
`k + 1` splits into the two blocks of order `k` with indices `2 i` and `2 i + 1`, each other's sibling.

`Tiling m l` says that the blocks of `l` cut the addresses below `2 ^ m` into pieces: every address lies
in exactly one of them.  Splitting and merging keep a tiling, and the block of a tiling that holds the
first address of a sibling is never larger than the block itself.
-/

namespace Dyadic

/-- A block of `2 ^ order` addresses. -/
structure Block where
  /-- The logarithm of its size. -/
  order : ℕ
  /-- Its position among the blocks of its order. -/
  index : ℕ
deriving DecidableEq

namespace Block

variable {a b c : Block} {p : ℕ}

/-- Number of addresses. -/
def size (b : Block) : ℕ := 2 ^ b.order

/-- First address. -/
def off (b : Block) : ℕ := b.index * 2 ^ b.order

/-- The address lies in the block. -/
def Has (b : Block) (p : ℕ) : Prop := p / 2 ^ b.order = b.index

/-- No address lies in both blocks. -/
def Apart (a b : Block) : Prop := ∀ p, a.Has p → ¬ b.Has p

/-- The block of the next order that contains it. -/
def parent (b : Block) : Block := ⟨b.order + 1, b.index / 2⟩

/-- The other half of the parent. -/
def sibling (b : Block) : Block := ⟨b.order, if b.index % 2 = 0 then b.index + 1 else b.index - 1⟩

lemma size_pos (b : Block) : 0 < b.size := Nat.two_pow_pos _

lemma has_iff : b.Has p ↔ b.off ≤ p ∧ p < b.off + b.size := by
  unfold Has off size
  have hpos : 0 < 2 ^ b.order := Nat.two_pow_pos _
  constructor
  · intro h
    have hdiv := Nat.div_add_mod p (2 ^ b.order)
    have hmod := Nat.mod_lt p hpos
    rw [Nat.mul_comm, h] at hdiv
    omega
  · rintro ⟨hle, hlt⟩
    apply Nat.div_eq_of_lt_le
    · exact hle
    · rw [Nat.succ_mul]
      exact hlt

lemma has_off (b : Block) : b.Has b.off := has_iff.mpr ⟨le_rfl, Nat.lt_add_of_pos_right b.size_pos⟩

lemma Apart.symm (h : a.Apart b) : b.Apart a := fun p hb ha => h p ha hb

/-- Blocks apart from each other end before or begin after each other. -/
lemma Apart.le_or_le (h : a.Apart b) : a.off + a.size ≤ b.off ∨ b.off + b.size ≤ a.off := by
  by_contra hcross
  push Not at hcross
  have ha := a.size_pos
  have hb := b.size_pos
  have hmax : a.Has (max a.off b.off) ∧ b.Has (max a.off b.off) := by
    rw [has_iff, has_iff]
    omega
  exact h _ hmax.1 hmax.2

lemma apart_of_le (h : a.off + a.size ≤ b.off) : a.Apart b := by
  intro p ha hb
  rw [has_iff] at ha hb
  omega

/-- Nested or apart: a block that shares an address with a block of at least its order lies in it. -/
lemma Has.mono (hle : a.order ≤ b.order) {q : ℕ} (ha : a.Has q) (hb : b.Has q) (hp : a.Has p) :
    b.Has p := by
  unfold Has at *
  obtain ⟨d, hd⟩ := Nat.exists_eq_add_of_le hle
  have hsplit (x : ℕ) : x / 2 ^ b.order = x / 2 ^ a.order / 2 ^ d := by
    rw [hd, pow_add, Nat.div_div_eq_div_mul]
  rw [hsplit, hp, ← ha, ← hsplit, hb]

/-- Two blocks of one order that share an address are the same. -/
lemma Has.eq (horder : a.order = b.order) (ha : a.Has p) (hb : b.Has p) : a = b := by
  unfold Has at ha hb
  cases a
  cases b
  simp only at horder ha hb
  subst horder
  rw [← ha, ← hb]

/-- A block that contains the first address of one of at least its order starts there. -/
lemma off_eq_of_has (hle : a.order ≤ b.order) (h : a.Has b.off) : a.off = b.off := by
  unfold Has off at *
  obtain ⟨d, hd⟩ := Nat.exists_eq_add_of_le hle
  have hmul : b.index * 2 ^ b.order = b.index * 2 ^ d * 2 ^ a.order := by
    rw [hd, pow_add]
    ring
  rw [hmul, Nat.mul_div_cancel _ (Nat.two_pow_pos _)] at h
  rw [← h, hmul]

@[simp] lemma sibling_order (b : Block) : b.sibling.order = b.order := rfl

@[simp] lemma sibling_size (b : Block) : b.sibling.size = b.size := rfl

@[simp] lemma sibling_sibling (b : Block) : b.sibling.sibling = b := by
  unfold sibling
  cases b with
  | mk k i =>
    by_cases h : i % 2 = 0
    · have hodd : ¬ (i + 1) % 2 = 0 := by omega
      simp only [h, if_true, hodd, if_false, Nat.add_sub_cancel]
    · have heven : (i - 1) % 2 = 0 := by omega
      have hback : i - 1 + 1 = i := by omega
      simp only [h, if_false, heven, if_true, hback]

lemma sibling_ne (b : Block) : b.sibling ≠ b := by
  intro h
  have hindex := congrArg index h
  simp only [sibling] at hindex
  split_ifs at hindex <;> omega

lemma parent_sibling (b : Block) : b.sibling.parent = b.parent := by
  unfold parent sibling
  simp only
  congr 1
  split_ifs <;> omega

lemma apart_sibling (b : Block) : b.Apart b.sibling := fun _ hb hs =>
  b.sibling_ne (Has.eq rfl hs hb)

/-- A parent consists of a block and its sibling. -/
lemma has_parent : b.parent.Has p ↔ b.Has p ∨ b.sibling.Has p := by
  unfold Has parent sibling
  simp only
  rw [pow_succ, ← Nat.div_div_eq_div_mul]
  split_ifs <;> omega

lemma size_parent (b : Block) : b.parent.size = b.size + b.size := by
  unfold size parent
  simp only
  rw [pow_succ]
  omega

/-- A parent starts at the lower of a block and its sibling. -/
lemma parent_off (b : Block) :
    b.parent.off = if b.sibling.off < b.off then b.sibling.off else b.off := by
  have hpos : 0 < 2 ^ b.order := Nat.two_pow_pos _
  have hparent : b.parent.off = b.index / 2 * 2 * 2 ^ b.order := by
    unfold parent off
    rw [pow_succ]
    ring
  by_cases heven : b.index % 2 = 0
  · have hsib : b.sibling.off = (b.index + 1) * 2 ^ b.order := by simp [sibling, off, heven]
    have hlow : ¬ (b.index + 1) * 2 ^ b.order < b.index * 2 ^ b.order :=
      not_lt.mpr (Nat.mul_le_mul_right _ (Nat.le_succ _))
    rw [hparent, hsib, show b.index / 2 * 2 = b.index by omega]
    exact (if_neg hlow).symm
  · have hsib : b.sibling.off = (b.index - 1) * 2 ^ b.order := by simp [sibling, off, heven]
    have hlow : (b.index - 1) * 2 ^ b.order < b.index * 2 ^ b.order :=
      Nat.mul_lt_mul_of_pos_right (by omega) hpos
    rw [hparent, hsib, show b.index / 2 * 2 = b.index - 1 by omega]
    exact (if_pos hlow).symm

/-- The lower half of a block. -/
def left (b : Block) : Block := ⟨b.order - 1, 2 * b.index⟩

/-- The upper half of a block. -/
def right (b : Block) : Block := ⟨b.order - 1, 2 * b.index + 1⟩

lemma left_parent (h : 0 < b.order) : b.left.parent = b := by
  cases b with
  | mk k i =>
    simp only [left, parent, mk.injEq]
    exact ⟨Nat.succ_pred_eq_of_pos h, by omega⟩

lemma left_sibling (b : Block) : b.left.sibling = b.right := by
  simp [left, right, sibling]

lemma left_off (h : 0 < b.order) : b.left.off = b.off := by
  cases b with
  | mk k i =>
    obtain ⟨k, rfl⟩ := Nat.exists_eq_succ_of_ne_zero h.ne'
    simp only [left, off, Nat.succ_sub_one, Nat.succ_eq_add_one, pow_succ]
    ring

lemma right_off (h : 0 < b.order) : b.right.off = b.off + 2 ^ (b.order - 1) := by
  cases b with
  | mk k i =>
    obtain ⟨k, rfl⟩ := Nat.exists_eq_succ_of_ne_zero h.ne'
    simp only [right, off, Nat.succ_sub_one, Nat.succ_eq_add_one, pow_succ]
    ring

/-- The first address of a sibling, by exclusive or. -/
lemma sibling_off (b : Block) : b.sibling.off = b.off ^^^ b.size := by
  have hxor : b.sibling.index = b.index ^^^ 1 := by
    unfold sibling
    simp only
    split_ifs with h
    · rw [Nat.xor_one_of_even (Nat.even_iff.mpr h)]
    · rw [Nat.xor_one_of_odd (Nat.odd_iff.mpr (Nat.mod_two_ne_zero.mp h))]
  unfold off size
  rw [hxor, sibling_order]
  apply Nat.eq_of_testBit_eq
  intro i
  rw [Nat.testBit_xor, Nat.testBit_mul_two_pow, Nat.testBit_mul_two_pow, Nat.testBit_xor]
  by_cases hi : b.order ≤ i
  · simp only [hi, decide_true, Bool.true_and]
    congr 1
    rw [Nat.testBit_two_pow]
    by_cases heq : b.order = i
    · simp [heq]
    · have hone : Nat.testBit 1 (i - b.order) = false :=
        Bool.eq_false_iff.mpr fun h =>
          absurd (Nat.testBit_one_eq_true_iff_self_eq_zero.mp h) (by omega)
      rw [hone, decide_eq_false heq]
  · have hne : b.order ≠ i := by omega
    simp [hi, hne]

end Block

/-! ## Tilings -/

open Block

variable {m : ℕ} {l l' : List Block} {a b : Block} {p : ℕ}

/-- The blocks cut the addresses below `2 ^ m` into pieces. -/
structure Tiling (m : ℕ) (l : List Block) : Prop where
  /-- No address lies in two of them. -/
  apart : l.Pairwise Block.Apart
  /-- Every address lies in one. -/
  covers : ∀ p, (∃ b ∈ l, b.Has p) ↔ p < 2 ^ m
  /-- Their sizes add up. -/
  total : (l.map Block.size).sum = 2 ^ m

/-- One block. -/
lemma Tiling.single (m : ℕ) : Tiling m [⟨m, 0⟩] where
  apart := List.pairwise_singleton _ _
  covers := fun p => by
    simp only [List.mem_singleton, exists_eq_left, Block.Has]
    rw [Nat.div_eq_zero_iff]
    have hpos : 0 < 2 ^ m := Nat.two_pow_pos m
    omega
  total := by simp [Block.size]

/-- A tiling does not depend on the order of the list. -/
lemma Tiling.perm (h : Tiling m l) (hp : l.Perm l') : Tiling m l' where
  apart := (hp.pairwise_iff fun {_ _} hab => hab.symm).mp h.apart
  covers := fun p => by
    rw [← h.covers p]
    constructor
    · rintro ⟨b, hb, hhas⟩
      exact ⟨b, hp.mem_iff.mpr hb, hhas⟩
    · rintro ⟨b, hb, hhas⟩
      exact ⟨b, hp.mem_iff.mp hb, hhas⟩
  total := by
    rw [← (hp.map Block.size).sum_eq]
    exact h.total

/-- Blocks of a tiling lie in the region. -/
lemma Tiling.end_le (h : Tiling m l) (hb : b ∈ l) : b.off + b.size ≤ 2 ^ m := by
  have hlast : b.Has (b.off + b.size - 1) := by
    rw [has_iff]
    have := b.size_pos
    omega
  have hlt := (h.covers _).mp ⟨b, hb, hlast⟩
  have := b.size_pos
  omega

lemma Tiling.order_le (h : Tiling m l) (hb : b ∈ l) : b.order ≤ m := by
  have hend := h.end_le hb
  have hsize : 2 ^ b.order ≤ 2 ^ m := (Nat.le_add_left _ _).trans hend
  exact (Nat.pow_le_pow_iff_right (by decide)).mp hsize

/-- Two blocks of a tiling that share an address are the same. -/
lemma Tiling.eq_of_has (h : Tiling m l) (ha : a ∈ l) (hb : b ∈ l) (hpa : a.Has p) (hpb : b.Has p) :
    a = b := by
  by_contra hne
  have : Std.Symm Block.Apart := ⟨fun _ _ hab => hab.symm⟩
  exact h.apart.forall ha hb hne p hpa hpb

/-- No block occurs twice. -/
lemma Tiling.nodup (h : Tiling m l) : l.Nodup :=
  h.apart.imp fun {a b} hab heq => by
    subst heq
    exact hab a.off a.has_off a.has_off

/-- A block may be replaced by blocks that cover the same addresses. -/
lemma Tiling.replace (olds news : List Block) (h : Tiling m (olds ++ l))
    (hnews : news.Pairwise Block.Apart)
    (hcov : ∀ p, (∃ b ∈ news, b.Has p) ↔ ∃ b ∈ olds, b.Has p)
    (htotal : (news.map Block.size).sum = (olds.map Block.size).sum) : Tiling m (news ++ l) where
  apart := by
    obtain ⟨-, hrest, hcross⟩ := List.pairwise_append.mp h.apart
    refine List.pairwise_append.mpr ⟨hnews, hrest, fun e he r hr q hq => ?_⟩
    obtain ⟨o, ho, hoq⟩ := (hcov q).mp ⟨e, he, hq⟩
    exact hcross o ho r hr q hoq
  covers := fun p => by
    rw [← h.covers p]
    simp only [List.mem_append, or_and_right, exists_or, hcov p]
  total := by
    rw [List.map_append, List.sum_append, htotal, ← List.sum_append, ← List.map_append]
    exact h.total

/-- Splitting a block. -/
lemma Tiling.split (h : Tiling m (b :: l)) (hpos : 0 < b.order) :
    Tiling m (b.left :: b.right :: l) := by
  have hsibling := b.left_sibling
  refine Tiling.replace [b] [b.left, b.right] h ?_ ?_ ?_
  · refine List.pairwise_cons.mpr ⟨fun c hc => ?_, List.pairwise_singleton _ _⟩
    rw [List.mem_singleton.mp hc, ← hsibling]
    exact apart_sibling _
  · intro q
    have hparent := has_parent (b := b.left) (p := q)
    rw [left_parent hpos, hsibling] at hparent
    simp [hparent]
  · have hsize := size_parent b.left
    rw [left_parent hpos] at hsize
    have hright : b.right.size = b.left.size := rfl
    simp [hsize, hright]

/-- Merging a block with its sibling. -/
lemma Tiling.merge (h : Tiling m (b :: b.sibling :: l)) : Tiling m (b.parent :: l) := by
  refine Tiling.replace [b, b.sibling] [b.parent] h (List.pairwise_singleton _ _) ?_ ?_
  · intro q
    simp [has_parent]
  · simp [size_parent]

/-- The whole region as a block. -/
lemma has_whole : (⟨m, 0⟩ : Block).Has p ↔ p < 2 ^ m := by
  unfold Block.Has
  rw [Nat.div_eq_zero_iff]
  have hpos : 0 < 2 ^ m := Nat.two_pow_pos m
  simp only
  omega

/-- **The tile at a sibling.**  Below the full order, the tile that holds the first address of a tile's
sibling starts there and is no larger than the tile. -/
theorem Tiling.sibling_tile (h : Tiling m l) (hb : b ∈ l) (horder : b.order < m) :
    ∃ c ∈ l, c.off = b.sibling.off ∧ c.order ≤ b.order := by
  have hparent : b.parent.Has b.sibling.off := has_parent.mpr (Or.inr b.sibling.has_off)
  have hparent' : b.parent.Has b.off := has_parent.mpr (Or.inl b.has_off)
  have hin : b.sibling.off < 2 ^ m := by
    rw [← has_whole]
    refine Has.mono (b := ⟨m, 0⟩) (Nat.succ_le_of_lt horder) hparent' ?_ hparent
    rw [has_whole]
    exact (h.covers _).mp ⟨b, hb, b.has_off⟩
  obtain ⟨c, hc, hhas⟩ := (h.covers _).mpr hin
  have hle : c.order ≤ b.order := by
    by_contra hgt
    have hbig : b.parent.order ≤ c.order := not_le.mp hgt
    have hboth : c.Has b.off := Has.mono hbig hparent hhas hparent'
    have heq := h.eq_of_has hc hb hboth b.has_off
    rw [heq] at hgt
    exact hgt le_rfl
  exact ⟨c, hc, off_eq_of_has (b := b.sibling) hle hhas, hle⟩

end Dyadic
