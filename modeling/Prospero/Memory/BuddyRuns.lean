import Mathlib.Data.Nat.Log
import Prospero.Memory.BuddyMarks
import Prospero.Memory.BuddySteps

/-!
# Runs of the suballocator

`pai_buddy_alloc` and `pai_buddy_free` on the picture of `BuddyBlocks`: what one call does, and from it what
holds after every sequence of calls on a region.  `pai_buddy_init` does not bound the region, so that the
top free list of a region above 2^30 bytes lies outside `free_lists`.

### Outline

* Logarithms and the order of a request.
* The loops: search, split, merge.
* The calls: `Buddy.Holds.alloc`, `Buddy.Holds.release_call`.
-/

namespace Prospero

open Words Chains Dyadic

variable {s s' : Buddy} {hand free : List Block} {live : List Live} {b c d : Block} {a : Live}

/-! ## Logarithms -/

/-- Doubling a power of two below 2^63. -/
lemma toNat_shiftLeft_one {p : UInt64} {o : ℕ} (hp : p.toNat = 2 ^ o) (ho : o < 63) :
    (p <<< 1).toNat = 2 ^ (o + 1) := by
  have hlt : 2 ^ (o + 1) < 2 ^ 64 := Nat.pow_lt_pow_right (by decide) (by omega)
  rw [UInt64.toNat_shiftLeft, hp]
  change 2 ^ o <<< 1 % 2 ^ 64 = 2 ^ (o + 1)
  rw [Nat.shiftLeft_eq, ← pow_succ, Nat.mod_eq_of_lt hlt]

lemma ceilLog2Loop_eq (v : UInt64) {n o : ℕ} {p : UInt64} (hp : p.toNat = 2 ^ o)
    (hn : o + n = 63) : ceilLog2Loop v n p o = min 63 (max o (Nat.clog 2 v.toNat)) := by
  induction n generalizing o p with
  | zero =>
    rw [ceilLog2Loop]
    omega
  | succ n ih =>
    rw [ceilLog2Loop]
    by_cases hlt : p < v
    · have hlog : o < Nat.clog 2 v.toNat := by
        rw [UInt64.lt_iff_toNat_lt, hp] at hlt
        exact (Nat.lt_clog_iff_pow_lt (by decide)).mpr hlt
      rw [if_pos hlt, ih (toNat_shiftLeft_one hp (by omega)) (by omega)]
      omega
    · have hlog : Nat.clog 2 v.toNat ≤ o := by
        rw [UInt64.lt_iff_toNat_lt, hp, not_lt] at hlt
        exact (Nat.clog_le_iff_le_pow (by decide)).mpr hlt
      rw [if_neg hlt]
      omega

/-- `pai_mem_ceil_log2` is the rounded-up binary logarithm, at most 63. -/
lemma paiMemCeilLog2_eq (v : UInt64) : paiMemCeilLog2 v = min 63 (Nat.clog 2 v.toNat) := by
  rw [paiMemCeilLog2]
  split_ifs with h
  · subst h
    rfl
  · rw [ceilLog2Loop_eq v rfl rfl, Nat.zero_max]

lemma floorLog2Loop_eq {n k o : ℕ} {v : UInt64} (hv : v.toNat = 2 ^ k) (hk : k ≤ n) :
    floorLog2Loop n v o = o + k := by
  induction n generalizing k o v with
  | zero => exact (congrArg (o + ·) (Nat.le_zero.mp hk)).symm
  | succ n ih =>
    rw [floorLog2Loop]
    cases k with
    | zero =>
      have hone : ¬ 1 < v := by
        rw [UInt64.lt_iff_toNat_lt, hv]
        decide
      rw [if_neg hone, Nat.add_zero]
    | succ k =>
      have hlt : 1 < v := by
        rw [UInt64.lt_iff_toNat_lt, hv]
        exact Nat.one_lt_two_pow (Nat.succ_ne_zero k)
      have hhalf : (v >>> 1).toNat = 2 ^ k := by
        rw [UInt64.toNat_shiftRight, hv]
        change 2 ^ (k + 1) >>> 1 = 2 ^ k
        rw [Nat.shiftRight_eq_div_pow, pow_succ, pow_one, Nat.mul_div_cancel _ (by decide)]
      rw [if_pos hlt, ih hhalf (Nat.le_of_succ_le_succ hk)]
      omega

/-- `pai_mem_floor_log2` of a power of two. -/
lemma paiMemFloorLog2_eq {v : UInt64} {k : ℕ} (hv : v.toNat = 2 ^ k) : paiMemFloorLog2 v = k := by
  have hk : k ≤ 63 := by
    have hlt := v.toNat_lt
    rw [hv] at hlt
    exact Nat.le_of_lt_succ ((Nat.pow_lt_pow_iff_right (by decide)).mp hlt)
  rw [paiMemFloorLog2, floorLog2Loop_eq hv hk, Nat.zero_add]

/-- The requests that `pai_buddy_alloc` looks at. -/
def RequestValid (size align : UInt64) : Prop :=
  size ≠ 0 ∧ paiMemIsPow2 align = true ∧ size.toNat + align.toNat + 32 < 0x10000000000000000

/-- The check at the head of `pai_buddy_alloc`. -/
lemma requestCheck_iff (size align : UInt64) :
    (size = 0 ∨ align = 0 ∨ paiMemIsPow2 align = false ∨ uint64Max - align < size ∨
      uint64Max - paiBuddyHeader < size + align) ↔ ¬ RequestValid size align := by
  have hsize := size.toNat_lt
  have halign := align.toNat_lt
  have hmax : (uint64Max - align).toNat = 0xFFFFFFFFFFFFFFFF - align.toNat := by
    have hle : align ≤ uint64Max := by
      rw [UInt64.le_iff_toNat_le]
      exact Nat.le_of_lt_succ halign
    exact UInt64.toNat_sub_of_le _ _ hle
  have hzero : paiMemIsPow2 0 = false := by decide
  have hhead : (uint64Max - paiBuddyHeader).toNat = 0xFFFFFFFFFFFFFFDF := by decide
  unfold RequestValid
  rw [UInt64.lt_iff_toNat_lt, UInt64.lt_iff_toNat_lt, hmax, hhead, UInt64.toNat_add]
  by_cases h₀ : size = 0
  · simp [h₀]
  · by_cases h₁ : paiMemIsPow2 align = true
    · have hne : align ≠ 0 := by
        rintro rfl
        exact absurd h₁ (by rw [hzero]; decide)
      simp only [h₀, hne, h₁, false_or, Bool.true_eq_false, ne_eq, not_false_eq_true, true_and,
        not_lt]
      omega
    · simp [h₁]

/-- The order of a request is at least 6, and a block of that order has room for it. -/
lemma requestOrder_eq {size align : UInt64} (h : RequestValid size align) :
    requestOrder size align =
      max 6 (min 63 (Nat.clog 2 (size.toNat + align.toNat + 32))) := by
  obtain ⟨-, -, hroom⟩ := h
  have hsum : (size + align + paiBuddyHeader).toNat = size.toNat + align.toNat + 32 := by
    rw [UInt64.toNat_add, UInt64.toNat_add]
    change ((size.toNat + align.toNat) % _ + 32) % _ = _
    rw [Nat.mod_eq_of_lt (by omega), Nat.mod_eq_of_lt (by omega)]
  rw [requestOrder, paiMemCeilLog2_eq, hsum]
  split_ifs with hlt <;> omega

/-- A block of the order of a request has room for it. -/
lemma le_requestOrder {size align : UInt64} (h : RequestValid size align)
    (hlt : requestOrder size align < 63) :
    size.toNat + align.toNat + 32 ≤ 2 ^ requestOrder size align := by
  have heq := requestOrder_eq h
  refine (Nat.clog_le_iff_le_pow (by decide)).mp ?_
  omega

/-! ## The loops -/

/-- No two free blocks are each other's sibling. -/
def Canon (free : List Block) : Prop := ∀ b ∈ free, b.sibling ∉ free

lemma Canon.cons (h : Canon free) (hb : b.sibling ∉ free) : Canon (b :: free) := by
  intro c hc hin
  rcases List.mem_cons.mp hc with rfl | hc
  · rcases List.mem_cons.mp hin with heq | hin
    · exact c.sibling_ne heq
    · exact hb hin
  · rcases List.mem_cons.mp hin with heq | hin
    · rw [← heq, Block.sibling_sibling] at hb
      exact hb hc
    · exact h c hc hin

lemma Canon.erase (h : Canon free) (b : Block) : Canon (free.erase b) := fun c hc hin =>
  h c (List.mem_of_mem_erase hc) (List.mem_of_mem_erase hin)

/-- A single block has no sibling beside it. -/
lemma canon_whole (b : Block) : Canon [b] := fun c hc hin => by
  rw [List.mem_singleton] at hc hin
  subst hc
  exact Block.sibling_ne _ hin

/-- The search finds the smallest order from `o` on with a free block, or passes the last. -/
lemma Buddy.Holds.findOrder (h : s.Holds hand free live) {n o : ℕ} (hn : o + n = s.maxOrder + 1) :
    (Prospero.findOrder s n o = some (s.maxOrder + 1) ∧ ∀ b ∈ free, b.order < o) ∨
      ∃ f, Prospero.findOrder s n o = some f ∧ o ≤ f ∧ f ≤ s.maxOrder ∧ s.freeLists f ≠ 0 := by
  induction n generalizing o with
  | zero =>
    refine Or.inl ⟨by rw [Prospero.findOrder, ← hn, Nat.add_zero], fun b hb => ?_⟩
    have hle := (h.order_lt (h.tile_mem.2.1 b hb)).1
    omega
  | succ n ih =>
    have h30 : ¬ paiBuddyMaxOrder < o := by
      have hmax := h.order_le
      omega
    rw [Prospero.findOrder, if_neg h30]
    by_cases hempty : s.freeLists o = 0
    · rw [if_pos hempty]
      have hnone : ofOrder free o = [] :=
        List.map_eq_nil_iff.mp ((h.lists o).head_eq_zero_iff.mp hempty)
      rcases ih (o := o + 1) (by omega) with ⟨hfind, hall⟩ | ⟨f, hfind, hle, hmax, hne⟩
      · refine Or.inl ⟨hfind, fun b hb => ?_⟩
        have hlt := hall b hb
        have hbo : b.order ≠ o := fun heq =>
          List.filter_eq_nil_iff.mp hnone b hb (by simpa using heq)
        omega
      · exact Or.inr ⟨f, hfind, by omega, hmax, hne⟩
    · rw [if_neg hempty]
      exact Or.inr ⟨o, rfl, le_rfl, by omega, hempty⟩

/-- One split: the upper half of the block in hand becomes free. -/
lemma Buddy.Holds.split (h : s.Holds (b :: hand) free live) (hb : 6 < b.order) :
    ∃ s', freeListPush (blockSetHeader s (s.addr b + 2 ^ (b.order - 1)) paiBuddyMagicFree
        (b.order - 1)) (b.order - 1) (s.addr b + 2 ^ (b.order - 1)) = some s' ∧
      s'.Holds (b.left :: hand) (b.right :: free) live ∧ SameRegion s s' := by
  have hright : s.addr b.right = s.addr b + 2 ^ (b.order - 1) := by
    unfold Buddy.addr
    rw [Block.right_off (by omega), Nat.add_assoc]
  have htiling : Tiling s.maxOrder (b.left :: b.right :: (hand ++ free ++ live.map Live.block)) :=
    Tiling.split h.tiling (by omega)
  have hhalves : s.Holds (b.left :: b.right :: hand) free live :=
    { h with
      tiling := htiling
      min_order := fun c hc => by
        rcases List.mem_cons.mp hc with rfl | hc
        · exact Nat.le_sub_one_of_lt hb
        rcases List.mem_cons.mp hc with rfl | hc
        · exact Nat.le_sub_one_of_lt hb
        · exact h.min_order c (List.mem_cons_of_mem _ hc) }
  obtain ⟨s', hpush, hholds, hregion⟩ :=
    ((hhalves.perm_hand (List.Perm.swap _ _ _)).setHeader paiBuddyMagicFree (b.order - 1)).push
  refine ⟨s', ?_, hholds, ⟨hregion.base, hregion.size, hregion.maxOrder, hregion.usedBytes⟩⟩
  rw [← hright]
  exact hpush

/-- The split loop brings the block in hand down to the order asked for; the upper halves become
free. -/
lemma Buddy.Holds.splitDown {order n : ℕ} (h : s.Holds (b :: hand) free live) (hcanon : Canon free)
    (hb : b.order = order + n) (horder : 6 ≤ order) :
    ∃ s' b' free', Prospero.splitDown s (s.addr b) order n = some s' ∧ s'.addr b' = s.addr b ∧
      b'.order = order ∧ s'.Holds (b' :: hand) free' live ∧ Canon free' ∧ SameRegion s s' ∧
      ∀ c ∈ free', c ∈ free ∨ order ≤ c.order := by
  induction n generalizing s b free with
  | zero =>
    exact ⟨s, b, free, rfl, rfl, hb, h, hcanon, SameRegion.refl s, fun c hc => Or.inl hc⟩
  | succ n ih =>
    obtain ⟨s₁, hpush, hholds, hregion⟩ := h.split (by omega)
    have hprev : b.order - 1 = order + n := by omega
    have hleft : s₁.addr b.left = s.addr b := by
      rw [hregion.addr]
      unfold Buddy.addr
      rw [Block.left_off (by omega)]
    have hcanon₁ : Canon (b.right :: free) := hcanon.cons fun hin => by
      have hsibling : b.right.sibling = b.left := by
        rw [← Block.left_sibling, Block.sibling_sibling]
      rw [hsibling] at hin
      exact hholds.apart_free (List.mem_cons_of_mem _ hin) _ b.left.has_off b.left.has_off
    let s₂ : Buddy := { s₁ with splits := s₁.splits + 1 }
    have hholds₂ : s₂.Holds (b.left :: hand) (b.right :: free) live := hholds.counters _ _ _ _
    have hregion₂ : SameRegion s s₂ :=
      ⟨hregion.base, hregion.size, hregion.maxOrder, hregion.usedBytes⟩
    have haddr₂ : s₂.addr b.left = s.addr b := hleft
    obtain ⟨s', b', free', hsplit, haddr, hord, hholds', hcanon', hregion', hfree'⟩ :=
      ih hholds₂ hcanon₁ hprev
    refine ⟨s', b', free', ?_, haddr.trans haddr₂, hord, hholds', hcanon',
      hregion₂.trans hregion', fun c hc => ?_⟩
    · rw [hprev] at hpush
      rw [Prospero.splitDown]
      simp only [hpush, Option.bind_some]
      rw [← haddr₂]
      exact hsplit
    · rcases hfree' c hc with hc | hc
      · rcases List.mem_cons.mp hc with rfl | hc
        · refine Or.inr ?_
          change order ≤ b.order - 1
          omega
        · exact Or.inl hc
      · exact Or.inr hc

/-- The header at a block's sibling says free at its order exactly when the sibling is free. -/
lemma Buddy.Holds.sibling_isFree_iff (h : s.Holds [b] free live) (hb : b.order < s.maxOrder) :
    blockIsFree s (s.addr b.sibling) b.order ↔ b.sibling ∈ free := by
  constructor
  · rintro ⟨-, hmagic, horder⟩
    obtain ⟨c, hc, hoff, -⟩ := h.tiling.sibling_tile List.mem_cons_self hb
    have haddr : s.addr b.sibling = s.addr c := by
      unfold Buddy.addr
      rw [hoff]
    rw [haddr] at hmagic horder
    rcases List.mem_append.mp hc with hc | hc
    · rcases List.mem_append.mp hc with hc | hc
      · -- a block does not start where its sibling does
        rw [List.mem_singleton.mp hc] at hoff
        exact absurd (hoff ▸ b.sibling.has_off) (b.apart_sibling _ b.has_off)
      · have heq : c = b.sibling := by
          refine Block.Has.eq (p := c.off) ?_ c.has_off (hoff ▸ b.sibling.has_off)
          rw [← h.free_order c hc]
          exact horder
        exact heq ▸ hc
    · -- a live block says that it is allocated
      obtain ⟨a, ha, rfl⟩ := List.mem_map.mp hc
      rw [h.live_magic a ha] at hmagic
      exact absurd hmagic (by decide)
  · intro hin
    refine ⟨(Nat.add_pos_left h.base_pos _).ne', h.free_magic _ hin, h.free_order _ hin⟩

/-- The merge loop: the block in hand grows while its sibling is free. -/
lemma Buddy.Holds.mergeUp {n : ℕ} (h : s.Holds [b] free live) (hcanon : Canon free)
    (hn : b.order + n = s.maxOrder) :
    ∃ s' b' free', Prospero.mergeUp s (s.addr b) b.order n = some (s', s'.addr b', b'.order) ∧
      s'.Holds [b'] free' live ∧ Canon free' ∧ b'.sibling ∉ free' ∧ SameRegion s s' ∧
      Coarsens s s' (b :: free) (b' :: free') := by
  induction n generalizing s b free with
  | zero =>
    refine ⟨s, b, free, rfl, h, hcanon, fun hin => ?_, SameRegion.refl s, Coarsens.refl s _⟩
    -- the whole region has no sibling in it
    have hend := h.tiling.end_le (h.tile_mem.2.1 _ hin)
    have hwhole := h.tiling.end_le (h.tile_mem.1 b List.mem_cons_self)
    have hsize : b.size = 2 ^ s.maxOrder := by
      rw [← hn]
      rfl
    have hside := b.apart_sibling.le_or_le
    have := b.size_pos
    rw [Block.sibling_size] at hend hside
    omega
  | succ n ih =>
    have hlt : b.order < s.maxOrder := by omega
    have hoff : (s.addr b - s.base) ^^^ 2 ^ b.order = b.sibling.off := by
      rw [Block.sibling_off]
      unfold Buddy.addr Block.size
      rw [Nat.add_sub_cancel_left]
    have hin : ¬ s.size.toNat ≤ b.sibling.off := by
      obtain ⟨c, hc, hcoff, -⟩ := h.tiling.sibling_tile List.mem_cons_self hlt
      have hend := h.tiling.end_le hc
      have := c.size_pos
      rw [h.size_eq, ← hcoff]
      omega
    have hround : Prospero.mergeUp s (s.addr b) b.order (n + 1) =
        if blockIsFree s (s.addr b.sibling) b.order then
          (freeListRemove s b.order (s.addr b.sibling)).bind fun s₁ =>
            Prospero.mergeUp { s₁ with merges := s₁.merges + 1 }
              (if s.addr b.sibling < s.addr b then s.addr b.sibling else s.addr b) (b.order + 1) n
        else some (s, s.addr b, b.order) := by
      rw [Prospero.mergeUp]
      simp only [hoff, hin, false_or, ite_not]
      rfl
    have hparent : (if s.addr b.sibling < s.addr b then s.addr b.sibling else s.addr b) =
        s.addr b.parent := by
      unfold Buddy.addr
      rw [Block.parent_off]
      split_ifs <;> omega
    by_cases hfree : b.sibling ∈ free
    · obtain ⟨s₁, hremove, hholds, hregion⟩ := h.remove hfree
      rw [Block.sibling_order] at hremove
      let s₂ : Buddy := { s₁ with merges := s₁.merges + 1 }
      have hregion₂ : SameRegion s s₂ :=
        ⟨hregion.base, hregion.size, hregion.maxOrder, hregion.usedBytes⟩
      have hpair : s₁.Holds [b, b.sibling] (free.erase b.sibling) live :=
        hholds.perm_hand (List.Perm.swap _ _ _)
      have hmerged : s₁.Holds [b.parent] (free.erase b.sibling) live :=
        { hpair with
          tiling := Tiling.merge hpair.tiling
          min_order := fun c hc => by
            rcases List.mem_cons.mp hc with rfl | hc
            · exact (hpair.min_order b List.mem_cons_self).trans (Nat.le_succ _)
            · exact hpair.min_order c (List.mem_cons_of_mem _ (List.mem_cons_of_mem _ hc)) }
      have hholds₂ : s₂.Holds [b.parent] (free.erase b.sibling) live := hmerged.counters _ _ _ _
      have hnext : b.parent.order + n = s₂.maxOrder := by
        rw [hregion₂.maxOrder, ← hn]
        exact Nat.add_right_comm b.order 1 n
      have hcoarse : Coarsens s s₁ (b :: free) (b.parent :: free.erase b.sibling) :=
        coarsens_of_merge hregion.base (h.lists b.order) hfree hremove
      have hcoarse₂ : Coarsens s s₂ (b :: free) (b.parent :: free.erase b.sibling) := hcoarse
      obtain ⟨s', b', free', hmerge, hholds', hcanon', hsib', hregion', hcoarse'⟩ :=
        ih hholds₂ (hcanon.erase _) hnext
      refine ⟨s', b', free', ?_, hholds', hcanon', hsib', hregion₂.trans hregion',
        hcoarse₂.trans hcoarse'⟩
      rw [hround, if_pos ((h.sibling_isFree_iff hlt).mpr hfree), hremove, hparent,
        ← hregion₂.addr b.parent]
      exact hmerge
    · refine ⟨s, b, free, ?_, h, hcanon, hfree, SameRegion.refl s, Coarsens.refl s _⟩
      rw [hround, if_neg (mt (h.sibling_isFree_iff hlt).mp hfree)]

/-! ## The calls -/

/-- **`pai_buddy_alloc`.**  The call fails without a change, exactly when the request is invalid or no free
block has its order or more; else a block of its order becomes live. -/
lemma Buddy.Holds.alloc (h : s.Holds [] free live) (hcanon : Canon free) (size align : UInt64) :
    (paiBuddyAlloc s size align = some (s, 0) ∧
        (RequestValid size align → ∀ b ∈ free, b.order < requestOrder size align)) ∨
      ∃ s' b ptr free', paiBuddyAlloc s size align = some (s', ptr) ∧ ptr ≠ 0 ∧
        RequestValid size align ∧ b.order = requestOrder size align ∧
        s'.Holds [] free' (⟨b, ptr, size, align⟩ :: live) ∧ Canon free' ∧
        (s'.base = s.base ∧ s'.size = s.size ∧ s'.maxOrder = s.maxOrder) ∧
        ∀ c ∈ free', c ∈ free ∨ requestOrder size align ≤ c.order := by
  rw [paiBuddyAlloc]
  by_cases hvalid : RequestValid size align
  · rw [if_neg (mt (requestCheck_iff size align).mp (not_not.mpr hvalid))]
    simp only
    by_cases hlarge : s.maxOrder < requestOrder size align
    · rw [if_pos hlarge]
      refine Or.inl ⟨rfl, fun _ b hb => ?_⟩
      exact ((h.order_lt (h.tile_mem.2.1 b hb)).1).trans_lt hlarge
    · rw [if_neg hlarge]
      obtain ⟨hfind, hall⟩ | ⟨f, hfind, hle, hmax, hne⟩ :=
        h.findOrder (n := s.maxOrder + 1 - requestOrder size align)
          (o := requestOrder size align) (by omega)
      · rw [hfind, Option.bind_some, if_pos (Nat.lt_succ_self _)]
        exact Or.inl ⟨rfl, fun _ => hall⟩
      · rw [hfind, Option.bind_some, if_neg (by omega)]
        obtain ⟨b, hb, hbf, s₁, hpop, hholds₁, hregion₁⟩ := h.pop hmax hne
        have h6 : 6 ≤ requestOrder size align := (requestOrder_eq hvalid).ge.trans' (le_max_left _ _)
        obtain ⟨s₂, b', free', hsplit, haddr, hord, hholds₂, hcanon₂, hregion₂, hfree₂⟩ :=
          hholds₁.splitDown (n := f - requestOrder size align) (hcanon.erase b)
            (by omega) h6
        rw [hpop, Option.bind_some]
        simp only
        rw [hregion₁.addr] at hsplit haddr
        rw [hsplit, Option.bind_some]
        have hregion := hregion₁.trans hregion₂
        have hmark : Prospero.markAllocated s₂ (s.addr b) (requestOrder size align) align =
            Prospero.markAllocated s₂ (s₂.addr b') b'.order align := by
          rw [haddr, hord]
        have h30 : requestOrder size align < 63 := by
          have hcap : s.maxOrder ≤ 30 := h.order_le
          omega
        have hroom : size.toNat + align.toNat + 32 ≤ b'.size := by
          have := le_requestOrder hvalid h30
          rw [Block.size, hord]
          exact this
        have hmarked := hholds₂.markAllocated hvalid.2.1 hroom
        rw [hmark]
        refine Or.inr ⟨_, b', _, free', rfl, ?_, hvalid, hord, hmarked, hcanon₂,
          ⟨hregion.base, hregion.size, hregion.maxOrder⟩, fun c hc => ?_⟩
        · have hge := hmarked.payload_ge _ List.mem_cons_self
          exact ((by decide : 0 < 32).trans_le ((Nat.le_add_left 32 _).trans hge)).ne'
        · rcases hfree₂ c hc with hc | hc
          · exact Or.inl (List.mem_of_mem_erase hc)
          · exact Or.inr hc
  · rw [if_pos ((requestCheck_iff size align).mpr hvalid)]
    exact Or.inl ⟨rfl, fun hv => absurd hv hvalid⟩

/-- **`pai_buddy_free`.**  A live allocation becomes free, merged with its siblings as far as they are;
its block is marked as free, and all else that is written are headers and links of free blocks. -/
lemma Buddy.Holds.release_call (h : s.Holds [] free live) (hcanon : Canon free) (ha : a ∈ live) :
    ∃ s' free', paiBuddyFree s a.ptr = some s' ∧ s'.Holds [] free' (live.erase a) ∧ Canon free' ∧
      (s'.base = s.base ∧ s'.size = s.size ∧ s'.maxOrder = s.maxOrder) ∧
      Coarsens s s' (a.block :: free) free' ∧
      ∀ starts, Spaced starts → (∀ c ∈ a.block :: free, starts (s.addr c)) →
        load s'.mem (s.addr a.block) 8 = paiBuddyMagicFree := by
  have hatile := h.tile_mem.2.2 a ha
  have hge := h.payload_ge a ha
  have hend := h.addr_end hatile
  have hsize := h.size_eq
  have hpos := a.block.size_pos
  have hbase : s.base ≤ s.addr a.block := Nat.le_add_right _ _
  obtain ⟨hmax, h30, -⟩ := h.order_lt hatile
  have hsize30 : a.block.size ≤ 2 ^ 30 := Nat.pow_le_pow_right (by decide) h30
  have hof : (UInt64.ofNat (2 ^ a.block.order)).toNat = a.block.size := by
    rw [UInt64.toNat_ofNat']
    exact Nat.mod_eq_of_lt (by change a.block.size < _; omega)
  have hused : a.block.size ≤ s.usedBytes.toNat := by
    rw [h.used]
    exact List.le_sum_of_mem (List.mem_map_of_mem ha)
  let s₁ : Buddy := { s with
    usedBytes := s.usedBytes - UInt64.ofNat (2 ^ a.block.order)
    frees := s.frees + 1 }
  have hused₁ : s₁.usedBytes.toNat + a.block.size = s.usedBytes.toNat := by
    change (s.usedBytes - UInt64.ofNat (2 ^ a.block.order)).toNat + _ = _
    have hle : UInt64.ofNat (2 ^ a.block.order) ≤ s.usedBytes := by
      rw [UInt64.le_iff_toNat_le, hof]
      exact hused
    rw [UInt64.toNat_sub_of_le _ _ hle, hof]
    omega
  have hholds₁ : s₁.Holds [a.block] free (live.erase a) :=
    h.release ha ⟨rfl, rfl, rfl⟩ rfl rfl hused₁
  obtain ⟨s₃, b, free', hmerge, hholds₃, hcanon₃, hsib₃, hregion₃, hcoarse₃⟩ :=
    (hholds₁.setHeader paiBuddyMagicFree a.block.order).mergeUp (n := s.maxOrder - a.block.order)
      hcanon (by change a.block.order + _ = s.maxOrder; omega)
  obtain ⟨s', hpush, hholds', hregion'⟩ := hholds₃.push
  have hcoarse := hcoarse₃.trans (coarsens_of_push hregion'.base hpush)
  refine ⟨s', b :: free', ?_, hholds', hcanon₃.cons hsib₃, ⟨hregion'.base.trans hregion₃.base,
    hregion'.size.trans hregion₃.size, hregion'.maxOrder.trans hregion₃.maxOrder⟩,
    fun starts hspaced htiles => ?_, fun starts hspaced htiles => ?_⟩
  rotate_left
  · obtain ⟨hfrees, htiles'⟩ := hcoarse starts hspaced htiles
    have hheader : FreesOnly starts s.mem (blockSetHeader s₁ (s.addr a.block) paiBuddyMagicFree
        a.block.order).mem := freesOnly_blockSetHeader (s := s₁) hspaced (htiles _ List.mem_cons_self)
    exact ⟨hheader.trans hfrees, htiles'⟩
  · have hmarked := (blockSetHeader_spec s₁ (s.addr a.block)
      (show paiBuddyMagicFree < 256 ^ 8 by decide) (h.order_lt hatile).2.2).1
    rcases (hcoarse starts hspaced htiles).1.magic _ (htiles _ List.mem_cons_self) with hsame | hfree
    · exact hsame.trans hmarked
    · exact hfree
  have hptr : a.ptr ≠ 0 := by omega
  have hin : ¬ (s.addr a.block < s.base ∨ s.base + s.size.toNat ≤ s.addr a.block) := by omega
  have hlive := h.live_magic a ha
  rw [paiBuddyFree, if_neg hptr]
  simp only [h.back a ha, if_neg hin, hlive, h.live_order a ha, ne_eq, not_true_eq_false, if_false]
  exact (congrArg (fun r : Option (Buddy × ℕ × ℕ) =>
    r.bind fun q => freeListPush q.1 q.2.2 q.2.1) hmerge).trans hpush

/-! ## Runs -/

/-- What the caller knows of a live allocation. -/
structure Allocation where
  /-- The pointer handed out. -/
  ptr : ℕ
  /-- The size asked for. -/
  size : UInt64
  /-- The alignment asked for. -/
  align : UInt64

/-- A call, or a write of the user into a payload; live allocations are counted from the latest. -/
inductive BuddyCall
  /-- `pai_buddy_alloc`. -/
  | alloc (size align : UInt64)
  /-- `pai_buddy_free` of a live pointer. -/
  | free (i : ℕ)
  /-- Bytes written into a payload. -/
  | write (i : ℕ) (bytes : Mem)

/-- One call. -/
def buddyCall (s : Buddy) (as : List Allocation) : BuddyCall → Option (Buddy × List Allocation)
  | .alloc size align =>
    (paiBuddyAlloc s size align).map fun r =>
      (r.1, if r.2 = 0 then as else ⟨r.2, size, align⟩ :: as)
  | .free i =>
    match as[i]? with
    | none => some (s, as)
    | some a => (paiBuddyFree s a.ptr).map fun s' => (s', as.eraseIdx i)
  | .write i bytes =>
    match as[i]? with
    | none => some (s, as)
    | some a =>
      some ({ s with mem := fun p =>
        if a.ptr ≤ p ∧ p < a.ptr + a.size.toNat then bytes p else s.mem p }, as)

/-- A sequence of calls. -/
def buddyCalls (s : Buddy) (as : List Allocation) :
    List BuddyCall → Option (Buddy × List Allocation)
  | [] => some (s, as)
  | call :: calls => (buddyCall s as call).bind fun r => buddyCalls r.1 r.2 calls

/-- A sequence of calls on a fresh region. -/
def buddyRun (mem : Mem) (memory size : UInt64) (calls : List BuddyCall) :
    Option (Buddy × List Allocation) :=
  (paiBuddyInit mem memory.toNat size).bind fun r =>
    match r with
    | .ok s => buddyCalls s [] calls
    | .error _ => none

/-- The caller's side of a live allocation. -/
def Live.allocation (a : Live) : Allocation := ⟨a.ptr, a.size, a.align⟩

/-- Two runs of addresses share nothing. -/
def RunsApart (x n y k : ℕ) : Prop := x + n ≤ y ∨ y + k ≤ x

/-- Free and live blocks partition the region, every free list holds the free blocks of its order, and
every payload keeps to its own place. -/
structure BuddyInvariant (s : Buddy) (free : List Block) (live : List Live) : Prop where
  /-- The region is a power of two. -/
  region : s.size.toNat = 2 ^ s.maxOrder
  /-- Free and live blocks tile it. -/
  tiling : Tiling s.maxOrder (free ++ live.map Live.block)
  /-- The orders in use have a free list. -/
  order_le : ∀ b ∈ free ++ live.map Live.block, b.order ≤ paiBuddyMaxOrder
  /-- Every free list runs through the free blocks of its order. -/
  lists : ∀ o, Linked s.next (s.freeLists o) ((ofOrder free o).map s.addr)
  /-- No two free blocks are buddies. -/
  canon : ∀ b ∈ free, b.sibling ∉ free
  /-- `used_bytes` adds up the live blocks. -/
  used : s.usedBytes.toNat = (live.map fun a => a.block.size).sum
  /-- Payloads are aligned. -/
  aligned : ∀ a ∈ live, a.align.toNat ∣ a.ptr
  /-- Payloads lie in their own block. -/
  inside : ∀ a ∈ live, s.addr a.block ≤ a.ptr ∧ a.ptr + a.size.toNat ≤ s.addr a.block + a.block.size
  /-- Payloads do not overlap each other. -/
  payloads : live.Pairwise fun a e => RunsApart a.ptr a.size.toNat e.ptr e.size.toNat
  /-- Payloads do not overlap block headers. -/
  headers : ∀ a ∈ live, ∀ b ∈ free ++ live.map Live.block,
    RunsApart a.ptr a.size.toNat (s.addr b) paiBuddyHeader.toNat
  /-- Payloads do not overlap back-pointers. -/
  backs : ∀ a ∈ live, ∀ e ∈ live, RunsApart a.ptr a.size.toNat (e.ptr - 8) 8
  /-- The back-pointers lead to the blocks. -/
  back : ∀ a ∈ live, load s.mem (a.ptr - 8) 8 = s.addr a.block

/-- The allocator and its caller agree on a picture that satisfies the invariant. -/
def BuddySound (s : Buddy) (as : List Allocation) : Prop :=
  ∃ free live, live.map Live.allocation = as ∧ BuddyInvariant s free live

/-- What the picture says in the caller's terms. -/
lemma Buddy.Holds.invariant (h : s.Holds [] free live) (hcanon : Canon free) :
    BuddyInvariant s free live where
  region := h.size_eq
  tiling := h.tiling
  order_le := fun b hb => (h.order_lt hb).2.1
  lists := h.lists
  canon := hcanon
  used := h.used
  aligned := h.payload_align
  inside := fun a ha => ⟨(Nat.le_add_right _ 32).trans (h.payload_ge a ha), h.payload_le a ha⟩
  payloads := by
    have hnodup : (live.map Live.block).Nodup := (List.nodup_append.mp h.tiling.nodup).2.1
    refine ((List.pairwise_map.mp hnodup).imp_of_mem fun {a e} ha he hne => ?_)
    have hside := (h.apart_of_ne (h.tile_mem.2.2 a ha) (h.tile_mem.2.2 e he) hne).le_or_le
    have hage := h.payload_ge a ha
    have hale := h.payload_le a ha
    have hege := h.payload_ge e he
    have hele := h.payload_le e he
    unfold RunsApart
    unfold Buddy.addr at *
    omega
  headers := fun a ha b hb => by
    have hge := h.payload_ge a ha
    have hle := h.payload_le a ha
    have hsize := size_ge (h.min_order b hb)
    change a.ptr + a.size.toNat ≤ s.addr b ∨ s.addr b + 32 ≤ a.ptr
    by_cases heq : a.block = b
    · rw [← heq]
      exact Or.inr hge
    · have hside := (h.apart_of_ne (h.tile_mem.2.2 a ha) hb heq).le_or_le
      unfold Buddy.addr at *
      omega
  backs := fun a ha e he => by
    have hge := h.payload_ge a ha
    have hle := h.payload_le a ha
    have hege := h.payload_ge e he
    have hele := h.payload_le e he
    unfold RunsApart
    by_cases heq : a = e
    · subst heq
      omega
    · have hside := (h.apart_of_ne (h.tile_mem.2.2 a ha) (h.tile_mem.2.2 e he)
        (h.block_ne ha he heq)).le_or_le
      unfold Buddy.addr at *
      omega
  back := h.back

/-- The allocator holds a picture whose live blocks are the caller's. -/
def BuddyHeld (s : Buddy) (as : List Allocation) : Prop :=
  ∃ free live, live.map Live.allocation = as ∧ s.Holds [] free live ∧ Canon free

/-- Every call succeeds in its accesses and keeps the picture. -/
lemma buddyCall_held {as : List Allocation} (h : BuddyHeld s as) (call : BuddyCall) :
    ∃ s' as', buddyCall s as call = some (s', as') ∧ BuddyHeld s' as' ∧
      (s'.base = s.base ∧ s'.size = s.size ∧ s'.maxOrder = s.maxOrder) := by
  obtain ⟨free, live, rfl, hholds, hcanon⟩ := h
  cases call with
  | alloc size align =>
    rw [buddyCall]
    obtain ⟨hcall, -⟩ | ⟨s', b, ptr, free', hcall, hptr, -, -, hholds', hcanon', hregion, -⟩ :=
      hholds.alloc hcanon size align
    · rw [hcall]
      exact ⟨s, _, rfl, ⟨free, live, rfl, hholds, hcanon⟩, rfl, rfl, rfl⟩
    · rw [hcall]
      refine ⟨s', _, rfl, ⟨free', _, ?_, hholds', hcanon'⟩, hregion⟩
      rw [if_neg hptr]
      rfl
  | free i =>
    rw [buddyCall, List.getElem?_map]
    rcases hi : live[i]? with _ | a
    · exact ⟨s, _, rfl, ⟨free, live, rfl, hholds, hcanon⟩, rfl, rfl, rfl⟩
    · obtain ⟨hlt, hget⟩ := List.getElem?_eq_some_iff.mp hi
      have ha : a ∈ live := hget ▸ List.getElem_mem hlt
      obtain ⟨s', free', hcall, hholds', hcanon', hregion, -⟩ := hholds.release_call hcanon ha
      have hnodup : live.Nodup :=
        List.Nodup.of_map _ (List.nodup_append.mp hholds.tiling.nodup).2.1
      have herase : live.erase a = live.eraseIdx i := hget ▸ hnodup.erase_getElem i hlt
      refine ⟨s', _, ?_, ⟨free', live.erase a, rfl, hholds', hcanon'⟩, hregion⟩
      change (paiBuddyFree s a.ptr).map _ = _
      rw [hcall, herase, Option.map_some, List.eraseIdx_map]
  | write i bytes =>
    rw [buddyCall, List.getElem?_map]
    rcases hi : live[i]? with _ | a
    · exact ⟨s, _, rfl, ⟨free, live, rfl, hholds, hcanon⟩, rfl, rfl, rfl⟩
    · refine ⟨_, _, rfl, ⟨free, live, rfl, hholds.userWrite (List.mem_of_getElem? hi) ?_, hcanon⟩,
        rfl, rfl, rfl⟩
      intro p hp
      exact (if_neg (by change ¬ (a.ptr ≤ p ∧ p < a.ptr + a.size.toNat); omega)).symm

/-- Every sequence of calls does. -/
lemma buddyCalls_held {as : List Allocation} (h : BuddyHeld s as) (calls : List BuddyCall) :
    ∃ s' as', buddyCalls s as calls = some (s', as') ∧ BuddyHeld s' as' ∧
      (s'.base = s.base ∧ s'.size = s.size ∧ s'.maxOrder = s.maxOrder) := by
  induction calls generalizing s as with
  | nil => exact ⟨s, as, rfl, h, rfl, rfl, rfl⟩
  | cons call calls ih =>
    obtain ⟨s₁, as₁, hcall, hheld₁, hbase₁, hsize₁, hmax₁⟩ := buddyCall_held h call
    obtain ⟨s₂, as₂, hcalls, hheld₂, hbase₂, hsize₂, hmax₂⟩ := ih hheld₁
    refine ⟨s₂, as₂, ?_, hheld₂, hbase₂.trans hbase₁, hsize₂.trans hsize₁, hmax₂.trans hmax₁⟩
    rw [buddyCalls, hcall, Option.bind_some]
    exact hcalls

/-- The regions `pai_buddy_init` accepts. -/
lemma paiBuddyInit_accepts {mem : Mem} {memory : ℕ} {size : UInt64}
    (h : paiBuddyInit mem memory size ≠ some (.error paiErrInvalidArg)) :
    0 < memory ∧ (∃ k, 7 ≤ k ∧ k < 64 ∧ size.toNat = 2 ^ k) ∧ size.toNat ∣ memory ∧
      paiBuddyInit mem memory size =
        (freeListPush
          { base := memory, size := size, maxOrder := paiMemFloorLog2 size, freeLists := fun _ => 0
            usedBytes := 0, allocs := 0, frees := 0, splits := 0, merges := 0, mem := mem }
          (paiMemFloorLog2 size) memory).map Except.ok := by
  rw [paiBuddyInit] at h ⊢
  split_ifs at h ⊢ with hcheck
  · exact absurd rfl h
  · push Not at hcheck
    obtain ⟨hmem, hpow, hsize, hmod⟩ := hcheck
    obtain ⟨k, hk, hkeq⟩ := paiMemIsPow2_iff.mp (Bool.eq_true_of_not_eq_false hpow)
    have hlarge : 2 ^ 7 ≤ 2 ^ k := by
      rw [UInt64.lt_iff_toNat_lt, hkeq, not_lt] at hsize
      exact hsize
    have h7 : 7 ≤ k := (Nat.pow_le_pow_iff_right (by decide)).mp hlarge
    exact ⟨Nat.pos_of_ne_zero hmem, ⟨k, h7, hk, hkeq⟩, Nat.dvd_of_mod_eq_zero hmod, rfl⟩

/-- A fresh region of at most 2^30 bytes holds one free block. -/
lemma paiBuddyInit_held {mem : Mem} {memory size : UInt64}
    (h : paiBuddyInit mem memory.toNat size ≠ some (.error paiErrInvalidArg))
    (hsize : size.toNat ≤ 0x40000000) :
    ∃ s, paiBuddyInit mem memory.toNat size = some (.ok s) ∧
      s.Holds [] [⟨s.maxOrder, 0⟩] [] ∧ s.base = memory.toNat ∧ s.size = size := by
  obtain ⟨hpos, ⟨k, h7, hk, hkeq⟩, ⟨q, hq⟩, hinit⟩ := paiBuddyInit_accepts h
  have hlog : paiMemFloorLog2 size = k := paiMemFloorLog2_eq hkeq
  have h30 : k ≤ 30 := by
    rw [hkeq] at hsize
    exact (Nat.pow_le_pow_iff_right (by decide : 1 < 2)).mp hsize
  rw [hlog] at hinit
  let s₀ : Buddy :=
    { base := memory.toNat, size := size, maxOrder := k, freeLists := fun _ => 0
      usedBytes := 0, allocs := 0, frees := 0, splits := 0, merges := 0, mem := mem }
  have hend : memory.toNat + 2 ^ k ≤ 2 ^ 64 := by
    -- an aligned region below 2^64 ends at most there
    have hlt := memory.toNat_lt
    have hpow : 2 ^ 64 = 2 ^ k * 2 ^ (64 - k) := by
      rw [← pow_add]
      congr 1
      omega
    rw [hkeq] at hq
    rw [hq, hpow] at hlt ⊢
    have hq' : q < 2 ^ (64 - k) := lt_of_mul_lt_mul_left hlt (Nat.zero_le _)
    rw [← Nat.mul_succ]
    exact Nat.mul_le_mul_left _ hq'
  have hholds : s₀.Holds [⟨k, 0⟩] [] [] :=
    { order_le := h30
      size_eq := hkeq
      base_pos := hpos
      base_end := hend
      tiling := Tiling.single k
      min_order := fun c hc => by
        rw [List.mem_singleton.mp hc]
        exact (by decide : 6 ≤ 7).trans h7
      lists := fun o => rfl
      free_magic := fun c hc => by cases hc
      free_order := fun c hc => by cases hc
      live_magic := fun c hc => by cases hc
      live_order := fun c hc => by cases hc
      back := fun c hc => by cases hc
      payload_ge := fun c hc => by cases hc
      payload_align := fun c hc => by cases hc
      payload_le := fun c hc => by cases hc
      used := rfl }
  obtain ⟨s, hpush, hs, hregion⟩ := hholds.push
  have haddr : s₀.addr ⟨k, 0⟩ = memory.toNat := by
    unfold Buddy.addr Block.off
    simp [s₀]
  rw [haddr] at hpush
  refine ⟨s, ?_, ?_, hregion.base, hregion.size⟩
  · rw [hinit]
    exact congrArg (Option.map Except.ok) hpush
  · rw [hregion.maxOrder]
    exact hs

/-! ## Main result -/

/-- A region above 2^30 bytes has no free list for its own order. -/
lemma paiBuddyInit_large {mem : Mem} {memory : ℕ} {size : UInt64}
    (h : paiBuddyInit mem memory size ≠ some (.error paiErrInvalidArg))
    (hsize : 0x40000000 < size.toNat) : paiBuddyInit mem memory size = none := by
  obtain ⟨-, ⟨k, -, -, hkeq⟩, -, hinit⟩ := paiBuddyInit_accepts h
  have h30 : 30 < k := by
    rw [hkeq] at hsize
    exact (Nat.pow_lt_pow_iff_right (by decide : 1 < 2)).mp hsize
  have hpush {s : Buddy} : freeListPush s k memory = none := if_pos h30
  rw [hinit, paiMemFloorLog2_eq hkeq, hpush]
  rfl

/-- **Buddy invariant.**  On a region accepted by `pai_buddy_init`, every sequence of allocations, frees of
live pointers and writes into payloads keeps the invariant without touching anything outside `free_lists`,
exactly when the region has at most 2^30 bytes. -/
theorem buddySound_iff (mem : Mem) (memory size : UInt64)
    (h : paiBuddyInit mem memory.toNat size ≠ some (.error paiErrInvalidArg)) :
    (∀ calls, ∃ s as, buddyRun mem memory size calls = some (s, as) ∧ BuddySound s as) ↔
      size.toNat ≤ 0x40000000 := by
  constructor
  · intro hall
    by_contra hlarge
    obtain ⟨s, as, hrun, -⟩ := hall []
    rw [buddyRun, paiBuddyInit_large h (not_le.mp hlarge)] at hrun
    exact absurd hrun (by simp)
  · intro hsize calls
    obtain ⟨s₀, hinit, hholds, -, -⟩ := paiBuddyInit_held h hsize
    obtain ⟨s, as, hrun, ⟨free, live, has, hs, hc⟩, -⟩ :=
      buddyCalls_held ⟨_, [], rfl, hholds, canon_whole _⟩ calls
    refine ⟨s, as, ?_, free, live, has, hs.invariant hc⟩
    rw [buddyRun, hinit, Option.bind_some]
    exact hrun

/-- An allocation and its release in a region of 128 bytes. -/
theorem buddySound_iff_small :
    ∃ s as, buddyRun (fun _ => 0) 128 128 [.alloc 8 8, .free 0] = some (s, as) ∧ BuddySound s as :=
  (buddySound_iff (fun _ => 0) 128 128 (by
    rw [paiBuddyInit, if_neg (by decide)]
    simp [Option.map_eq_some_iff])).mpr (by decide) [.alloc 8 8, .free 0]

/-- A region of 2^31 bytes is accepted, and its free list lies outside `free_lists`. -/
theorem buddySound_fails :
    paiBuddyInit (fun _ => 0) 0x80000000 0x80000000 ≠ some (.error paiErrInvalidArg) ∧
      ¬ ∃ s as, buddyRun (fun _ => 0) 0x80000000 0x80000000 [] = some (s, as) ∧
        BuddySound s as := by
  have hinit : paiBuddyInit (fun _ => 0) 0x80000000 0x80000000 = none := rfl
  refine ⟨by rw [hinit]; simp, ?_⟩
  rintro ⟨s, as, hrun, -⟩
  have hnone : buddyRun (fun _ => 0) 0x80000000 0x80000000 [] = none := rfl
  rw [hnone] at hrun
  exact absurd hrun (by simp)

end Prospero
