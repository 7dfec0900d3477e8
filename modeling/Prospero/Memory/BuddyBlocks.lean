import Prospero.Lib.Chains
import Prospero.Lib.Dyadic
import Prospero.Memory.Buddy

/-!
# The blocks of the suballocator

The abstract side of `memory/allocator.c`: a region is tiled by dyadic blocks, each free, live or, inside
an operation, in hand.  `Buddy.Holds` connects such a picture with the allocator: the free lists run
through the free blocks, the headers in memory tell free from live, and every payload lies behind the
header and the back-pointer of its block.

Each primitive step of the allocator moves a block from one place of the picture to another.

### Outline

* The picture: `Live`, `Buddy.Holds`.
* Frames: what a write inside one block leaves alone.
* Steps: push, pop, remove, split, merge, mark, release.
-/

namespace Prospero

open Words Chains Dyadic

/-! ## The picture -/

/-- A live allocation. -/
structure Live where
  /-- Its block. -/
  block : Block
  /-- The pointer handed out. -/
  ptr : ℕ
  /-- The size asked for. -/
  size : UInt64
  /-- The alignment asked for. -/
  align : UInt64
deriving DecidableEq

/-- The address of a block. -/
def Buddy.addr (s : Buddy) (b : Block) : ℕ := s.base + b.off

/-- The link of a free block. -/
def Buddy.next (s : Buddy) (a : ℕ) : ℕ := load s.mem (a + 16) 8

/-- The free blocks of one order, first to last. -/
def ofOrder (free : List Block) (order : ℕ) : List Block := free.filter fun b => b.order = order

/-- The allocator holds the blocks in hand, free and live. -/
structure Buddy.Holds (s : Buddy) (hand free : List Block) (live : List Live) : Prop where
  /-- The region fits `free_lists`. -/
  order_le : s.maxOrder ≤ paiBuddyMaxOrder
  /-- The region is a power of two. -/
  size_eq : s.size.toNat = 2 ^ s.maxOrder
  /-- The region is not at NULL. -/
  base_pos : 0 < s.base
  /-- The region ends within the address space. -/
  base_end : s.base + 2 ^ s.maxOrder ≤ 2 ^ 64
  /-- The blocks tile the region. -/
  tiling : Tiling s.maxOrder (hand ++ free ++ live.map Live.block)
  /-- No block is below the least size. -/
  min_order : ∀ b ∈ hand ++ free ++ live.map Live.block, 6 ≤ b.order
  /-- Every free list runs through the free blocks of its order. -/
  lists : ∀ o, Linked s.next (s.freeLists o) ((ofOrder free o).map s.addr)
  /-- Free blocks say that they are free. -/
  free_magic : ∀ b ∈ free, load s.mem (s.addr b) 8 = paiBuddyMagicFree
  /-- Free blocks know their order. -/
  free_order : ∀ b ∈ free, load s.mem (s.addr b + 8) 4 = b.order
  /-- Live blocks say that they are allocated. -/
  live_magic : ∀ a ∈ live, load s.mem (s.addr a.block) 8 = paiBuddyMagicAlloc
  /-- Live blocks know their order. -/
  live_order : ∀ a ∈ live, load s.mem (s.addr a.block + 8) 4 = a.block.order
  /-- The address of the block stands below the payload. -/
  back : ∀ a ∈ live, load s.mem (a.ptr - 8) 8 = s.addr a.block
  /-- The payload lies behind header and back-pointer. -/
  payload_ge : ∀ a ∈ live, s.addr a.block + 32 ≤ a.ptr
  /-- The payload is aligned. -/
  payload_align : ∀ a ∈ live, a.align.toNat ∣ a.ptr
  /-- The payload lies in its block. -/
  payload_le : ∀ a ∈ live, a.ptr + a.size.toNat ≤ s.addr a.block + a.block.size
  /-- The bytes in use. -/
  used : s.usedBytes.toNat = (live.map fun a => a.block.size).sum

/-! ## Frames -/

/-- Two memories agree outside a block. -/
def SameOutside (s : Buddy) (b : Block) (mem' : Mem) : Prop :=
  ∀ p, p < s.addr b ∨ s.addr b + b.size ≤ p → s.mem p = mem' p

/-- Two memories agree on the headers and links of the free blocks, and on the headers and
back-pointers of the live ones. -/
structure SameSkeleton (s : Buddy) (free : List Block) (live : List Live) (mem' : Mem) : Prop where
  free : ∀ c ∈ free, ∀ p, s.addr c ≤ p → p < s.addr c + 24 → s.mem p = mem' p
  header : ∀ a ∈ live, ∀ p, s.addr a.block ≤ p → p < s.addr a.block + 12 → s.mem p = mem' p
  back : ∀ a ∈ live, ∀ p, a.ptr - 8 ≤ p → p < a.ptr → s.mem p = mem' p

/-- A block of at least the least order has room for header, link and back-pointer. -/
lemma size_ge {b : Block} (h : 6 ≤ b.order) : 64 ≤ b.size :=
  Nat.pow_le_pow_right (by decide : 0 < 2) h

section Frame

variable {s : Buddy} {hand free : List Block} {live : List Live} {b c : Block} {a : Live}

/-- A list of a picture that is a rearrangement of another. -/
lemma Buddy.Holds.tile_mem (_ : s.Holds hand free live) :
    (∀ b ∈ hand, b ∈ hand ++ free ++ live.map Live.block) ∧
      (∀ b ∈ free, b ∈ hand ++ free ++ live.map Live.block) ∧
      ∀ a ∈ live, a.block ∈ hand ++ free ++ live.map Live.block := by
  refine ⟨fun b hb => ?_, fun b hb => ?_, fun a ha => ?_⟩
  · exact List.mem_append_left _ (List.mem_append_left _ hb)
  · exact List.mem_append_left _ (List.mem_append_right _ hb)
  · exact List.mem_append_right _ (List.mem_map_of_mem ha)

/-- Blocks lie in the region. -/
lemma Buddy.Holds.addr_end (h : s.Holds hand free live)
    (hb : b ∈ hand ++ free ++ live.map Live.block) :
    s.addr b + b.size ≤ s.base + 2 ^ s.maxOrder := by
  have hend := h.tiling.end_le hb
  unfold Buddy.addr
  omega

/-- Blocks in hand are apart from the others. -/
lemma Buddy.Holds.apart_free (h : s.Holds (b :: hand) free live) (hc : c ∈ free) : b.Apart c := by
  have hall := h.tiling.apart
  rw [List.cons_append, List.cons_append] at hall
  exact (List.pairwise_cons.mp hall).1 c
    (List.mem_append_left _ (List.mem_append_right _ hc))

lemma Buddy.Holds.apart_live (h : s.Holds (b :: hand) free live) (ha : a ∈ live) :
    b.Apart a.block := by
  have hall := h.tiling.apart
  rw [List.cons_append, List.cons_append] at hall
  exact (List.pairwise_cons.mp hall).1 a.block
    (List.mem_append_right _ (List.mem_map_of_mem ha))

/-- Free blocks have distinct addresses. -/
lemma Buddy.Holds.free_nodup (h : s.Holds hand free live) : free.Nodup :=
  ((List.nodup_append.mp ((List.nodup_append.mp h.tiling.nodup).1)).2).1

lemma addr_injective_on (h : s.Holds hand free live) (hb : b ∈ free) (hc : c ∈ free)
    (heq : s.addr b = s.addr c) : b = c := by
  have hoff : b.off = c.off := by
    unfold Buddy.addr at heq
    omega
  have hhas : c.Has b.off := hoff ▸ c.has_off
  exact h.tiling.eq_of_has (h.tile_mem.2.1 b hb) (h.tile_mem.2.1 c hc) b.has_off hhas

/-- The picture depends on headers, links and back-pointers only. -/
lemma Buddy.Holds.of_sameSkeleton (h : s.Holds hand free live) {mem' : Mem}
    (hmem : SameSkeleton s free live mem') : ({ s with mem := mem' } : Buddy).Holds hand free live := by
  have hsame (x n : ℕ) (hx : ∀ p, x ≤ p → p < x + n → s.mem p = mem' p) :
      load mem' x n = load s.mem x n := (load_congr hx).symm
  exact
    { order_le := h.order_le
      size_eq := h.size_eq
      base_pos := h.base_pos
      base_end := h.base_end
      tiling := h.tiling
      min_order := h.min_order
      lists := fun o => by
        refine (h.lists o).congr fun x hx => ?_
        obtain ⟨c, hc, rfl⟩ := List.mem_map.mp hx
        exact load_congr fun p hp hp' => hmem.free c (List.mem_filter.mp hc).1 p (by omega) (by omega)
      free_magic := fun c hc =>
        (hsame (s.addr c) 8 fun p hp hp' => hmem.free c hc p hp (by omega)).trans (h.free_magic c hc)
      free_order := fun c hc =>
        (hsame (s.addr c + 8) 4 fun p hp hp' => hmem.free c hc p (by omega) (by omega)).trans
          (h.free_order c hc)
      live_magic := fun a ha =>
        (hsame (s.addr a.block) 8 fun p hp hp' => hmem.header a ha p hp (by omega)).trans
          (h.live_magic a ha)
      live_order := fun a ha =>
        (hsame (s.addr a.block + 8) 4 fun p hp hp' =>
          hmem.header a ha p (by omega) (by omega)).trans (h.live_order a ha)
      back := fun a ha => by
        have hge := h.payload_ge a ha
        exact (hsame (a.ptr - 8) 8 fun p hp hp' => hmem.back a ha p hp (by omega)).trans
          (h.back a ha)
      payload_ge := h.payload_ge
      payload_align := h.payload_align
      payload_le := h.payload_le
      used := h.used }

/-- A change of the memory inside the first block in hand. -/
lemma Buddy.Holds.write_hand (h : s.Holds (b :: hand) free live) {mem' : Mem}
    (hmem : SameOutside s b mem') :
    ({ s with mem := mem' } : Buddy).Holds (b :: hand) free live := by
  refine h.of_sameSkeleton ⟨fun c hc p hp hp' => hmem p ?_, fun a ha p hp hp' => hmem p ?_,
    fun a ha p hp hp' => hmem p ?_⟩
  · have hside := (h.apart_free hc).le_or_le
    have hsize := size_ge (h.min_order c (h.tile_mem.2.1 c hc))
    unfold Buddy.addr at *
    omega
  · have hside := (h.apart_live ha).le_or_le
    have hsize := size_ge (h.min_order _ (h.tile_mem.2.2 a ha))
    unfold Buddy.addr at *
    omega
  · have hside := (h.apart_live ha).le_or_le
    have hge := h.payload_ge a ha
    have hle := h.payload_le a ha
    unfold Buddy.addr at *
    omega

end Frame

end Prospero
