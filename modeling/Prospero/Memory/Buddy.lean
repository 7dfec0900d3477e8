import Prospero.Lib.Words
import Prospero.Memory.Align
import Prospero.Status

/-!
# Buddy suballocator

The power-of-two suballocator over one region (`memory/allocator.c`), with its in-band headers: the first
16 bytes of every block hold a magic number and the block's order, a free block holds the link of its free
list at offset 16, and eight bytes below every payload stands the address of its block.

Addresses are numbers, `0` being NULL.  `none` is an access outside the `free_lists` array, or a search of
a free list that does not end.

### Outline

* Helpers of `memory/mem.h`.
* State, headers, free lists.
* `pai_buddy_init`, `pai_buddy_alloc`, `pai_buddy_free`.
-/

namespace Prospero

open Words

/-! ## Logarithms -/

/-- The loop of `pai_mem_ceil_log2` at `p = 1 << o`, with `n` rounds left. -/
def ceilLog2Loop (v : UInt64) : ℕ → UInt64 → ℕ → ℕ
  | 0, _, o => o
  | n + 1, p, o => if p < v then ceilLog2Loop v n (p <<< 1) (o + 1) else o

/-- `pai_mem_ceil_log2`. -/
def paiMemCeilLog2 (v : UInt64) : ℕ := if v = 0 then 0 else ceilLog2Loop v 63 1 0

/-- The loop of `pai_mem_floor_log2`, with `n` rounds left. -/
def floorLog2Loop : ℕ → UInt64 → ℕ → ℕ
  | 0, _, o => o
  | n + 1, v, o => if 1 < v then floorLog2Loop n (v >>> 1) (o + 1) else o

/-- `pai_mem_floor_log2`; a 64-bit number is down to 1 after 63 rounds. -/
def paiMemFloorLog2 (v : UInt64) : ℕ := floorLog2Loop 63 v 0

/-! ## State -/

/-- `PAI_BUDDY_MAX_ORDER`. -/
def paiBuddyMaxOrder : ℕ := 30
/-- `PAI_BUDDY_MIN_SIZE`. -/
def paiBuddyMinSize : UInt64 := 128
/-- `PAI_BUDDY_MAGIC_FREE`. -/
def paiBuddyMagicFree : ℕ := 0x4652454546414942
/-- `PAI_BUDDY_MAGIC_ALLOC`. -/
def paiBuddyMagicAlloc : ℕ := 0x414C4C4F46414942
/-- `PAI_BUDDY_HEADER`. -/
def paiBuddyHeader : UInt64 := 32

/-- `pai_buddy_t` and the memory it works on. -/
structure Buddy where
  /-- `base`. -/
  base : ℕ
  /-- `size`. -/
  size : UInt64
  /-- `max_order`. -/
  maxOrder : ℕ
  /-- `free_lists`. -/
  freeLists : ℕ → ℕ
  /-- `used_bytes`. -/
  usedBytes : UInt64
  /-- `allocs`. -/
  allocs : UInt64
  /-- `frees`. -/
  frees : UInt64
  /-- `splits`. -/
  splits : UInt64
  /-- `merges`. -/
  merges : UInt64
  /-- The memory of the process. -/
  mem : Mem

/-- `block_set_header`. -/
def blockSetHeader (s : Buddy) (block magic order : ℕ) : Buddy :=
  { s with mem := store (store s.mem block 8 magic) (block + 8) 4 order }

/-- `block_is_free`. -/
def blockIsFree (s : Buddy) (block order : ℕ) : Prop :=
  block ≠ 0 ∧ load s.mem block 8 = paiBuddyMagicFree ∧ load s.mem (block + 8) 4 = order

instance (s : Buddy) (block order : ℕ) : Decidable (blockIsFree s block order) :=
  inferInstanceAs (Decidable (_ ∧ _ ∧ _))

/-- `free_lists[order] = head`. -/
def setHead (s : Buddy) (order head : ℕ) : Buddy :=
  { s with freeLists := fun o => if o = order then head else s.freeLists o }

/-- `free_list_push`. -/
def freeListPush (s : Buddy) (order block : ℕ) : Option Buddy :=
  if paiBuddyMaxOrder < order then none
  else
    let s := blockSetHeader s block paiBuddyMagicFree order
    some (setHead { s with mem := store s.mem (block + 16) 8 (s.freeLists order) } order block)

/-- `free_list_pop`: the state and the block, `0` when the list is empty. -/
def freeListPop (s : Buddy) (order : ℕ) : Option (Buddy × ℕ) :=
  if paiBuddyMaxOrder < order then none
  else
    let node := s.freeLists order
    if node = 0 then some (s, 0)
    else some (setHead s order (load s.mem (node + 16) 8), node)

/-- Where a link of a free list stands: in `free_lists[order]`, or in the node before. -/
inductive FreeLink
  /-- The head. -/
  | head
  /-- The link of a node. -/
  | node (address : ℕ)

/-- `*link`. -/
def readLink (s : Buddy) (order : ℕ) : FreeLink → ℕ
  | .head => s.freeLists order
  | .node address => load s.mem (address + 16) 8

/-- `*link = target`. -/
def writeLink (s : Buddy) (order target : ℕ) : FreeLink → Buddy
  | .head => setHead s order target
  | .node address => { s with mem := store s.mem (address + 16) 8 target }

/-- The loop of `free_list_remove`; `none` when the list does not end within `n` rounds. -/
def freeListRemoveLoop (s : Buddy) (order block : ℕ) : ℕ → FreeLink → Option Buddy
  | 0, _ => none
  | n + 1, link =>
    let node := readLink s order link
    if node = 0 then some s
    else if node = block then some (writeLink s order (load s.mem (node + 16) 8) link)
    else freeListRemoveLoop s order block n (.node node)

/-- `free_list_remove`. -/
def freeListRemove (s : Buddy) (order block : ℕ) : Option Buddy :=
  if paiBuddyMaxOrder < order then none
  else freeListRemoveLoop s order block s.size.toNat .head

/-! ## Operations -/

/-- `pai_buddy_init` over the memory at `memory`: the status and, when it is `PAI_OK`, the allocator. -/
def paiBuddyInit (mem : Mem) (memory : ℕ) (size : UInt64) : Option (Except PaiStatus Buddy) :=
  if memory = 0 ∨ paiMemIsPow2 size = false ∨ size < paiBuddyMinSize ∨ memory % size.toNat ≠ 0 then
    some (.error paiErrInvalidArg)
  else
    let s : Buddy :=
      { base := memory
        size := size
        maxOrder := paiMemFloorLog2 size
        freeLists := fun _ => 0
        usedBytes := 0
        allocs := 0
        frees := 0
        splits := 0
        merges := 0
        mem := mem }
    (freeListPush s s.maxOrder s.base).map Except.ok

/-- The order `pai_buddy_alloc` gives a request. -/
def requestOrder (size align : UInt64) : ℕ :=
  let order := paiMemCeilLog2 (size + align + paiBuddyHeader)
  if order < 6 then 6 else order

/-- The search for the smallest order from `found` on with a free block, `n` orders being left; a result
above `max_order` means that there is none. -/
def findOrder (s : Buddy) : ℕ → ℕ → Option ℕ
  | 0, found => some found
  | n + 1, found =>
    if paiBuddyMaxOrder < found then none
    else if s.freeLists found = 0 then findOrder s n (found + 1)
    else some found

/-- Split the block down to `order`, freeing the upper halves, `n` splits being left. -/
def splitDown (s : Buddy) (block order : ℕ) : ℕ → Option Buddy
  | 0 => some s
  | n + 1 =>
    let half := block + 2 ^ (order + n)
    let s := blockSetHeader s half paiBuddyMagicFree (order + n)
    (freeListPush s (order + n) half).bind fun s =>
      splitDown { s with splits := s.splits + 1 } block order n

/-- The end of `pai_buddy_alloc`: mark the block and place the payload. -/
def markAllocated (s : Buddy) (block order : ℕ) (align : UInt64) : Buddy × ℕ :=
  let s := blockSetHeader s block paiBuddyMagicAlloc order
  let s := { s with
    usedBytes := s.usedBytes + UInt64.ofNat (2 ^ order)
    allocs := s.allocs + 1 }
  let ptr := (paiMemAlignUp (UInt64.ofNat (block + paiBuddyHeader.toNat)) align).toNat
  ({ s with mem := store s.mem (ptr - 8) 8 block }, ptr)

/-- `pai_buddy_alloc`: the state and the pointer. -/
def paiBuddyAlloc (s : Buddy) (size align : UInt64) : Option (Buddy × ℕ) :=
  if size = 0 ∨ align = 0 ∨ paiMemIsPow2 align = false ∨ uint64Max - align < size ∨
      uint64Max - paiBuddyHeader < size + align then some (s, 0)
  else
    let order := requestOrder size align
    if s.maxOrder < order then some (s, 0)
    else
      (findOrder s (s.maxOrder + 1 - order) order).bind fun found =>
        if s.maxOrder < found then some (s, 0)
        else
          (freeListPop s found).bind fun r =>
            (splitDown r.1 r.2 order (found - order)).bind fun s =>
              some (markAllocated s r.2 order align)

/-- The merging loop of `pai_buddy_free`, `n` orders below `max_order`: the state, the block and its
order. -/
def mergeUp (s : Buddy) (block order : ℕ) : ℕ → Option (Buddy × ℕ × ℕ)
  | 0 => some (s, block, order)
  | n + 1 =>
    let buddyOff := (block - s.base) ^^^ 2 ^ order
    let buddyBlock := s.base + buddyOff
    if s.size.toNat ≤ buddyOff ∨ ¬ blockIsFree s buddyBlock order then some (s, block, order)
    else
      (freeListRemove s order buddyBlock).bind fun s =>
        mergeUp { s with merges := s.merges + 1 }
          (if buddyBlock < block then buddyBlock else block) (order + 1) n

/-- `pai_buddy_free`. -/
def paiBuddyFree (s : Buddy) (ptr : ℕ) : Option Buddy :=
  if ptr = 0 then some s
  else
    let block := load s.mem (ptr - 8) 8
    if block < s.base ∨ s.base + s.size.toNat ≤ block then some s
    else if load s.mem block 8 ≠ paiBuddyMagicAlloc then some s
    else
      let order := load s.mem (block + 8) 4
      let s := { s with
        usedBytes := s.usedBytes - UInt64.ofNat (2 ^ order)
        frees := s.frees + 1 }
      let s := blockSetHeader s block paiBuddyMagicFree order
      (mergeUp s block order (s.maxOrder - order)).bind fun r =>
        freeListPush r.1 r.2.2 r.2.1

end Prospero
