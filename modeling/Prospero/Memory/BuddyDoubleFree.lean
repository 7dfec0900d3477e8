import Prospero.Memory.BuddyRuns

/-!
# Freeing twice

`pai_buddy_free` knows a second call on the same pointer by the header of the block the pointer belonged
to, found through the back-pointer below the payload.  Both stand in memory that merging may have made
part of a larger free block.  Until the next allocation every write of the allocator goes to header or link
of a block start; the starts that are left are the start of the old block or outside it, so that the
back-pointer survives and the header keeps saying free.

### Outline

* The remains of a freed allocation.
* One call, and a run without allocations.
* The second free.
-/

namespace Prospero

open Words Chains Dyadic

variable {s s' : Buddy} {free : List Block} {live : List Live} {b c : Block} {a d : Live} {ptr x : ℕ}

/-! ## Remains -/

/-- The places of block starts that leave the inside of `b` alone. -/
def Beside (s : Buddy) (b : Block) (x : ℕ) : Prop :=
  ∃ off, 64 ∣ off ∧ x = s.base + off ∧ (off ≤ b.off ∨ b.off + b.size ≤ off)

/-- What is left of a freed allocation at `ptr` in the block `b`: no block starts inside `b`, no live block
meets it, its header says free, and the back-pointer is still there. -/
structure Remains (s : Buddy) (free : List Block) (live : List Live) (b : Block) (ptr : ℕ) : Prop where
  /-- Block starts. -/
  starts : ∀ c ∈ free ++ live.map Live.block, Beside s b (s.addr c)
  /-- Live blocks. -/
  apart : ∀ d ∈ live, b.Apart d.block
  /-- The order of the block. -/
  order_ge : 6 ≤ b.order
  /-- The header. -/
  magic : load s.mem (s.addr b) 8 = paiBuddyMagicFree
  /-- The back-pointer. -/
  back : load s.mem (ptr - 8) 8 = s.addr b
  /-- The payload starts behind header and back-pointer. -/
  ptr_ge : s.addr b + 32 ≤ ptr
  /-- The payload starts in the block. -/
  ptr_le : ptr ≤ s.addr b + b.size

/-- Blocks of at least the least order start at multiples of 64. -/
lemma dvd_off (h : 6 ≤ b.order) : 64 ∣ b.off :=
  (pow_dvd_pow 2 h : 2 ^ 6 ∣ 2 ^ b.order).trans (Dvd.intro_left _ rfl)

/-- Different multiples of 64 leave room for header and link. -/
lemma spaced_beside (s : Buddy) (b : Block) : Spaced (Beside s b) := by
  rintro _ _ ⟨u, hu, rfl, -⟩ ⟨v, hv, rfl, -⟩ hne
  omega

lemma beside_addr (h : 6 ≤ b.order) : Beside s b (s.addr b) :=
  ⟨b.off, dvd_off h, rfl, Or.inl le_rfl⟩

/-- A block apart from `b` starts beside it. -/
lemma beside_of_apart (h : b.Apart c) (hc : 6 ≤ c.order) : Beside s b (s.addr c) := by
  refine ⟨c.off, dvd_off hc, rfl, ?_⟩
  have hpos := c.size_pos
  rcases h.le_or_le with hle | hle
  · exact Or.inr hle
  · exact Or.inl (by omega)

/-- The places depend on the base of the region only. -/
lemma Beside.of_base (h : Beside s b x) (hbase : s'.base = s.base) : Beside s' b x := by
  obtain ⟨off, hdvd, hx, hside⟩ := h
  exact ⟨off, hdvd, hbase ▸ hx, hside⟩

/-- Writes at places beside the block leave the back-pointer alone and the header free. -/
lemma Remains.survives (h : Remains s free live b ptr) {mem' : Mem}
    (hfrees : FreesOnly (Beside s b) s.mem mem') :
    load mem' (s.addr b) 8 = paiBuddyMagicFree ∧ load mem' (ptr - 8) 8 = s.addr b := by
  have hge := h.ptr_ge
  have hle := h.ptr_le
  constructor
  · rcases hfrees.magic _ (beside_addr h.order_ge) with hsame | hfree
    · exact hsame.trans h.magic
    · exact hfree
  · rw [← h.back]
    refine load_congr fun p hp hp' => hfrees.outside p ?_
    rintro x ⟨off, -, rfl, hside⟩
    unfold Buddy.addr at hge hle
    omega

/-- **The second free.**  Where the remains are, `pai_buddy_free` does nothing. -/
lemma Remains.free_eq (h : Remains s free live b ptr) : paiBuddyFree s ptr = some s := by
  have hge := h.ptr_ge
  rw [paiBuddyFree, if_neg (by omega)]
  simp only [h.back, h.magic]
  split_ifs with hin hmagic
  · rfl
  · rfl
  · exact absurd hmagic (by decide)

/-! ## Calls -/

/-- A free leaves remains of its allocation. -/
lemma Buddy.Holds.remains (h : s.Holds [] free live) (hcanon : Canon free) (ha : a ∈ live) :
    ∃ s' free', paiBuddyFree s a.ptr = some s' ∧ s'.Holds [] free' (live.erase a) ∧ Canon free' ∧
      Remains s' free' (live.erase a) a.block a.ptr := by
  have htile := h.tile_mem.2.2 a ha
  have horder := h.min_order _ htile
  have hnodup : live.Nodup := List.Nodup.of_map _ (List.nodup_append.mp h.tiling.nodup).2.1
  obtain ⟨s', free', hcall, hholds, hcanon', ⟨hbase, -, -⟩, hcoarse, hmagic⟩ :=
    h.release_call hcanon ha
  refine ⟨s', free', hcall, hholds, hcanon', ?_⟩
  have haddr : ∀ c : Block, s'.addr c = s.addr c := fun c => by
    unfold Buddy.addr
    rw [hbase]
  have hspaced := spaced_beside s a.block
  have happart : ∀ d ∈ live.erase a, a.block.Apart d.block := fun d hd =>
    h.apart_of_ne htile (h.tile_mem.2.2 d (List.mem_of_mem_erase hd))
      (h.block_ne ha (List.mem_of_mem_erase hd) fun heq => hnodup.not_mem_erase (heq ▸ hd))
  have hstarts : ∀ c ∈ a.block :: free, Beside s a.block (s.addr c) := by
    intro c hc
    rcases List.mem_cons.mp hc with rfl | hc
    · exact beside_addr horder
    · exact beside_of_apart (h.apart_of_ne htile (h.tile_mem.2.1 c hc) (h.live_ne_free ha hc))
        (h.min_order c (h.tile_mem.2.1 c hc))
  obtain ⟨hfrees, hstarts'⟩ := hcoarse _ hspaced hstarts
  have hge := h.payload_ge a ha
  have hle := h.payload_le a ha
  have hback : load s'.mem (a.ptr - 8) 8 = load s.mem (a.ptr - 8) 8 := by
    refine load_congr fun p hp hp' => hfrees.outside p ?_
    rintro x ⟨off, -, rfl, hside⟩
    unfold Buddy.addr at hge hle
    omega
  exact
    { starts := fun c hc => by
        rcases List.mem_append.mp hc with hc | hc
        · exact (hstarts' c hc).of_base hbase
        · obtain ⟨d, hd, rfl⟩ := List.mem_map.mp hc
          rw [haddr]
          refine (beside_of_apart (happart d hd) ?_).of_base hbase
          exact h.min_order _ (h.tile_mem.2.2 d (List.mem_of_mem_erase hd))
      apart := happart
      order_ge := horder
      magic := by rw [haddr]; exact hmagic _ hspaced hstarts
      back := by rw [haddr, hback]; exact h.back a ha
      ptr_ge := by rw [haddr]; exact hge
      ptr_le := by rw [haddr]; omega }

/-- A free of another allocation keeps the remains. -/
lemma Remains.release (hr : Remains s free live b ptr) (h : s.Holds [] free live)
    (hcanon : Canon free) (hd : d ∈ live) :
    ∃ s' free', paiBuddyFree s d.ptr = some s' ∧ s'.Holds [] free' (live.erase d) ∧ Canon free' ∧
      Remains s' free' (live.erase d) b ptr := by
  obtain ⟨s', free', hcall, hholds, hcanon', ⟨hbase, -, -⟩, hcoarse, -⟩ := h.release_call hcanon hd
  refine ⟨s', free', hcall, hholds, hcanon', ?_⟩
  have haddr : ∀ c : Block, s'.addr c = s.addr c := fun c => by
    unfold Buddy.addr
    rw [hbase]
  have hlive : ∀ c ∈ live.map Live.block, Beside s b (s.addr c) := fun c hc =>
    hr.starts c (List.mem_append_right _ hc)
  obtain ⟨hfrees, hstarts'⟩ := hcoarse _ (spaced_beside s b) fun c hc => by
    rcases List.mem_cons.mp hc with rfl | hc
    · exact hlive _ (List.mem_map_of_mem hd)
    · exact hr.starts c (List.mem_append_left _ hc)
  obtain ⟨hmagic, hback⟩ := hr.survives hfrees
  exact
    { starts := fun c hc => by
        rcases List.mem_append.mp hc with hc | hc
        · exact (hstarts' c hc).of_base hbase
        · obtain ⟨e, he, rfl⟩ := List.mem_map.mp hc
          rw [haddr]
          exact (hlive _ (List.mem_map_of_mem (List.mem_of_mem_erase he))).of_base hbase
      apart := fun e he => hr.apart e (List.mem_of_mem_erase he)
      order_ge := hr.order_ge
      magic := by rw [haddr]; exact hmagic
      back := by rw [haddr]; exact hback
      ptr_ge := by rw [haddr]; exact hr.ptr_ge
      ptr_le := by rw [haddr]; exact hr.ptr_le }

/-- A write into a live payload keeps the remains. -/
lemma Remains.userWrite (hr : Remains s free live b ptr) (h : s.Holds [] free live) (hd : d ∈ live)
    {mem' : Mem} (hmem : ∀ p, p < d.ptr ∨ d.ptr + d.size.toNat ≤ p → s.mem p = mem' p) :
    Remains { s with mem := mem' } free live b ptr := by
  have hside := (hr.apart d hd).le_or_le
  have hdge := h.payload_ge d hd
  have hdle := h.payload_le d hd
  have hge := hr.ptr_ge
  have hle := hr.ptr_le
  have hsize := size_ge hr.order_ge
  have hkeep : ∀ x n, s.addr b ≤ x → x + n ≤ s.addr b + b.size → load mem' x n = load s.mem x n := by
    intro x n hx hn
    refine (load_congr fun p hp hp' => hmem p ?_).symm
    unfold Buddy.addr at *
    omega
  exact
    { starts := hr.starts
      apart := hr.apart
      order_ge := hr.order_ge
      magic := (hkeep _ 8 le_rfl (by omega)).trans hr.magic
      back := (hkeep _ 8 (by omega) (by omega)).trans hr.back
      ptr_ge := hge
      ptr_le := hle }

/-! ## Runs without allocations -/

/-- The allocator holds the caller's allocations, and the remains of a freed one. -/
def RemainsHeld (s : Buddy) (as : List Allocation) (b : Block) (ptr : ℕ) : Prop :=
  ∃ free live, live.map Live.allocation = as ∧ s.Holds [] free live ∧ Canon free ∧
    Remains s free live b ptr

/-- Freeing a live allocation leaves remains. -/
lemma BuddyHeld.remains {as : List Allocation} {i : ℕ} {e : Allocation} (h : BuddyHeld s as)
    (he : as[i]? = some e) :
    ∃ s' b, paiBuddyFree s e.ptr = some s' ∧ RemainsHeld s' (as.eraseIdx i) b e.ptr := by
  obtain ⟨free, live, rfl, hholds, hcanon⟩ := h
  rw [List.getElem?_map] at he
  obtain ⟨a, hi, rfl⟩ := Option.map_eq_some_iff.mp he
  obtain ⟨hlt, hget⟩ := List.getElem?_eq_some_iff.mp hi
  have ha : a ∈ live := hget ▸ List.getElem_mem hlt
  obtain ⟨s', free', hcall, hholds', hcanon', hremains⟩ := hholds.remains hcanon ha
  have hnodup : live.Nodup := List.Nodup.of_map _ (List.nodup_append.mp hholds.tiling.nodup).2.1
  have herase : live.erase a = live.eraseIdx i := hget ▸ hnodup.erase_getElem i hlt
  refine ⟨s', a.block, hcall, free', live.erase a, ?_, hholds', hcanon', hremains⟩
  rw [herase, List.eraseIdx_map]

/-- Every call but an allocation keeps them. -/
lemma RemainsHeld.call {as : List Allocation} (h : RemainsHeld s as b ptr) {call : BuddyCall}
    (hcall : ∀ size align, call ≠ .alloc size align) :
    ∃ s' as', buddyCall s as call = some (s', as') ∧ RemainsHeld s' as' b ptr := by
  obtain ⟨free, live, rfl, hholds, hcanon, hremains⟩ := h
  cases call with
  | alloc size align => exact absurd rfl (hcall size align)
  | free i =>
    rw [buddyCall, List.getElem?_map]
    rcases hi : live[i]? with _ | d
    · exact ⟨s, _, rfl, free, live, rfl, hholds, hcanon, hremains⟩
    · obtain ⟨hlt, hget⟩ := List.getElem?_eq_some_iff.mp hi
      have hd : d ∈ live := hget ▸ List.getElem_mem hlt
      obtain ⟨s', free', hfree, hholds', hcanon', hremains'⟩ := hremains.release hholds hcanon hd
      have hnodup : live.Nodup :=
        List.Nodup.of_map _ (List.nodup_append.mp hholds.tiling.nodup).2.1
      have herase : live.erase d = live.eraseIdx i := hget ▸ hnodup.erase_getElem i hlt
      refine ⟨s', _, ?_, free', live.erase d, rfl, hholds', hcanon', hremains'⟩
      change (paiBuddyFree s d.ptr).map _ = _
      rw [hfree, herase, Option.map_some, List.eraseIdx_map]
  | write i bytes =>
    rw [buddyCall, List.getElem?_map]
    rcases hi : live[i]? with _ | d
    · exact ⟨s, _, rfl, free, live, rfl, hholds, hcanon, hremains⟩
    · have hd := List.mem_of_getElem? hi
      have hmem : ∀ p, p < d.ptr ∨ d.ptr + d.size.toNat ≤ p →
          s.mem p = if d.ptr ≤ p ∧ p < d.ptr + d.size.toNat then bytes p else s.mem p := fun p hp =>
        (if_neg (by omega)).symm
      exact ⟨_, _, rfl, free, live, rfl, hholds.userWrite hd hmem, hcanon,
        hremains.userWrite hholds hd hmem⟩

/-- So does every run without allocations. -/
lemma RemainsHeld.calls {as : List Allocation} (h : RemainsHeld s as b ptr) {calls : List BuddyCall}
    (hcalls : ∀ call ∈ calls, ∀ size align, call ≠ .alloc size align) :
    ∃ s' as', buddyCalls s as calls = some (s', as') ∧ RemainsHeld s' as' b ptr := by
  induction calls generalizing s as with
  | nil => exact ⟨s, as, rfl, h⟩
  | cons call calls ih =>
    obtain ⟨s₁, as₁, hcall, h₁⟩ := h.call (hcalls call List.mem_cons_self)
    obtain ⟨s₂, as₂, hrest, h₂⟩ := ih h₁ fun c hc => hcalls c (List.mem_cons_of_mem call hc)
    refine ⟨s₂, as₂, ?_, h₂⟩
    rw [buddyCalls, hcall, Option.bind_some]
    exact hrest

/-- Every state a run reaches holds a picture. -/
lemma buddyRun_held {mem : Mem} {memory size : UInt64} {calls : List BuddyCall}
    {as : List Allocation} (h : buddyRun mem memory size calls = some (s, as)) : BuddyHeld s as := by
  obtain ⟨r, hinit, hcalls⟩ := Option.bind_eq_some_iff.mp h
  cases r with
  | error status => exact absurd hcalls (by simp)
  | ok s₀ =>
    have haccepted : paiBuddyInit mem memory.toNat size ≠ some (.error paiErrInvalidArg) := by
      rw [hinit]
      simp
    have hsize : size.toNat ≤ 0x40000000 := by
      by_contra hlarge
      rw [paiBuddyInit_large haccepted (not_le.mp hlarge)] at hinit
      exact absurd hinit (by simp)
    obtain ⟨s₁, hinit₁, hholds, -, -⟩ := paiBuddyInit_held haccepted hsize
    obtain rfl := Except.ok.inj (Option.some.inj (hinit.symm.trans hinit₁))
    obtain ⟨s', as', hrun, hheld, -⟩ :=
      buddyCalls_held ⟨_, [], rfl, hholds, canon_whole _⟩ calls
    obtain ⟨rfl, rfl⟩ := Prod.mk.inj (Option.some.inj (hcalls.symm.trans hrun))
    exact hheld

/-! ## Main result -/

/-- **Freeing twice.**  In every state a run of allocations, frees and writes into payloads reaches: after
a live pointer is freed, and any calls that allocate nothing, a second `pai_buddy_free` of it leaves the
allocator and the whole memory as they are. -/
theorem paiBuddyFree_twice {mem : Mem} {memory size : UInt64} {calls : List BuddyCall} {s : Buddy}
    {as : List Allocation} (hrun : buddyRun mem memory size calls = some (s, as)) {i : ℕ}
    {a : Allocation} (ha : as[i]? = some a) {later : List BuddyCall}
    (hlater : ∀ call ∈ later, ∀ size align, call ≠ .alloc size align) :
    ∃ s₁ s₂ as₂, paiBuddyFree s a.ptr = some s₁ ∧
      buddyCalls s₁ (as.eraseIdx i) later = some (s₂, as₂) ∧ paiBuddyFree s₂ a.ptr = some s₂ := by
  obtain ⟨s₁, b, hfree, hheld⟩ := (buddyRun_held hrun).remains ha
  obtain ⟨s₂, as₂, hcalls, _, _, -, -, -, hremains⟩ := hheld.calls hlater
  exact ⟨s₁, s₂, as₂, hfree, hcalls, hremains.free_eq⟩

/-- The upper of two allocations in a region of 256 bytes, freed before and after the two blocks
merge. -/
theorem paiBuddyFree_twice_merged :
    ∃ s as a s₁ s₂ as₂, buddyRun (fun _ => 0) 256 256 [.alloc 8 8, .alloc 8 8] = some (s, as) ∧
      as[1]? = some a ∧ paiBuddyFree s a.ptr = some s₁ ∧
      buddyCalls s₁ (as.eraseIdx 1) [.free 0] = some (s₂, as₂) ∧ paiBuddyFree s₂ a.ptr = some s₂ := by
  have hlength : (buddyRun (fun _ => 0) 256 256 [.alloc 8 8, .alloc 8 8]).map
      (fun r => r.2.length) = some 2 := by decide +kernel
  obtain ⟨⟨s, as⟩, hrun, htwo⟩ := Option.map_eq_some_iff.mp hlength
  have hlt : 1 < as.length := by
    change as.length = 2 at htwo
    omega
  have hlater : ∀ call ∈ [BuddyCall.free 0], ∀ size align, call ≠ .alloc size align := by simp
  obtain ⟨s₁, s₂, as₂, hfree, hcalls, hagain⟩ :=
    paiBuddyFree_twice hrun (List.getElem?_eq_getElem hlt) hlater
  exact ⟨s, as, as[1], s₁, s₂, as₂, hrun, List.getElem?_eq_getElem hlt, hfree, hcalls, hagain⟩

end Prospero
