import Prospero.Memory.BuddyBlocks

/-!
# The steps of the suballocator

Each primitive of `memory/allocator.c` moves a block of the picture `Buddy.Holds` from one place to
another: `free_list_push` frees the block in hand, `free_list_pop` and `free_list_remove` take a free block
in hand, a split and a merge change the tiling, and the ends of `pai_buddy_alloc` and `pai_buddy_free` make
the block in hand live and back.

### Outline

* Rearrangements and frames.
* Push, take, pop, remove.
* Mark, release, writes of the user.
-/

namespace Prospero

open Words Chains Dyadic

variable {s s' : Buddy} {hand free : List Block} {live : List Live} {b c d : Block} {a : Live} {o : ℕ}

/-- Region and accounts are unchanged. -/
structure SameRegion (s s' : Buddy) : Prop where
  base : s'.base = s.base
  size : s'.size = s.size
  maxOrder : s'.maxOrder = s.maxOrder
  usedBytes : s'.usedBytes = s.usedBytes

lemma SameRegion.refl (s : Buddy) : SameRegion s s := ⟨rfl, rfl, rfl, rfl⟩

lemma SameRegion.trans {s'' : Buddy} (h : SameRegion s s') (h' : SameRegion s' s'') :
    SameRegion s s'' :=
  ⟨h'.base.trans h.base, h'.size.trans h.size, h'.maxOrder.trans h.maxOrder,
    h'.usedBytes.trans h.usedBytes⟩

lemma SameRegion.addr (h : SameRegion s s') (b : Block) : s'.addr b = s.addr b := by
  unfold Buddy.addr
  rw [h.base]

/-! ## Rearrangements and frames -/

/-- The order of the blocks in hand does not matter. -/
lemma Buddy.Holds.perm_hand {hand' : List Block} (h : s.Holds hand free live)
    (hp : hand.Perm hand') : s.Holds hand' free live :=
  { h with
    tiling := h.tiling.perm ((hp.append_right _).append_right _)
    min_order := fun b hb => h.min_order b
      ((((hp.append_right _).append_right _).mem_iff).mpr hb) }

/-- The counters do not matter. -/
lemma Buddy.Holds.counters (h : s.Holds hand free live) (allocs frees splits merges : UInt64) :
    ({ s with allocs := allocs, frees := frees, splits := splits, merges := merges } : Buddy).Holds
      hand free live :=
  ⟨h.order_le, h.size_eq, h.base_pos, h.base_end, h.tiling, h.min_order, h.lists, h.free_magic,
    h.free_order, h.live_magic, h.live_order, h.back, h.payload_ge, h.payload_align, h.payload_le,
    h.used⟩

/-- Different blocks are apart. -/
lemma Buddy.Holds.apart_of_ne (h : s.Holds hand free live)
    (hb : b ∈ hand ++ free ++ live.map Live.block) (hc : c ∈ hand ++ free ++ live.map Live.block)
    (hne : b ≠ c) : b.Apart c := fun _ hpb hpc => hne (h.tiling.eq_of_has hb hc hpb hpc)

/-- A live block is not free. -/
lemma Buddy.Holds.live_ne_free (h : s.Holds hand free live) (ha : a ∈ live) (hb : b ∈ free) :
    a.block ≠ b := by
  intro heq
  have hdisj := (List.nodup_append.mp h.tiling.nodup).2.2
  exact hdisj b (List.mem_append_right _ hb) a.block (List.mem_map_of_mem ha) heq.symm

/-- Different live allocations have different blocks. -/
lemma Buddy.Holds.block_ne {e : Live} (h : s.Holds hand free live) (ha : a ∈ live) (he : e ∈ live)
    (hne : a ≠ e) : a.block ≠ e.block := by
  have hnodup := (List.nodup_append.mp h.tiling.nodup).2.1
  exact fun heq => hne (List.inj_on_of_nodup_map hnodup ha he heq)

/-- Addresses of free blocks fit a link. -/
lemma Buddy.Holds.head_lt (h : s.Holds hand free live) (o : ℕ) : s.freeLists o < 256 ^ 8 := by
  have hend := h.base_end
  rcases (h.lists o).head_mem with hzero | hmem
  · rw [hzero]
    decide
  · obtain ⟨b, hb, haddr⟩ := List.mem_map.mp hmem
    have hlt := h.addr_end (h.tile_mem.2.1 b (List.mem_filter.mp hb).1)
    have := b.size_pos
    rw [← haddr]
    omega

/-- There are at most as many free blocks as the region has bytes. -/
lemma Buddy.Holds.length_free_le (h : s.Holds hand free live) : free.length ≤ s.size.toNat := by
  have htotal := h.tiling.total
  rw [← h.size_eq, List.map_append, List.map_append, List.sum_append, List.sum_append] at htotal
  have hones : (free.map Block.size).length ≤ (free.map Block.size).sum :=
    List.length_le_sum_of_one_le _ fun x hx => by
      obtain ⟨b, -, rfl⟩ := List.mem_map.mp hx
      exact b.size_pos
  rw [List.length_map] at hones
  omega

/-! ## Push -/

/-- What `block_set_header` leaves in memory. -/
lemma blockSetHeader_spec (s : Buddy) (block : ℕ) {magic order : ℕ} (hm : magic < 256 ^ 8)
    (horder : order < 256 ^ 4) :
    load (blockSetHeader s block magic order).mem block 8 = magic ∧
      load (blockSetHeader s block magic order).mem (block + 8) 4 = order ∧
      ∀ p, p < block ∨ block + 12 ≤ p → s.mem p = (blockSetHeader s block magic order).mem p := by
  refine ⟨?_, load_store _ horder, fun p hp => ?_⟩
  · exact (load_store_apart _ _ (by omega)).trans (load_store _ hm)
  · refine ((store_of_outside _ _ ?_).trans (store_of_outside _ _ ?_)).symm <;> omega

/-- The order of a block fits its field. -/
lemma Buddy.Holds.order_lt (h : s.Holds hand free live)
    (hb : b ∈ hand ++ free ++ live.map Live.block) :
    b.order ≤ s.maxOrder ∧ b.order ≤ 30 ∧ b.order < 256 ^ 4 := by
  have hle := h.tiling.order_le hb
  have hmax : s.maxOrder ≤ 30 := h.order_le
  exact ⟨hle, hle.trans hmax, by omega⟩

/-- Rewriting the header of the first block in hand. -/
lemma Buddy.Holds.setHeader (h : s.Holds (b :: hand) free live) (magic order : ℕ) :
    (blockSetHeader s (s.addr b) magic order).Holds (b :: hand) free live := by
  refine h.write_hand fun p hp => ?_
  have hsize := size_ge (h.min_order b List.mem_cons_self)
  refine ((store_of_outside _ _ ?_).trans (store_of_outside _ _ ?_)).symm <;> omega

/-- **Push.**  The block in hand becomes free. -/
lemma Buddy.Holds.push (h : s.Holds (b :: hand) free live) :
    ∃ s', freeListPush s b.order (s.addr b) = some s' ∧ s'.Holds hand (b :: free) live ∧
      SameRegion s s' := by
  have hmem : b ∈ b :: hand ++ free ++ live.map Live.block := List.mem_cons_self
  obtain ⟨hmax, h30, hfits⟩ := h.order_lt hmem
  have hsize := size_ge (h.min_order b hmem)
  have hhead := h.head_lt b.order
  obtain ⟨hmagic, horder, -⟩ := blockSetHeader_spec s (s.addr b)
    (show paiBuddyMagicFree < 256 ^ 8 by decide) hfits
  let s₁ := blockSetHeader s (s.addr b) paiBuddyMagicFree b.order
  let mem₂ := store s₁.mem (s.addr b + 16) 8 (s.freeLists b.order)
  have h₂ : ({ s₁ with mem := mem₂ } : Buddy).Holds (b :: hand) free live := by
    refine (h.setHeader _ _).write_hand fun p hp => (store_of_outside _ _ ?_).symm
    change p < s.addr b ∨ s.addr b + b.size ≤ p at hp
    omega
  refine ⟨setHead { s₁ with mem := mem₂ } b.order (s.addr b), if_neg (by
    change ¬ 30 < b.order
    omega), ?_, ⟨rfl, rfl, rfl, rfl⟩⟩
  have hperm : (b :: hand ++ free ++ live.map Live.block).Perm
      (hand ++ (b :: free) ++ live.map Live.block) :=
    (List.perm_middle.symm).append_right _
  have hlink : load mem₂ (s.addr b + 16) 8 = s.freeLists b.order := load_store _ hhead
  have hmagic₂ : load mem₂ (s.addr b) 8 = paiBuddyMagicFree :=
    (load_store_apart _ _ (by omega)).trans hmagic
  have horder₂ : load mem₂ (s.addr b + 8) 4 = b.order :=
    (load_store_apart _ _ (by omega)).trans horder
  exact
    { h₂ with
      tiling := h₂.tiling.perm hperm
      min_order := fun c hc => h₂.min_order c (hperm.mem_iff.mpr hc)
      lists := fun o => by
        by_cases hb : b.order = o
        · subst hb
          have hcons : ofOrder (b :: free) b.order = b :: ofOrder free b.order :=
            List.filter_cons_of_pos (by simp)
          have hhead' : (setHead { s₁ with mem := mem₂ } b.order (s.addr b)).freeLists b.order =
              s.addr b := if_pos rfl
          rw [hcons, List.map_cons, hhead']
          refine ⟨rfl, ?_, ?_⟩
          · exact (Nat.add_pos_left h.base_pos _).ne'
          · have hrest := h₂.lists b.order
            change Linked _ (load mem₂ (s.addr b + 16) 8) _
            rw [hlink]
            exact hrest
        · have hcons : ofOrder (b :: free) o = ofOrder free o :=
            List.filter_cons_of_neg (by simpa using hb)
          have hhead' : (setHead { s₁ with mem := mem₂ } b.order (s.addr b)).freeLists o =
              s.freeLists o := if_neg (Ne.symm hb)
          rw [hcons, hhead']
          exact h₂.lists o
      free_magic := fun c hc => by
        rcases List.mem_cons.mp hc with rfl | hc
        · exact hmagic₂
        · exact h₂.free_magic c hc
      free_order := fun c hc => by
        rcases List.mem_cons.mp hc with rfl | hc
        · exact horder₂
        · exact h₂.free_order c hc }

/-! ## Take, pop, remove -/

/-- Two memories agree outside the links of the free blocks of one order. -/
def SameOutsideLinks (s : Buddy) (free : List Block) (o : ℕ) (mem' : Mem) : Prop :=
  ∀ p, (∀ c ∈ ofOrder free o, p < s.addr c + 16 ∨ s.addr c + 24 ≤ p) → s.mem p = mem' p

/-- Headers, and everything in the blocks of other orders and in live blocks, survive a change of
links. -/
lemma load_of_sameOutsideLinks (h : s.Holds hand free live) {mem' : Mem}
    (hmem : SameOutsideLinks s free o mem') (hd : d ∈ hand ++ free ++ live.map Live.block) {k n : ℕ}
    (hk : k + n ≤ 16 ∨ d ∉ ofOrder free o) (hin : k + n ≤ d.size) :
    load mem' (s.addr d + k) n = load s.mem (s.addr d + k) n := by
  refine (load_congr fun p hp hp' => hmem p fun c hc => ?_).symm
  have hfree : c ∈ free := (List.mem_filter.mp hc).1
  have hsize := size_ge (h.min_order c (h.tile_mem.2.1 c hfree))
  by_cases heq : c = d
  · subst heq
    have : k + n ≤ 16 := hk.resolve_right fun hnot => hnot hc
    omega
  · have hside := (h.apart_of_ne (h.tile_mem.2.1 c hfree) hd heq).le_or_le
    unfold Buddy.addr at *
    omega

/-- The free list of an order after one block has left it. -/
lemma ofOrder_erase (free : List Block) (b : Block) (o : ℕ) :
    ofOrder (free.erase b) o = (ofOrder free o).erase b := (List.erase_filter).symm

lemma ofOrder_erase_of_ne (free : List Block) (h : b.order ≠ o) :
    ofOrder (free.erase b) o = ofOrder free o := by
  rw [ofOrder_erase, List.erase_of_not_mem]
  intro hmem
  exact h (by simpa using (List.mem_filter.mp hmem).2)

/-- **Take.**  A free block leaves its list, whose links alone change. -/
lemma Buddy.Holds.take (h : s.Holds hand free live) (hb : b ∈ free) (hregion : SameRegion s s')
    (hmem : SameOutsideLinks s free b.order s'.mem)
    (hlists : ∀ o, o ≠ b.order → s'.freeLists o = s.freeLists o)
    (hlist : Linked s'.next (s'.freeLists b.order) (((ofOrder free b.order).erase b).map s.addr)) :
    s'.Holds (b :: hand) (free.erase b) live := by
  have haddr : s'.addr = s.addr := funext hregion.addr
  have hperm : (hand ++ free ++ live.map Live.block).Perm
      (b :: hand ++ free.erase b ++ live.map Live.block) := by
    refine List.Perm.append_right _ ?_
    exact ((List.perm_cons_erase hb).append_left hand).trans List.perm_middle
  have hheader (c : Block) (hc : c ∈ hand ++ free ++ live.map Live.block) (k n : ℕ)
      (hk : k + n ≤ 16) : load s'.mem (s.addr c + k) n = load s.mem (s.addr c + k) n :=
    load_of_sameOutsideLinks h hmem hc (Or.inl hk)
      (hk.trans ((by decide : 16 ≤ 64).trans (size_ge (h.min_order c hc))))
  have hfree (c : Block) (hc : c ∈ free.erase b) : c ∈ free := List.mem_of_mem_erase hc
  exact
    { order_le := hregion.maxOrder ▸ h.order_le
      size_eq := by rw [hregion.size, hregion.maxOrder, h.size_eq]
      base_pos := hregion.base ▸ h.base_pos
      base_end := by rw [hregion.base, hregion.maxOrder]; exact h.base_end
      tiling := hregion.maxOrder ▸ h.tiling.perm hperm
      min_order := fun c hc => h.min_order c (hperm.mem_iff.mpr hc)
      lists := fun o => by
        rw [haddr]
        by_cases hne : o = b.order
        · subst hne
          rw [ofOrder_erase]
          exact hlist
        · rw [hlists o hne, ofOrder_erase_of_ne free (Ne.symm hne)]
          refine (h.lists o).congr fun x hx => ?_
          obtain ⟨c, hc, rfl⟩ := List.mem_map.mp hx
          obtain ⟨hc, horder⟩ := List.mem_filter.mp hc
          have hout : c ∉ ofOrder free b.order := by
            intro hin
            have h₁ : c.order = o := by simpa using horder
            have h₂ : c.order = b.order := by simpa using (List.mem_filter.mp hin).2
            exact hne (h₁.symm.trans h₂)
          have hsize := size_ge (h.min_order c (h.tile_mem.2.1 c hc))
          exact (load_of_sameOutsideLinks h hmem (h.tile_mem.2.1 c hc) (Or.inr hout)
            (by omega)).symm
      free_magic := fun c hc => by
        rw [haddr]
        exact (hheader c (h.tile_mem.2.1 c (hfree c hc)) 0 8 (by omega)).trans
          (h.free_magic c (hfree c hc))
      free_order := fun c hc => by
        rw [haddr]
        exact (hheader c (h.tile_mem.2.1 c (hfree c hc)) 8 4 (by omega)).trans
          (h.free_order c (hfree c hc))
      live_magic := fun a ha => by
        rw [haddr]
        exact (hheader _ (h.tile_mem.2.2 a ha) 0 8 (by omega)).trans (h.live_magic a ha)
      live_order := fun a ha => by
        rw [haddr]
        exact (hheader _ (h.tile_mem.2.2 a ha) 8 4 (by omega)).trans (h.live_order a ha)
      back := fun a ha => by
        have hge := h.payload_ge a ha
        have hle := h.payload_le a ha
        have hsplit : a.ptr - 8 = s.addr a.block + (a.ptr - 8 - s.addr a.block) := by omega
        have hback := h.back a ha
        have hout : a.block ∉ ofOrder free b.order := fun hin =>
          h.live_ne_free ha (List.mem_filter.mp hin).1 rfl
        rw [haddr]
        rw [hsplit] at hback ⊢
        exact (load_of_sameOutsideLinks h hmem (h.tile_mem.2.2 a ha) (Or.inr hout)
          (by omega)).trans hback
      payload_ge := fun a ha => by rw [haddr]; exact h.payload_ge a ha
      payload_align := h.payload_align
      payload_le := fun a ha => by rw [haddr]; exact h.payload_le a ha
      used := by rw [hregion.usedBytes]; exact h.used }

/-- **Pop.**  The first free block of an order is taken in hand. -/
lemma Buddy.Holds.pop (h : s.Holds hand free live) (ho : o ≤ s.maxOrder)
    (hne : s.freeLists o ≠ 0) :
    ∃ b ∈ free, b.order = o ∧ ∃ s', freeListPop s o = some (s', s.addr b) ∧
      s'.Holds (b :: hand) (free.erase b) live ∧ SameRegion s s' := by
  have hlist := h.lists o
  have h30 : ¬ paiBuddyMaxOrder < o := not_lt.mpr (ho.trans h.order_le)
  obtain ⟨b, l, hl⟩ : ∃ b l, ofOrder free o = b :: l := by
    rcases hcase : ofOrder free o with _ | ⟨b, l⟩
    · rw [hcase] at hlist
      exact absurd hlist hne
    · exact ⟨b, l, rfl⟩
  have hmem : b ∈ ofOrder free o := hl ▸ List.mem_cons_self
  obtain ⟨hfree, horder⟩ := List.mem_filter.mp hmem
  have horder : b.order = o := by simpa using horder
  subst horder
  rw [hl] at hlist
  obtain ⟨hhead, hpos, hrest⟩ := hlist
  refine ⟨b, hfree, rfl, setHead s b.order (s.next (s.addr b)), ?_, ?_, ⟨rfl, rfl, rfl, rfl⟩⟩
  · rw [freeListPop, if_neg h30, hhead]
    exact if_neg hpos
  · refine h.take hfree ⟨rfl, rfl, rfl, rfl⟩ (fun _ _ => rfl) (fun _ ho => if_neg ho) ?_
    have hhead' : (setHead s b.order (s.next (s.addr b))).freeLists b.order = s.next (s.addr b) :=
      if_pos rfl
    rw [hhead', hl, List.erase_cons_head]
    exact hrest

/-- The last link of a chain that starts at a link. -/
def lastLink : FreeLink → List ℕ → FreeLink
  | link, [] => link
  | _, a :: l => lastLink (.node a) l

lemma lastLink_append (link : FreeLink) (l : List ℕ) (a : ℕ) : lastLink link (l ++ [a]) = .node a := by
  induction l generalizing link with
  | nil => rfl
  | cons c l ih => exact ih (.node c)

/-- The loop of `free_list_remove` makes the link before a node point behind it. -/
lemma freeListRemoveLoop_eq {a n : ℕ} {pre post : List ℕ} (ha : a ∉ pre) {link : FreeLink}
    (hl : Linked s.next (readLink s o link) (pre ++ a :: post)) (hn : pre.length < n) :
    freeListRemoveLoop s o a n link = some (writeLink s o (s.next a) (lastLink link pre)) := by
  induction pre generalizing n link with
  | nil =>
    obtain ⟨n, rfl⟩ := Nat.exists_eq_succ_of_ne_zero (Nat.ne_of_gt hn)
    obtain ⟨hhead, hne, -⟩ := hl
    simp only [freeListRemoveLoop, hhead, if_neg hne, if_true]
    rfl
  | cons c pre ih =>
    obtain ⟨n, rfl⟩ := Nat.exists_eq_succ_of_ne_zero (Nat.ne_of_gt (Nat.zero_lt_of_lt hn))
    obtain ⟨hhead, hne, hrest⟩ := hl
    have hca : c ≠ a := fun heq => ha (heq ▸ List.mem_cons_self)
    simp only [freeListRemoveLoop, hhead, if_neg hne, if_neg hca]
    exact ih (fun hin => ha (List.mem_cons_of_mem _ hin)) hrest (Nat.lt_of_succ_lt_succ hn)

/-- Distinct blocks of a picture have distinct addresses. -/
lemma Buddy.Holds.addr_nodup (h : s.Holds hand free live) (o : ℕ) :
    ((ofOrder free o).map s.addr).Nodup := by
  refine List.Nodup.map_on ?_ (h.free_nodup.filter _)
  intro b hb c hc heq
  exact addr_injective_on h (List.mem_filter.mp hb).1 (List.mem_filter.mp hc).1 heq

/-- Writing the link of a free block leaves the links of the others alone. -/
lemma Buddy.Holds.next_store (h : s.Holds hand free live) (hc : c ∈ free) (hd : d ∈ free)
    (hne : d ≠ c) (v : ℕ) :
    Buddy.next { s with mem := store s.mem (s.addr c + 16) 8 v } (s.addr d) = s.next (s.addr d) := by
  have hcmem := h.tile_mem.2.1 c hc
  have hdmem := h.tile_mem.2.1 d hd
  have hside := (h.apart_of_ne hdmem hcmem hne).le_or_le
  have hdsize := size_ge (h.min_order d hdmem)
  have hcsize := size_ge (h.min_order c hcmem)
  have hlinks : s.addr d + 16 + 8 ≤ s.addr c + 16 ∨ s.addr c + 16 + 8 ≤ s.addr d + 16 := by
    unfold Buddy.addr
    omega
  exact load_store_apart s.mem v hlinks

/-- **Remove.**  A given free block is taken in hand. -/
lemma Buddy.Holds.remove (h : s.Holds hand free live) (hb : b ∈ free) :
    ∃ s', freeListRemove s b.order (s.addr b) = some s' ∧
      s'.Holds (b :: hand) (free.erase b) live ∧ SameRegion s s' := by
  obtain ⟨hmax, h30, -⟩ := h.order_lt (h.tile_mem.2.1 b hb)
  have hmem : b ∈ ofOrder free b.order := List.mem_filter.mpr ⟨hb, by simp⟩
  obtain ⟨pre, post, hl⟩ := List.append_of_mem hmem
  have hnodup := h.free_nodup.filter fun b' => decide (b'.order = b.order)
  have haddrs := h.addr_nodup b.order
  have hlist := h.lists b.order
  change (ofOrder free b.order).Nodup at hnodup
  have hlength : pre.length < s.size.toNat := by
    have hle : (ofOrder free b.order).length ≤ free.length := List.length_filter_le _ _
    rw [hl, List.length_append, List.length_cons] at hle
    have := h.length_free_le
    omega
  rw [hl, List.map_append, List.map_cons] at hlist haddrs
  have hpre : b ∉ pre := fun hin => by
    rw [hl] at hnodup
    exact (List.nodup_append.mp hnodup).2.2 b hin b List.mem_cons_self rfl
  have hapre : s.addr b ∉ pre.map s.addr := fun hin =>
    (List.nodup_append.mp haddrs).2.2 _ hin _ List.mem_cons_self rfl
  have herase : (ofOrder free b.order).erase b = pre ++ post := by
    rw [hl, List.erase_append_right _ hpre, List.erase_cons_head]
  have hrest := hlist.rest
  have hnext : s.next (s.addr b) < 256 ^ 8 := load_lt _ _ _
  have hcount : (pre.map s.addr).length < s.size.toNat := by
    rw [List.length_map]
    exact hlength
  have hloop := freeListRemoveLoop_eq hapre (show Linked s.next (readLink s b.order .head) _ from hlist)
    hcount
  have hremove : freeListRemove s b.order (s.addr b) =
      freeListRemoveLoop s b.order (s.addr b) s.size.toNat .head :=
    if_neg (by change ¬ 30 < b.order; omega)
  rcases List.eq_nil_or_concat pre with rfl | ⟨front, c, rfl⟩
  · -- the block is the head of its list
    refine ⟨setHead s b.order (s.next (s.addr b)), hremove.trans hloop, ?_, ⟨rfl, rfl, rfl, rfl⟩⟩
    refine h.take hb ⟨rfl, rfl, rfl, rfl⟩ (fun _ _ => rfl) (fun _ ho => if_neg ho) ?_
    have hhead' : (setHead s b.order (s.next (s.addr b))).freeLists b.order = s.next (s.addr b) :=
      if_pos rfl
    rw [hhead', herase]
    exact hrest
  · -- the link of the block before it is rewritten
    rw [List.concat_eq_append] at *
    have hc : c ∈ ofOrder free b.order := by
      rw [hl]
      simp
    let s' : Buddy := { s with mem := store s.mem (s.addr c + 16) 8 (s.next (s.addr b)) }
    have hlink : lastLink .head ((front ++ [c]).map s.addr) = .node (s.addr c) := by
      rw [List.map_append, List.map_singleton]
      exact lastLink_append _ _ _
    rw [hlink] at hloop
    refine ⟨s', hremove.trans hloop, ?_, ⟨rfl, rfl, rfl, rfl⟩⟩
    refine h.take hb ⟨rfl, rfl, rfl, rfl⟩ (fun p hp => ?_) (fun _ _ => rfl) ?_
    · exact (store_of_outside _ _ (by have := hp c hc; omega)).symm
    · rw [herase]
      have hchain : (front ++ [c]).map s.addr ++ s.addr b :: post.map s.addr =
          front.map s.addr ++ s.addr c :: s.addr b :: post.map s.addr := by simp
      rw [hchain] at hlist haddrs
      have hgoal : (front ++ [c] ++ post).map s.addr =
          front.map s.addr ++ s.addr c :: post.map s.addr := by simp
      rw [hgoal]
      refine hlist.unlink haddrs (load_store _ hnext) fun x hx hxc => ?_
      rw [← hchain, ← List.map_cons, ← List.map_append, ← hl] at hx
      obtain ⟨d, hd, rfl⟩ := List.mem_map.mp hx
      have hdc : d ≠ c := fun heq => hxc (heq ▸ rfl)
      exact h.next_store (List.mem_filter.mp hc).1 (List.mem_filter.mp hd).1 hdc _

/-! ## Mark, release, writes of the user -/

/-- A live allocation in the block in hand. -/
structure Prepared (s : Buddy) (b : Block) (a : Live) : Prop where
  block : a.block = b
  payload_ge : s.addr b + 32 ≤ a.ptr
  payload_align : a.align.toNat ∣ a.ptr
  payload_le : a.ptr + a.size.toNat ≤ s.addr b + b.size
  magic : load s.mem (s.addr b) 8 = paiBuddyMagicAlloc
  order : load s.mem (s.addr b + 8) 4 = b.order
  back : load s.mem (a.ptr - 8) 8 = s.addr b

/-- **Mark.**  A block in hand that is prepared as an allocation becomes live. -/
lemma Buddy.Holds.mark (h : s.Holds (b :: hand) free live) (hfits : Prepared s b a)
    (hregion : s'.base = s.base ∧ s'.size = s.size ∧ s'.maxOrder = s.maxOrder)
    (hmem : s'.mem = s.mem) (hlists : s'.freeLists = s.freeLists)
    (hused : s'.usedBytes.toNat = s.usedBytes.toNat + b.size) : s'.Holds hand free (a :: live) := by
  obtain ⟨hbase, hsize, hmax⟩ := hregion
  have hblock := hfits.block
  subst hblock
  have haddr : s'.addr = s.addr := funext fun c => by
    unfold Buddy.addr
    rw [hbase]
  have hnext : s'.next = s.next := funext fun c => by
    unfold Buddy.next
    rw [hmem]
  have hperm : (a.block :: hand ++ free ++ live.map Live.block).Perm
      (hand ++ free ++ (a :: live).map Live.block) := by
    rw [List.map_cons, List.cons_append, List.cons_append]
    exact List.perm_middle.symm
  exact
    { order_le := hmax ▸ h.order_le
      size_eq := by rw [hsize, hmax, h.size_eq]
      base_pos := hbase ▸ h.base_pos
      base_end := by rw [hbase, hmax]; exact h.base_end
      tiling := hmax ▸ h.tiling.perm hperm
      min_order := fun c hc => h.min_order c (hperm.mem_iff.mpr hc)
      lists := by rw [haddr, hnext, hlists]; exact h.lists
      free_magic := by rw [haddr, hmem]; exact h.free_magic
      free_order := by rw [haddr, hmem]; exact h.free_order
      live_magic := by
        rw [haddr, hmem]
        exact List.forall_mem_cons.mpr ⟨hfits.magic, h.live_magic⟩
      live_order := by
        rw [haddr, hmem]
        exact List.forall_mem_cons.mpr ⟨hfits.order, h.live_order⟩
      back := by
        rw [haddr, hmem]
        exact List.forall_mem_cons.mpr ⟨hfits.back, h.back⟩
      payload_ge := by
        rw [haddr]
        exact List.forall_mem_cons.mpr ⟨hfits.payload_ge, h.payload_ge⟩
      payload_align := List.forall_mem_cons.mpr ⟨hfits.payload_align, h.payload_align⟩
      payload_le := by
        rw [haddr]
        exact List.forall_mem_cons.mpr ⟨hfits.payload_le, h.payload_le⟩
      used := by
        rw [hused, h.used, List.map_cons, List.sum_cons, Nat.add_comm] }

/-- The bytes in use and those of a block in hand fit the region. -/
lemma Buddy.Holds.used_le (h : s.Holds (b :: hand) free live) :
    s.usedBytes.toNat + b.size ≤ 2 ^ s.maxOrder := by
  have htotal := h.tiling.total
  have hsizes : (live.map fun a => a.block.size) = live.map (Block.size ∘ Live.block) := rfl
  rw [h.used, hsizes]
  simp only [List.cons_append, List.map_cons, List.sum_cons, List.map_append, List.sum_append,
    List.map_map] at htotal
  omega

/-- **The end of `pai_buddy_alloc`.**  A block with room for header, slack and payload becomes a live
allocation. -/
lemma Buddy.Holds.markAllocated (h : s.Holds (b :: hand) free live) {size align : UInt64}
    (hpow : paiMemIsPow2 align = true) (hroom : size.toNat + align.toNat + 32 ≤ b.size) :
    (markAllocated s (s.addr b) b.order align).1.Holds hand free
      (⟨b, (markAllocated s (s.addr b) b.order align).2, size, align⟩ :: live) := by
  have hmem : b ∈ b :: hand ++ free ++ live.map Live.block := List.mem_cons_self
  obtain ⟨hmax, h30, hfits⟩ := h.order_lt hmem
  have hend := h.addr_end hmem
  have hspace := h.base_end
  have hused := h.used_le
  have halign : 0 < align.toNat := by
    obtain ⟨k, -, hk⟩ := paiMemIsPow2_iff.mp hpow
    rw [hk]
    exact Nat.two_pow_pos k
  have hsize30 : b.size ≤ 2 ^ 30 := Nat.pow_le_pow_right (by decide) h30
  have hregion30 : 2 ^ s.maxOrder ≤ 2 ^ 30 := Nat.pow_le_pow_right (by decide) h.order_le
  have hstart : (UInt64.ofNat (s.addr b + paiBuddyHeader.toNat)).toNat = s.addr b + 32 := by
    rw [UInt64.toNat_ofNat']
    exact Nat.mod_eq_of_lt (by change s.addr b + 32 < _; omega)
  have hrange : AlignInRange (UInt64.ofNat (s.addr b + paiBuddyHeader.toNat)) align := by
    unfold AlignInRange
    rw [hstart]
    omega
  obtain ⟨hdvd, hge, hlt⟩ := paiMemAlignUp_of_inRange hpow hrange
  rw [hstart] at hge hlt
  let ptr := (paiMemAlignUp (UInt64.ofNat (s.addr b + paiBuddyHeader.toNat)) align).toNat
  change align.toNat ∣ ptr at hdvd
  change s.addr b + 32 ≤ ptr at hge
  change ptr < s.addr b + 32 + align.toNat at hlt
  obtain ⟨hmagic, horder, -⟩ := blockSetHeader_spec s (s.addr b)
    (show paiBuddyMagicAlloc < 256 ^ 8 by decide) hfits
  let s₁ := blockSetHeader s (s.addr b) paiBuddyMagicAlloc b.order
  let mem₂ := store s₁.mem (ptr - 8) 8 (s.addr b)
  have h₂ : ({ s₁ with mem := mem₂ } : Buddy).Holds (b :: hand) free live := by
    refine (h.setHeader _ _).write_hand fun p hp => (store_of_outside _ _ ?_).symm
    change p < s.addr b ∨ s.addr b + b.size ≤ p at hp
    omega
  have hmagic₂ : load mem₂ (s.addr b) 8 = paiBuddyMagicAlloc :=
    (load_store_apart _ _ (by omega)).trans hmagic
  have horder₂ : load mem₂ (s.addr b + 8) 4 = b.order :=
    (load_store_apart _ _ (by omega)).trans horder
  have hback₂ : load mem₂ (ptr - 8) 8 = s.addr b := load_store _ (by omega)
  refine h₂.mark ⟨rfl, hge, hdvd, ?_, hmagic₂, horder₂, hback₂⟩ ⟨rfl, rfl, rfl⟩ rfl rfl ?_
  · change ptr + size.toNat ≤ s.addr b + b.size
    omega
  · have hof : (UInt64.ofNat (2 ^ b.order)).toNat = b.size := by
      rw [UInt64.toNat_ofNat']
      exact Nat.mod_eq_of_lt (by change b.size < _; omega)
    change (s.usedBytes + UInt64.ofNat (2 ^ b.order)).toNat = s.usedBytes.toNat + b.size
    rw [UInt64.toNat_add, hof, Nat.mod_eq_of_lt (by omega)]

/-- **Release.**  A live block is taken in hand. -/
lemma Buddy.Holds.release (h : s.Holds hand free live) (ha : a ∈ live)
    (hregion : s'.base = s.base ∧ s'.size = s.size ∧ s'.maxOrder = s.maxOrder)
    (hmem : s'.mem = s.mem) (hlists : s'.freeLists = s.freeLists)
    (hused : s'.usedBytes.toNat + a.block.size = s.usedBytes.toNat) :
    s'.Holds (a.block :: hand) free (live.erase a) := by
  obtain ⟨hbase, hsize, hmax⟩ := hregion
  have haddr : s'.addr = s.addr := funext fun c => by
    unfold Buddy.addr
    rw [hbase]
  have hnext : s'.next = s.next := funext fun c => by
    unfold Buddy.next
    rw [hmem]
  have hlive := List.perm_cons_erase ha
  have hperm : (hand ++ free ++ live.map Live.block).Perm
      (a.block :: hand ++ free ++ (live.erase a).map Live.block) := by
    refine ((hlive.map Live.block).append_left (hand ++ free)).trans ?_
    rw [List.map_cons]
    exact List.perm_middle
  have hin (e : Live) (he : e ∈ live.erase a) : e ∈ live := List.mem_of_mem_erase he
  exact
    { order_le := hmax ▸ h.order_le
      size_eq := by rw [hsize, hmax, h.size_eq]
      base_pos := hbase ▸ h.base_pos
      base_end := by rw [hbase, hmax]; exact h.base_end
      tiling := hmax ▸ h.tiling.perm hperm
      min_order := fun c hc => h.min_order c (hperm.mem_iff.mpr hc)
      lists := by rw [haddr, hnext, hlists]; exact h.lists
      free_magic := by rw [haddr, hmem]; exact h.free_magic
      free_order := by rw [haddr, hmem]; exact h.free_order
      live_magic := by rw [haddr, hmem]; exact fun e he => h.live_magic e (hin e he)
      live_order := by rw [haddr, hmem]; exact fun e he => h.live_order e (hin e he)
      back := by rw [haddr, hmem]; exact fun e he => h.back e (hin e he)
      payload_ge := by rw [haddr]; exact fun e he => h.payload_ge e (hin e he)
      payload_align := fun e he => h.payload_align e (hin e he)
      payload_le := by rw [haddr]; exact fun e he => h.payload_le e (hin e he)
      used := by
        have hsum := (hlive.map fun e => e.block.size).sum_eq
        have hall := h.used
        rw [List.map_cons, List.sum_cons] at hsum
        omega }

/-- Payloads and skeleton are apart, so that the user may write into a payload. -/
lemma Buddy.Holds.userWrite (h : s.Holds hand free live) (ha : a ∈ live) {mem' : Mem}
    (hmem : ∀ p, p < a.ptr ∨ a.ptr + a.size.toNat ≤ p → s.mem p = mem' p) :
    ({ s with mem := mem' } : Buddy).Holds hand free live := by
  have hge := h.payload_ge a ha
  have hle := h.payload_le a ha
  have hatile := h.tile_mem.2.2 a ha
  refine h.of_sameSkeleton ⟨fun c hc p hp hp' => hmem p ?_, fun e he p hp hp' => hmem p ?_,
    fun e he p hp hp' => hmem p ?_⟩
  · have hctile := h.tile_mem.2.1 c hc
    have hside := (h.apart_of_ne hatile hctile (h.live_ne_free ha hc)).le_or_le
    have hsize := size_ge (h.min_order c hctile)
    unfold Buddy.addr at *
    omega
  · have hetile := h.tile_mem.2.2 e he
    by_cases heq : a.block = e.block
    · rw [← heq] at hp hp'
      omega
    · have hside := (h.apart_of_ne hatile hetile heq).le_or_le
      have hsize := size_ge (h.min_order _ hetile)
      unfold Buddy.addr at *
      omega
  · have hetile := h.tile_mem.2.2 e he
    have hege := h.payload_ge e he
    have hele := h.payload_le e he
    by_cases heq : e = a
    · subst heq
      omega
    · have hblock : a.block ≠ e.block := h.block_ne ha he (Ne.symm heq)
      have hside := (h.apart_of_ne hatile hetile hblock).le_or_le
      unfold Buddy.addr at *
      omega

end Prospero
