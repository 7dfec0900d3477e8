import Prospero.Memory.BuddyBlocks

/-!
# What a free writes

`pai_buddy_free` writes headers and links of block starts, and marks no block as allocated.  Merging
takes starts away and adds none.

### Outline

* Writes at block starts.
* `free_list_push` and `free_list_remove`.
* Coarsening of a picture.
-/

namespace Prospero

open Words Chains Dyadic

variable {s s' s'' : Buddy} {starts : ℕ → Prop} {mem mem' mem'' : Mem} {x o : ℕ}

/-! ## Writes at block starts -/

/-- Block starts leave each other room for header and link. -/
def Spaced (starts : ℕ → Prop) : Prop :=
  ∀ x y, starts x → starts y → x ≠ y → x + 24 ≤ y ∨ y + 24 ≤ x

/-- Memory changes in the headers and links of block starts at most, and no block start becomes marked as
allocated. -/
structure FreesOnly (starts : ℕ → Prop) (mem mem' : Mem) : Prop where
  /-- Outside headers and links. -/
  outside : ∀ p, (∀ x, starts x → p < x ∨ x + 24 ≤ p) → mem' p = mem p
  /-- The magic numbers. -/
  magic : ∀ x, starts x → load mem' x 8 = load mem x 8 ∨ load mem' x 8 = paiBuddyMagicFree

lemma FreesOnly.refl (starts : ℕ → Prop) (mem : Mem) : FreesOnly starts mem mem :=
  ⟨fun _ _ => rfl, fun _ _ => Or.inl rfl⟩

lemma FreesOnly.trans (h : FreesOnly starts mem mem') (h' : FreesOnly starts mem' mem'') :
    FreesOnly starts mem mem'' where
  outside := fun p hp => (h'.outside p hp).trans (h.outside p hp)
  magic := fun x hx => by
    rcases h'.magic x hx with hsame | hfree
    · rw [hsame]
      exact h.magic x hx
    · exact Or.inr hfree

/-- A write into order or link of a block start. -/
lemma freesOnly_store_field (hspaced : Spaced starts) (hx : starts x) {k n : ℕ} (v : ℕ)
    (hk : 8 ≤ k) (hn : k + n ≤ 24) : FreesOnly starts mem (store mem (x + k) n v) where
  outside := fun p hp => by
    have hpx := hp x hx
    exact store_of_outside mem v (by omega)
  magic := fun y hy => by
    refine Or.inl (load_store_apart mem v ?_)
    by_cases hne : x = y
    · omega
    · have hroom := hspaced x y hx hy hne
      omega

/-- Marking a block start as free. -/
lemma freesOnly_store_magic (hspaced : Spaced starts) (hx : starts x) :
    FreesOnly starts mem (store mem x 8 paiBuddyMagicFree) where
  outside := fun p hp => by
    have hpx := hp x hx
    exact store_of_outside mem _ (by omega)
  magic := fun y hy => by
    by_cases hne : x = y
    · subst hne
      exact Or.inr (load_store mem (by decide))
    · have hroom := hspaced x y hx hy hne
      exact Or.inl (load_store_apart mem _ (by omega))

/-- The header of a free block. -/
lemma freesOnly_blockSetHeader (hspaced : Spaced starts) (hx : starts x) :
    FreesOnly starts s.mem (blockSetHeader s x paiBuddyMagicFree o).mem :=
  (freesOnly_store_magic hspaced hx).trans
    (freesOnly_store_field hspaced hx o le_rfl (by decide))

/-! ## Free lists -/

/-- `free_list_push` writes header and link of the block. -/
lemma freesOnly_of_push (hspaced : Spaced starts) (hx : starts x)
    (h : freeListPush s o x = some s') : FreesOnly starts s.mem s'.mem := by
  rw [freeListPush] at h
  split at h
  · exact absurd h (by simp)
  · obtain rfl := Option.some.inj h
    exact (freesOnly_blockSetHeader hspaced hx).trans
      (freesOnly_store_field hspaced hx _ (by decide) (by decide))

/-- The loop of `free_list_remove` writes the link of a node it went through. -/
lemma freesOnly_of_removeLoop (hspaced : Spaced starts) {n : ℕ} {link : FreeLink} {l : List ℕ}
    (hl : Linked s.next (readLink s o link) l) (hnodes : ∀ y ∈ l, starts y)
    (hlink : ∀ y, link = .node y → starts y)
    (h : freeListRemoveLoop s o x n link = some s') : FreesOnly starts s.mem s'.mem := by
  induction n generalizing link l with
  | zero => exact absurd h (by simp [freeListRemoveLoop])
  | succ n ih =>
    simp only [freeListRemoveLoop] at h
    split at h
    · obtain rfl := Option.some.inj h
      exact FreesOnly.refl _ _
    rename_i hnode
    split at h
    · obtain rfl := Option.some.inj h
      cases link with
      | head => exact FreesOnly.refl _ _
      | node y =>
        exact freesOnly_store_field hspaced (hlink y rfl) _ (by decide) (by decide)
    · cases l with
      | nil => exact absurd hl hnode
      | cons y l =>
        obtain ⟨hhead, -, hrest⟩ := hl
        rw [hhead] at h
        have hnext : Linked s.next (readLink s o (.node y)) l := hrest
        refine ih hnext (fun z hz => hnodes z (List.mem_cons_of_mem y hz)) (fun z hz => ?_) h
        rw [← FreeLink.node.inj hz]
        exact hnodes y List.mem_cons_self

/-- `free_list_remove` writes the link of a free block. -/
lemma freesOnly_of_remove (hspaced : Spaced starts) {l : List ℕ}
    (hl : Linked s.next (s.freeLists o) l) (hnodes : ∀ y ∈ l, starts y)
    (h : freeListRemove s o x = some s') : FreesOnly starts s.mem s'.mem := by
  rw [freeListRemove] at h
  split at h
  · exact absurd h (by simp)
  · have hhead : Linked s.next (readLink s o .head) l := hl
    exact freesOnly_of_removeLoop hspaced hhead hnodes (by simp) h

/-! ## Coarsening -/

/-- From one picture to the next memory is written at block starts only, and no start is new. -/
def Coarsens (s s' : Buddy) (tiles tiles' : List Block) : Prop :=
  ∀ starts, Spaced starts → (∀ c ∈ tiles, starts (s.addr c)) →
    FreesOnly starts s.mem s'.mem ∧ ∀ c ∈ tiles', starts (s'.addr c)

lemma Coarsens.refl (s : Buddy) (tiles : List Block) : Coarsens s s tiles tiles :=
  fun _ _ htiles => ⟨FreesOnly.refl _ _, htiles⟩

lemma Coarsens.trans {tiles tiles' tiles'' : List Block} (h : Coarsens s s' tiles tiles')
    (h' : Coarsens s' s'' tiles' tiles'') : Coarsens s s'' tiles tiles'' := by
  intro starts hspaced htiles
  obtain ⟨hfrees, htiles'⟩ := h starts hspaced htiles
  obtain ⟨hfrees', htiles''⟩ := h' starts hspaced htiles'
  exact ⟨hfrees.trans hfrees', htiles''⟩

/-- The block in hand is pushed onto its free list. -/
lemma coarsens_of_push {b : Block} {free : List Block} (hbase : s'.base = s.base)
    (h : freeListPush s b.order (s.addr b) = some s') : Coarsens s s' (b :: free) (b :: free) := by
  intro starts hspaced htiles
  refine ⟨freesOnly_of_push hspaced (htiles b List.mem_cons_self) h, fun c hc => ?_⟩
  unfold Buddy.addr
  rw [hbase]
  exact htiles c hc

/-- The free sibling of the block in hand leaves its list, and the two become one. -/
lemma coarsens_of_merge {b : Block} {free : List Block} (hbase : s'.base = s.base)
    (hl : Linked s.next (s.freeLists b.order) ((ofOrder free b.order).map s.addr))
    (hsibling : b.sibling ∈ free) (h : freeListRemove s b.order (s.addr b.sibling) = some s') :
    Coarsens s s' (b :: free) (b.parent :: free.erase b.sibling) := by
  intro starts hspaced htiles
  have hfree : ∀ c ∈ free, starts (s.addr c) := fun c hc => htiles c (List.mem_cons_of_mem b hc)
  have haddr : ∀ c : Block, s'.addr c = s.addr c := fun c => by
    unfold Buddy.addr
    rw [hbase]
  refine ⟨freesOnly_of_remove hspaced hl (fun y hy => ?_) h, fun c hc => ?_⟩
  · obtain ⟨c, hc, rfl⟩ := List.mem_map.mp hy
    exact hfree c (List.mem_filter.mp hc).1
  · rw [haddr]
    rcases List.mem_cons.mp hc with rfl | hc
    · -- the merged block starts where the lower of the two does
      have hparent : s.addr b.parent = s.addr b ∨ s.addr b.parent = s.addr b.sibling := by
        unfold Buddy.addr
        rw [Block.parent_off]
        split_ifs
        · exact Or.inr rfl
        · exact Or.inl rfl
      rcases hparent with heq | heq
      · rw [heq]
        exact htiles b List.mem_cons_self
      · rw [heq]
        exact hfree _ hsibling
    · exact hfree c (List.mem_of_mem_erase hc)

end Prospero
