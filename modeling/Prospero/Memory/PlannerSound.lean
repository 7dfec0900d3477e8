import Mathlib.Data.List.Perm.Basic
import Prospero.Lib.Extents
import Prospero.Memory.Planner

/-!
# Soundness of memory plans

What a plan is for: every offset is aligned, every range lies in the region, ranges of requests
that are live together share no byte, and neither do a pinned range and any other (`PlanSound`).

The sweep keeps the free ranges and the live ranges packed below the cursor (`SweepInv`).  The only
step that can break this is an extension of the region: `pai_mem_align_up` wraps to `0` when the
cursor is beyond its documented range, and so does the final rounding.  A sweep in which neither
happens (`PlanInRange`) gives a sound plan, whatever order `qsort` gave to ties.
-/

namespace Prospero

open Extent

/-! ## Wrapping words -/

/-- A sum that fits is the sum of the numbers. -/
theorem toNat_add_of_lt {a b : UInt64} (h : a.toNat + b.toNat < 2 ^ 64) :
    (a + b).toNat = a.toNat + b.toNat := by
  rw [UInt64.toNat_add, Nat.mod_eq_of_lt h]

/-- A difference that does not borrow is the difference of the numbers. -/
theorem toNat_sub_of_ge {a b : UInt64} (h : b.toNat ≤ a.toNat) :
    (a - b).toNat = a.toNat - b.toNat :=
  UInt64.toNat_sub_of_le _ _ (UInt64.le_iff_toNat_le.mpr h)

/-! ## Ranges -/

/-- The bytes of a free node. -/
def FreeNode.extent (n : FreeNode) : Extent := ⟨n.off.toNat, n.size.toNat⟩

/-- The bytes of a live allocation. -/
def LiveAlloc.extent (l : LiveAlloc) : Extent := ⟨l.off.toNat, l.size.toNat⟩

/-- The bytes given to a request placed at `off`. -/
def MemAlloc.extentAt (a : MemAlloc) (off : UInt64) : Extent := ⟨off.toNat, a.size.toNat⟩

/-- The range ends at or below `bound`. -/
def EndsBy (bound : ℕ) (e : Extent) : Prop := e.off + e.size ≤ bound

/-- The requests `planner_add_common` accepts. -/
structure MemAlloc.Valid (a : MemAlloc) : Prop where
  /-- The request is not empty. -/
  size_pos : 0 < a.size.toNat
  /-- The alignment is a power of two. -/
  pow2 : paiMemIsPow2 a.align = true
  /-- The lifetime is not empty. -/
  start_lt : a.start.toNat < a.stop.toNat
  /-- The aligned size does not wrap. -/
  size_le : a.size.toNat + a.align.toNat ≤ 2 ^ 64

/-- Every accepted request is valid. -/
theorem plannerAddCommon_valid {planner : Planner} {size align start stop : UInt64} {pinned : Bool}
    (h : ∀ a ∈ planner.allocs, a.Valid) :
    ∀ a ∈ (plannerAddCommon planner size align start stop pinned).1.allocs, a.Valid := by
  unfold plannerAddCommon
  split_ifs with hbad hfull
  · exact h
  · exact h
  · push Not at hbad
    obtain ⟨hsize, -, hpow, hlife, hfit⟩ := hbad
    intro a ha
    obtain ha | ha := List.mem_append.mp ha
    · exact h a ha
    · obtain rfl := List.mem_singleton.mp ha
      obtain ⟨k, hk, halign⟩ := paiMemIsPow2_iff.mp hpow
      have hpos : 0 < align.toNat := halign ▸ Nat.two_pow_pos k
      have hlt := align.toNat_lt
      have hsub : (align - 1).toNat = align.toNat - 1 := toNat_sub_of_ge hpos
      have hmax : uint64Max.toNat = 2 ^ 64 - 1 := rfl
      have hroom : (uint64Max - (align - 1)).toNat = uint64Max.toNat - (align - 1).toNat :=
        toNat_sub_of_ge (by rw [hmax, hsub]; omega)
      have hle := UInt64.le_iff_toNat_le.mp (UInt64.not_lt.mp hfit)
      rw [hroom, hsub, hmax] at hle
      have hsum : size.toNat + align.toNat ≤ 2 ^ 64 := by omega
      refine ⟨?_, hpow, UInt64.lt_iff_toNat_lt.mp (UInt64.not_le.mp hlife), hsum⟩
      refine Nat.pos_of_ne_zero fun h0 => hsize ?_
      exact UInt64.toNat_inj.mp h0

/-- The requests of a planner are valid, and its arena alignment is zero or a power of two. -/
theorem plannerAfter_valid (calls : List PlannerCall) :
    (∀ a ∈ (plannerAfter calls).allocs, a.Valid) ∧
      paiMemIsPow2 (plannerAfter calls).arena = true := by
  have hstep (planner : Planner) (c : PlannerCall)
      (h : (∀ a ∈ planner.allocs, a.Valid) ∧ paiMemIsPow2 planner.arena = true) :
      (∀ a ∈ (planner.call c).allocs, a.Valid) ∧ paiMemIsPow2 (planner.call c).arena = true := by
    cases c with
    | setArenaAlign align =>
      unfold Planner.call paiMemPlannerSetArenaAlign
      simp only
      split_ifs with hbad
      · exact h
      · push Not at hbad
        refine ⟨h.1, ?_⟩
        simp only [Planner.arena, ne_eq, hbad.1, not_false_eq_true, if_true]
        exact hbad.2
    | add size align start stop =>
      refine ⟨plannerAddCommon_valid h.1, ?_⟩
      have harena : (planner.call (.add size align start stop)).arena = planner.arena := by
        unfold Planner.call paiMemPlannerAdd plannerAddCommon
        simp only
        split_ifs <;> rfl
      rw [harena]
      exact h.2
    | addPinned size align start stop =>
      refine ⟨plannerAddCommon_valid h.1, ?_⟩
      have harena : (planner.call (.addPinned size align start stop)).arena = planner.arena := by
        unfold Planner.call paiMemPlannerAddPinned plannerAddCommon
        simp only
        split_ifs <;> rfl
      rw [harena]
      exact h.2
  have hrun : ∀ (cs : List PlannerCall) (planner : Planner),
      ((∀ a ∈ planner.allocs, a.Valid) ∧ paiMemIsPow2 planner.arena = true) →
      (∀ a ∈ (cs.foldl Planner.call planner).allocs, a.Valid) ∧
        paiMemIsPow2 (cs.foldl Planner.call planner).arena = true := by
    intro cs
    induction cs with
    | nil => exact fun _ h => h
    | cons c cs ih => exact fun planner h => ih (planner.call c) (hstep planner c h)
  exact hrun calls paiMemPlannerInit ⟨fun a ha => absurd ha List.not_mem_nil, by decide⟩

/-! ## The free list -/

/-- What an insertion can do: merge with both neighbours, with one of them, add a node, or drop the
range. -/
theorem freeListInsert_cases (free : List FreeNode) (poolUsed : ℕ) (off size : UInt64) :
    let r := (freeListInsert free poolUsed off size).1
    (∃ b prev cur a, free = b ++ prev :: cur :: a ∧ prev.off + prev.size = off ∧
        off + size = cur.off ∧ r = b ++ ⟨prev.off, prev.size + size + cur.size⟩ :: a) ∨
      (∃ b prev a, free = b ++ prev :: a ∧ prev.off + prev.size = off ∧
        r = b ++ ⟨prev.off, prev.size + size⟩ :: a) ∨
      (∃ b cur a, free = b ++ cur :: a ∧ off + size = cur.off ∧
        r = b ++ ⟨off, cur.size + size⟩ :: a) ∨
      (∃ b a, free = b ++ a ∧ r = b ++ ⟨off, size⟩ :: a) ∨ r = free := by
  have hsplit : free = (free.takeWhile fun n => n.off < off) ++ free.dropWhile fun n => n.off < off :=
    List.takeWhile_append_dropWhile.symm
  unfold freeListInsert
  simp only
  set before := free.takeWhile fun n => n.off < off
  set after := free.dropWhile fun n => n.off < off
  have hbefore {prev : FreeNode}
      (h : before.getLast?.filter (fun n => n.off + n.size == off) = some prev) :
      before = before.dropLast ++ [prev] ∧ prev.off + prev.size = off := by
    obtain ⟨hlast, hoff⟩ := Option.filter_eq_some_iff.mp h
    exact ⟨(List.dropLast_append_getLast? prev hlast).symm, by simpa using hoff⟩
  have hafter {cur : FreeNode}
      (h : after.head?.filter (fun n => off + size == n.off) = some cur) :
      after = cur :: after.tail ∧ off + size = cur.off := by
    obtain ⟨hhead, hoff⟩ := Option.filter_eq_some_iff.mp h
    exact ⟨List.eq_cons_of_mem_head? hhead, by simpa using hoff⟩
  split
  · rename_i prev cur hprev hcur
    obtain ⟨hb, hoff⟩ := hbefore hprev
    obtain ⟨ha, hend⟩ := hafter hcur
    refine Or.inl ⟨before.dropLast, prev, cur, after.tail, ?_, hoff, hend, rfl⟩
    rw [hsplit, hb, ha]
    simp
  · rename_i prev hprev hcur
    obtain ⟨hb, hoff⟩ := hbefore hprev
    refine Or.inr (Or.inl ⟨before.dropLast, prev, after, ?_, hoff, rfl⟩)
    rw [hsplit, hb]
    simp
  · rename_i cur hprev hcur
    obtain ⟨ha, hend⟩ := hafter hcur
    refine Or.inr (Or.inr (Or.inl ⟨before, cur, after.tail, ?_, hend, rfl⟩))
    rw [hsplit, ha]
    simp
  · split_ifs
    · exact Or.inr (Or.inr (Or.inr (Or.inr rfl)))
    · exact Or.inr (Or.inr (Or.inr (Or.inl ⟨before, after, hsplit, rfl⟩)))

/-- A range that begins where a node ends extends the node. -/
theorem extent_append {prev : FreeNode} {off size : UInt64} {bound : ℕ} (hbound : bound < 2 ^ 64)
    (hprev : EndsBy bound prev.extent) (hoff : prev.off + prev.size = off)
    (hx : off.toNat + size.toNat ≤ bound) :
    prev.off.toNat + prev.size.toNat = off.toNat ∧
      (⟨prev.off, prev.size + size⟩ : FreeNode).extent =
        ⟨prev.off.toNat, prev.size.toNat + size.toNat⟩ := by
  have hprev' : prev.off.toNat + prev.size.toNat ≤ bound := hprev
  have hnat : prev.off.toNat + prev.size.toNat = off.toNat := by
    rw [← hoff, toNat_add_of_lt (by omega)]
  refine ⟨hnat, ?_⟩
  rw [FreeNode.extent, toNat_add_of_lt (by omega)]

/-- A range that ends where a node begins extends the node. -/
theorem extent_prepend {cur : FreeNode} {off size : UInt64} {bound : ℕ} (hbound : bound < 2 ^ 64)
    (hcur : EndsBy bound cur.extent) (hend : off + size = cur.off)
    (hx : off.toNat + size.toNat ≤ bound) :
    off.toNat + size.toNat = cur.off.toNat ∧
      (⟨off, cur.size + size⟩ : FreeNode).extent =
        ⟨off.toNat, size.toNat + cur.size.toNat⟩ := by
  have hcur' : cur.off.toNat + cur.size.toNat ≤ bound := hcur
  have hnat : off.toNat + size.toNat = cur.off.toNat := by
    rw [← hend, toNat_add_of_lt (by omega)]
  refine ⟨hnat, ?_⟩
  rw [FreeNode.extent, toNat_add_of_lt (by omega), Nat.add_comm]

/-- A range between two nodes that touches both joins them. -/
theorem extent_join {prev cur : FreeNode} {off size : UInt64} {bound : ℕ} (hbound : bound < 2 ^ 64)
    (hprev : EndsBy bound prev.extent) (hcur : EndsBy bound cur.extent)
    (hoff : prev.off + prev.size = off) (hend : off + size = cur.off)
    (hx : off.toNat + size.toNat ≤ bound) :
    (⟨prev.off, prev.size + size + cur.size⟩ : FreeNode).extent =
      ⟨prev.off.toNat, prev.size.toNat + (size.toNat + cur.size.toNat)⟩ := by
  have hcur' : cur.off.toNat + cur.size.toNat ≤ bound := hcur
  obtain ⟨hnat, -⟩ := extent_append hbound hprev hoff hx
  obtain ⟨hnat', -⟩ := extent_prepend hbound hcur hend hx
  have hsum : (prev.size + size).toNat = prev.size.toNat + size.toNat :=
    toNat_add_of_lt (by omega)
  rw [FreeNode.extent, toNat_add_of_lt (by rw [hsum]; omega), hsum, Nat.add_assoc]

/-- Insertion keeps the free ranges below the bound. -/
theorem freeListInsert_endsBy {free : List FreeNode} (poolUsed : ℕ) {off size : UInt64} {bound : ℕ}
    (hbound : bound < 2 ^ 64) (hfree : ∀ n ∈ free, EndsBy bound n.extent)
    (hx : off.toNat + size.toNat ≤ bound) :
    ∀ n ∈ (freeListInsert free poolUsed off size).1, EndsBy bound n.extent := by
  have hnew (olds : List FreeNode) {b a : List FreeNode} {node : FreeNode} (hold : free = b ++ (olds ++ a))
      (hnode : EndsBy bound node.extent) : ∀ n ∈ b ++ node :: a, EndsBy bound n.extent := by
    intro n hn
    subst hold
    simp only [List.mem_append, List.mem_cons] at hn hfree
    obtain hn | rfl | hn := hn
    · exact hfree n (Or.inl hn)
    · exact hnode
    · exact hfree n (Or.inr (Or.inr hn))
  obtain ⟨b, prev, cur, a, hold, hoff, hend, hr⟩ | ⟨b, prev, a, hold, hoff, hr⟩ |
    ⟨b, cur, a, hold, hend, hr⟩ | ⟨b, a, hold, hr⟩ | hr :=
    freeListInsert_cases free poolUsed off size
  · have hprev := hfree prev (by simp [hold])
    have hcur := hfree cur (by simp [hold])
    rw [hr]
    refine hnew [prev, cur] hold ?_
    obtain ⟨hnat, -⟩ := extent_append hbound hprev hoff hx
    obtain ⟨hnat', -⟩ := extent_prepend hbound hcur hend hx
    have hcur' : cur.off.toNat + cur.size.toNat ≤ bound := hcur
    rw [extent_join hbound hprev hcur hoff hend hx]
    simp only [EndsBy]
    omega
  · have hprev := hfree prev (by simp [hold])
    rw [hr]
    refine hnew [prev] hold ?_
    obtain ⟨hnat, hext⟩ := extent_append hbound hprev hoff hx
    rw [hext]
    simp only [EndsBy]
    omega
  · have hcur := hfree cur (by simp [hold])
    rw [hr]
    refine hnew [cur] hold ?_
    obtain ⟨hnat, hext⟩ := extent_prepend hbound hcur hend hx
    have hcur' : cur.off.toNat + cur.size.toNat ≤ bound := hcur
    rw [hext]
    simp only [EndsBy]
    omega
  · rw [hr]
    exact hnew [] hold hx
  · rw [hr]
    exact hfree

/-- Insertion of a range apart from everything keeps the ranges packed. -/
theorem freeListInsert_packed {free : List FreeNode} (poolUsed : ℕ) {off size : UInt64}
    {others : List Extent} {bound : ℕ} (hbound : bound < 2 ^ 64)
    (hfree : ∀ n ∈ free, EndsBy bound n.extent) (hx : off.toNat + size.toNat ≤ bound)
    (hpacked : Packed (⟨off.toNat, size.toNat⟩ :: (free.map FreeNode.extent ++ others))) :
    Packed ((freeListInsert free poolUsed off size).1.map FreeNode.extent ++ others) := by
  obtain ⟨b, prev, cur, a, rfl, hoff, hend, hr⟩ | ⟨b, prev, a, rfl, hoff, hr⟩ |
    ⟨b, cur, a, rfl, hend, hr⟩ | ⟨b, a, rfl, hr⟩ | hr :=
    freeListInsert_cases free poolUsed off size
  · have hprev := hfree prev (by simp)
    have hcur := hfree cur (by simp)
    have hold : Packed ([prev.extent, ⟨off.toNat, size.toNat⟩, cur.extent] ++
        (b.map FreeNode.extent ++ (a.map FreeNode.extent ++ others))) := by
      refine hpacked.perm ?_
      simp only [List.map_append, List.map_cons, List.append_assoc, List.cons_append,
        List.nil_append]
      exact (List.Perm.cons _ List.perm_middle).trans
        ((List.Perm.swap _ _ _).trans (List.Perm.cons _ (List.Perm.cons _ List.perm_middle)))
    obtain ⟨hnat, -⟩ := extent_append hbound hprev hoff hx
    obtain ⟨hnat', -⟩ := extent_prepend hbound hcur hend hx
    rw [hr]
    simp only [List.map_append, List.map_cons, List.append_assoc, List.cons_append,
      extent_join hbound hprev hcur hoff hend hx]
    refine (hold.replace_one fun p hp => ?_).perm List.perm_middle.symm
    simp only [has_merge, hnat, hnat'] at hp
    simpa [FreeNode.extent] using hp
  · have hprev := hfree prev (by simp)
    have hold : Packed ([prev.extent, ⟨off.toNat, size.toNat⟩] ++
        (b.map FreeNode.extent ++ (a.map FreeNode.extent ++ others))) := by
      refine hpacked.perm ?_
      simp only [List.map_append, List.map_cons, List.append_assoc, List.cons_append,
        List.nil_append]
      exact (List.Perm.cons _ List.perm_middle).trans (List.Perm.swap _ _ _)
    obtain ⟨hnat, hext⟩ := extent_append hbound hprev hoff hx
    rw [hr]
    simp only [List.map_append, List.map_cons, List.append_assoc, List.cons_append, hext]
    refine (hold.replace_one fun p hp => ?_).perm List.perm_middle.symm
    simp only [has_merge, hnat] at hp
    simpa [FreeNode.extent] using hp
  · have hcur := hfree cur (by simp)
    have hold : Packed ([⟨off.toNat, size.toNat⟩, cur.extent] ++
        (b.map FreeNode.extent ++ (a.map FreeNode.extent ++ others))) := by
      refine hpacked.perm ?_
      simp only [List.map_append, List.map_cons, List.append_assoc, List.cons_append,
        List.nil_append]
      exact List.Perm.cons _ List.perm_middle
    obtain ⟨hnat, hext⟩ := extent_prepend hbound hcur hend hx
    rw [hr]
    simp only [List.map_append, List.map_cons, List.append_assoc, List.cons_append, hext]
    refine (hold.replace_one fun p hp => ?_).perm List.perm_middle.symm
    simp only [has_merge, hnat] at hp
    simpa [FreeNode.extent] using hp
  · rw [hr]
    refine hpacked.perm ?_
    simp only [List.map_append, List.map_cons, List.append_assoc, List.cons_append]
    exact List.perm_middle.symm
  · rw [hr]
    exact (packed_cons.mp hpacked).2

/-- A node that passes the fit test holds the aligned request; the test never wraps. -/
theorem fits_spec {node : FreeNode} {a : MemAlloc} (hvalid : a.Valid) {bound : ℕ}
    (hbound : bound < 2 ^ 64) (hnode : EndsBy bound node.extent) (hfits : node.fits a = true) :
    AlignInRange node.off a.align ∧
      (paiMemAlignUp node.off a.align).toNat + a.size.toNat ≤
        node.off.toNat + node.size.toNat := by
  have hnode' : node.off.toNat + node.size.toNat ≤ bound := hnode
  have hsize := hvalid.size_le
  have hpos := hvalid.size_pos
  obtain ⟨k, hk, halign⟩ := paiMemIsPow2_iff.mp hvalid.pow2
  have hapos : 0 < a.align.toNat := halign ▸ Nat.two_pow_pos k
  have hle := UInt64.le_iff_toNat_le.mp (of_decide_eq_true hfits)
  by_cases hrange : AlignInRange node.off a.align
  · obtain ⟨-, hge, hlt⟩ := paiMemAlignUp_of_inRange hvalid.pow2 hrange
    have hpad : (paiMemAlignUp node.off a.align - node.off).toNat =
        (paiMemAlignUp node.off a.align).toNat - node.off.toNat := toNat_sub_of_ge hge
    rw [toNat_add_of_lt (by rw [hpad]; omega), hpad] at hle
    exact ⟨hrange, by omega⟩
  · -- the aligned offset wraps to zero, and no node reaches that far
    exfalso
    have hout : 2 ^ 64 ≤ node.off.toNat + (a.align.toNat - 1) := not_lt.mp hrange
    have hoff := node.off.toNat_lt
    have hpad : (paiMemAlignUp node.off a.align - node.off).toNat = 2 ^ 64 - node.off.toNat := by
      rw [paiMemAlignUp_of_not_inRange hvalid.pow2 hrange, UInt64.toNat_sub]
      have hzero : UInt64.toNat 0 = 0 := rfl
      rw [hzero, Nat.add_zero, Nat.mod_eq_of_lt (by omega)]
    rw [toNat_add_of_lt (by rw [hpad]; omega), hpad] at hle
    omega

/-- What the best-fit loop finds is a node of the list that fits. -/
theorem bestFitFrom_spec (a : MemAlloc) (free : List FreeNode) (i : ℕ)
    (best : Option (FreeNode × ℕ)) {node : FreeNode} {k : ℕ}
    (h : bestFitFrom a free i best = some (node, k)) :
    best = some (node, k) ∨ ∃ j, k = i + j ∧ free[j]? = some node ∧ node.fits a = true := by
  induction free generalizing i best with
  | nil => exact Or.inl h
  | cons cur rest ih =>
    obtain hbest | ⟨j, hk, hget, hfits⟩ := ih _ _ h
    · split_ifs at hbest with htake
      · obtain ⟨rfl, rfl⟩ := Prod.mk.inj (Option.some.inj hbest)
        rw [Bool.and_eq_true] at htake
        exact Or.inr ⟨0, rfl, rfl, htake.1⟩
      · exact Or.inl hbest
    · exact Or.inr ⟨j + 1, by omega, by simpa using hget, hfits⟩

/-- The best fit is a node of the free list that fits. -/
theorem bestFit_spec {a : MemAlloc} {free : List FreeNode} {node : FreeNode} {k : ℕ}
    (h : bestFit free a = some (node, k)) : free[k]? = some node ∧ node.fits a = true := by
  obtain hnone | ⟨j, hk, hget, hfits⟩ := bestFitFrom_spec a free 0 none h
  · exact absurd hnone (by simp)
  · rw [Nat.zero_add] at hk
    exact ⟨hk ▸ hget, hfits⟩

/-- Taking an entry out of a list. -/
theorem perm_cons_eraseIdx {α : Type} {l : List α} {k : ℕ} {x : α} (h : l[k]? = some x) :
    l.Perm (x :: l.eraseIdx k) := by
  obtain ⟨hk, rfl⟩ := List.getElem?_eq_some_iff.mp h
  exact (List.getElem_cons_eraseIdx_perm hk).symm

/-- Swap removal takes an entry out of the list. -/
theorem perm_cons_swapRemove {live : List LiveAlloc} {j : ℕ} {l : LiveAlloc}
    (h : live[j]? = some l) : live.Perm (l :: swapRemove live j) := by
  obtain ⟨hj, hl⟩ := List.getElem?_eq_some_iff.mp h
  obtain ⟨init, z, rfl⟩ : ∃ init z, live = init ++ [z] := by
    have hne : live ≠ [] := List.ne_nil_of_length_pos (by omega)
    exact ⟨live.dropLast, live.getLast hne, (List.dropLast_append_getLast hne).symm⟩
  have hlast : (init ++ [z]).Perm (z :: init) := List.perm_append_comm
  rw [List.length_append, List.length_singleton] at hj
  simp only [swapRemove, List.getLast?_append, List.getLast?_singleton, Option.some_or]
  by_cases hlt : j < init.length
  · rw [List.getElem_append_left hlt] at hl
    rw [List.set_append_left _ _ hlt, List.dropLast_concat]
    have herase := perm_cons_eraseIdx (List.getElem?_eq_some_iff.mpr ⟨hlt, hl⟩)
    calc init ++ [z]
      _ |>.Perm (z :: init) := hlast
      _ |>.Perm (z :: l :: init.eraseIdx j) := herase.cons z
      _ |>.Perm (l :: z :: init.eraseIdx j) := List.Perm.swap _ _ _
      _ |>.Perm (l :: init.set j z) := (List.set_perm_cons_eraseIdx hlt z).symm.cons l
  · obtain rfl : j = init.length := by omega
    have hz : z = l := by simpa using hl
    subst hz
    rw [List.set_append_right _ _ le_rfl, Nat.sub_self, List.set_cons_zero, List.dropLast_concat]
    exact hlast

/-! ## The sweep -/

/-- The free and the live ranges of a sweep. -/
def Sweep.extents (s : Sweep) : List Extent :=
  s.free.map FreeNode.extent ++ s.live.map LiveAlloc.extent

/-- The free and the live ranges are packed below the cursor. -/
structure Sweep.Tiled (s : Sweep) : Prop where
  /-- No byte is in two ranges. -/
  packed : Packed s.extents
  /-- Free ranges end at or below the cursor. -/
  free_le : ∀ n ∈ s.free, EndsBy s.cursor.toNat n.extent
  /-- Live ranges end at or below the cursor. -/
  live_le : ∀ l ∈ s.live, EndsBy s.cursor.toNat l.extent

/-- The sweep's own fields, those the plan reports aside. -/
theorem Sweep.Tiled.of_eq {s s' : Sweep} (h : s.Tiled) (hfree : s'.free = s.free)
    (hlive : s'.live = s.live) (hcursor : s'.cursor = s.cursor) : s'.Tiled := by
  obtain ⟨hpacked, hf, hl⟩ := h
  refine ⟨?_, ?_, ?_⟩
  · rwa [Sweep.extents, hfree, hlive]
  · rwa [hfree, hcursor]
  · rwa [hlive, hcursor]

/-- Releasing a live allocation moves its range to the free list. -/
theorem Sweep.Tiled.release {s : Sweep} (h : s.Tiled) {j : ℕ} {l : LiveAlloc}
    (hget : s.live[j]? = some l) :
    ({ s with
      free := (freeListInsert s.free s.poolUsed l.off l.size).1
      poolUsed := (freeListInsert s.free s.poolUsed l.off l.size).2
      live := swapRemove s.live j } : Sweep).Tiled := by
  have hperm := perm_cons_swapRemove hget
  have hmem : l ∈ s.live := List.mem_of_getElem? hget
  have hcursor : s.cursor.toNat < 2 ^ 64 := s.cursor.toNat_lt
  have hl := h.live_le l hmem
  refine ⟨?_, freeListInsert_endsBy s.poolUsed hcursor h.free_le hl, fun l' hl' => ?_⟩
  · refine freeListInsert_packed s.poolUsed hcursor h.free_le hl ?_
    refine h.packed.perm ?_
    rw [Sweep.extents]
    refine ((hperm.map LiveAlloc.extent).append_left _).trans ?_
    rw [List.map_cons]
    exact List.perm_middle
  · exact h.live_le l' (hperm.mem_iff.mpr (List.mem_cons_of_mem _ hl'))

/-- What a release loop leaves alone, and what it may release. -/
structure Released (start : UInt64) (s s' : Sweep) : Prop where
  /-- The ranges stay packed. -/
  tiled : s'.Tiled
  /-- The cursor does not move. -/
  cursor_eq : s'.cursor = s.cursor
  /-- The offsets stay. -/
  offsets_eq : s'.offsets = s.offsets
  /-- Only allocations whose lifetime has ended leave the live list. -/
  live_or : ∀ l ∈ s.live, l ∈ s'.live ∨ l.stop ≤ start

/-- The release loop releases only what has expired. -/
theorem releaseFrom_spec (start : UInt64) (fuel j : ℕ) {s : Sweep} (h : s.Tiled) :
    Released start s (releaseFrom start fuel j s) := by
  induction fuel generalizing j s with
  | zero => exact ⟨h, rfl, rfl, fun l hl => Or.inl hl⟩
  | succ fuel ih =>
    unfold releaseFrom
    cases hget : s.live[j]? with
    | none => exact ⟨h, rfl, rfl, fun l hl => Or.inl hl⟩
    | some l =>
      simp only
      split_ifs with hend
      · obtain ⟨htiled, hcursor, hoffsets, hlive⟩ := ih j (h.release hget)
        refine ⟨htiled, hcursor, hoffsets, fun l' hl' => ?_⟩
        obtain rfl | hmem := List.mem_cons.mp ((perm_cons_swapRemove hget).mem_iff.mp hl')
        · exact Or.inr hend
        · exact hlive l' hmem
      · exact ih (j + 1) h

/-- Where a request was placed: an aligned range below the new cursor, apart from every other. -/
structure Placed (s : Sweep) (a : MemAlloc) (s' : Sweep) (off : UInt64) : Prop where
  /-- The new range is apart from the free and the live ones. -/
  packed : Packed (a.extentAt off :: s'.extents)
  /-- Free ranges end at or below the cursor. -/
  free_le : ∀ n ∈ s'.free, EndsBy s'.cursor.toNat n.extent
  /-- The cursor only moves forward. -/
  cursor_le : s.cursor.toNat ≤ s'.cursor.toNat
  /-- The new range ends at or below the cursor. -/
  end_le : EndsBy s'.cursor.toNat (a.extentAt off)
  /-- The new range is aligned. -/
  dvd : a.align.toNat ∣ off.toNat
  /-- The live list stays. -/
  live_eq : s'.live = s.live
  /-- The offsets stay. -/
  offsets_eq : s'.offsets = s.offsets

/-- Every covered byte is below the cursor. -/
theorem Sweep.Tiled.lt_cursor {s : Sweep} (h : s.Tiled) {p : ℕ} (hp : Covers s.extents p) :
    p < s.cursor.toNat := by
  obtain ⟨e, he, hle, hlt⟩ := hp
  obtain he | he := List.mem_append.mp he
  · obtain ⟨n, hn, rfl⟩ := List.mem_map.mp he
    exact hlt.trans_le (h.free_le n hn)
  · obtain ⟨l, hl, rfl⟩ := List.mem_map.mp he
    exact hlt.trans_le (h.live_le l hl)

/-- An extension within the range of `pai_mem_align_up` places the request past the cursor. -/
theorem placeTail_spec {s s' : Sweep} {a : MemAlloc} {off : UInt64} (h : s.Tiled)
    (hvalid : a.Valid) (hrange : AlignInRange s.cursor a.align)
    (hplace : placeTail s a = some (s', off)) :
    Placed s a s' off ∧ s.cursor.toNat ≤ off.toNat := by
  obtain ⟨hdvd, hge, -⟩ := paiMemAlignUp_of_inRange hvalid.pow2 hrange
  unfold placeTail at hplace
  simp only at hplace
  split_ifs at hplace with hover
  obtain ⟨rfl, rfl⟩ := Prod.mk.inj (Option.some.inj hplace)
  have hsize := a.size.toNat_lt
  have hroom := UInt64.le_iff_toNat_le.mp (UInt64.not_lt.mp hover)
  have hmax : uint64Max.toNat = 2 ^ 64 - 1 := rfl
  rw [toNat_sub_of_ge (by rw [hmax]; omega), hmax] at hroom
  have hend : (paiMemAlignUp s.cursor a.align + a.size).toNat =
      (paiMemAlignUp s.cursor a.align).toNat + a.size.toNat := toNat_add_of_lt (by omega)
  have hcursor : s.cursor.toNat ≤ (paiMemAlignUp s.cursor a.align + a.size).toNat := by omega
  refine ⟨⟨?_, fun n hn => (h.free_le n hn).trans hcursor, hcursor, ?_, hdvd, rfl, rfl⟩, hge⟩
  · exact h.packed.cons_of_lt (fun p => h.lt_cursor) hge
  · exact hend.ge

/-- Giving back a part of a node, if there is one. -/
theorem giveBack_spec {free : List FreeNode} (poolUsed : ℕ) {off size : UInt64}
    {others : List Extent} {bound : ℕ} (hbound : bound < 2 ^ 64)
    (hfree : ∀ n ∈ free, EndsBy bound n.extent) (hx : off.toNat + size.toNat ≤ bound)
    (hpacked : Packed (⟨off.toNat, size.toNat⟩ :: (free.map FreeNode.extent ++ others))) :
    let r := if 0 < size then freeListInsert free poolUsed off size else (free, poolUsed)
    Packed (r.1.map FreeNode.extent ++ others) ∧ ∀ n ∈ r.1, EndsBy bound n.extent := by
  intro r
  by_cases hpos : 0 < size
  · have hr : r = freeListInsert free poolUsed off size := if_pos hpos
    rw [hr]
    exact ⟨freeListInsert_packed poolUsed hbound hfree hx hpacked,
      freeListInsert_endsBy poolUsed hbound hfree hx⟩
  · have hr : r = (free, poolUsed) := if_neg hpos
    rw [hr]
    exact ⟨(packed_cons.mp hpacked).2, hfree⟩

/-- Placement in a free node. -/
theorem placeInside_spec {s : Sweep} {a : MemAlloc} {best : FreeNode} {i : ℕ} (h : s.Tiled)
    (hvalid : a.Valid) (hbest : bestFit s.free a = some (best, i)) :
    Placed s a (placeInside s a best i).1 (placeInside s a best i).2 := by
  obtain ⟨hget, hfits⟩ := bestFit_spec hbest
  have hcursor : s.cursor.toNat < 2 ^ 64 := s.cursor.toNat_lt
  have hnode := h.free_le best (List.mem_of_getElem? hget)
  have hnode' : best.off.toNat + best.size.toNat ≤ s.cursor.toNat := hnode
  obtain ⟨hrange, hroom⟩ := fits_spec hvalid hcursor hnode hfits
  obtain ⟨hdvd, hge, -⟩ := paiMemAlignUp_of_inRange hvalid.pow2 hrange
  set aligned := paiMemAlignUp best.off a.align with haligned
  set leftPad := aligned - best.off with hleftPad
  set right := best.size - leftPad - a.size with hright
  have hleft : leftPad.toNat = aligned.toNat - best.off.toNat := toNat_sub_of_ge hge
  have hrightNat : right.toNat = best.size.toNat - leftPad.toNat - a.size.toNat := by
    have hfirst : (best.size - leftPad).toNat = best.size.toNat - leftPad.toNat :=
      toNat_sub_of_ge (by omega)
    rw [hright, toNat_sub_of_ge (by omega), hfirst]
  have hafter : (aligned + a.size).toNat = aligned.toNat + a.size.toNat :=
    toNat_add_of_lt (by omega)
  have hperm := perm_cons_eraseIdx hget
  have hfree : ∀ n ∈ s.free.eraseIdx i, EndsBy s.cursor.toNat n.extent :=
    fun n hn => h.free_le n (hperm.mem_iff.mpr (List.mem_cons_of_mem _ hn))
  -- the node is the left part, the request and the right part
  have hnodeEq : best.extent = ⟨best.off.toNat, leftPad.toNat + a.size.toNat + right.toNat⟩ := by
    rw [FreeNode.extent, Extent.mk.injEq]
    exact ⟨rfl, by omega⟩
  have hsplit : Packed (⟨best.off.toNat, leftPad.toNat⟩ ::
      ((s.free.eraseIdx i).map FreeNode.extent ++ (⟨(aligned + a.size).toNat, right.toNat⟩ ::
        a.extentAt aligned :: s.live.map LiveAlloc.extent))) := by
    have hbestFirst : Packed (best.extent :: ((s.free.eraseIdx i).map FreeNode.extent ++
        s.live.map LiveAlloc.extent)) :=
      h.packed.perm ((hperm.map FreeNode.extent).append_right _)
    rw [hnodeEq] at hbestFirst
    have hparts := hbestFirst.split
    have hmid : best.off.toNat + leftPad.toNat = aligned.toNat := by omega
    rw [hmid, ← hafter] at hparts
    refine hparts.perm (List.Perm.cons _ ?_)
    exact ((List.perm_middle.trans (List.Perm.cons _ List.perm_middle)).symm)
  obtain ⟨hpacked₁, hfree₁⟩ := giveBack_spec s.poolUsed hcursor hfree (by omega) hsplit
  set r₁ := if 0 < leftPad then freeListInsert (s.free.eraseIdx i) s.poolUsed best.off leftPad
    else (s.free.eraseIdx i, s.poolUsed) with hr₁
  obtain ⟨hpacked₂, hfree₂⟩ := giveBack_spec r₁.2 hcursor hfree₁
    (by rw [hafter]; omega) (hpacked₁.perm List.perm_middle)
  refine ⟨hpacked₂.perm List.perm_middle, hfree₂, le_rfl, ?_, hdvd, rfl, rfl⟩
  change aligned.toNat + a.size.toNat ≤ s.cursor.toNat
  omega

/-! ## What a plan is for -/

/-- The lifetimes of two requests have a step in common. -/
def MemAlloc.Overlap (a b : MemAlloc) : Prop :=
  a.start.toNat < b.stop.toNat ∧ b.start.toNat < a.stop.toNat

instance (a b : MemAlloc) : Decidable (a.Overlap b) := inferInstanceAs (Decidable (_ ∧ _))

/-- Two requests that may not share a byte. -/
def MemAlloc.Exclusive (a b : MemAlloc) : Prop := a.Overlap b ∨ a.pinned = true ∨ b.pinned = true

/-- The bytes a sweep gave to a request. -/
def SortEntry.extentIn (e : SortEntry) (offsets : ℕ → UInt64) : Extent :=
  e.alloc.extentAt (offsets e.addIdx)

/-- The next iteration extends the region. -/
def takesTail (s : Sweep) (e : SortEntry) : Bool :=
  e.alloc.pinned || (bestFit (releaseExpired (s.tally e.alloc) e.alloc.start).free e.alloc).isNone

/-- Every extension of the region calls `pai_mem_align_up` within its documented range. -/
def SweepInRange : Sweep → List SortEntry → Prop
  | _, [] => True
  | s, e :: rest =>
    (takesTail s e = true → AlignInRange s.cursor e.alloc.align) ∧
      match sweepStep s e with
      | none => True
      | some s' => SweepInRange s' rest

instance decidableSweepInRange : (s : Sweep) → (l : List SortEntry) → Decidable (SweepInRange s l)
  | _, [] => inferInstanceAs (Decidable True)
  | s, e :: rest =>
    have : Decidable (match sweepStep s e with
        | none => True
        | some s' => SweepInRange s' rest) :=
      match sweepStep s e with
      | none => inferInstanceAs (Decidable True)
      | some s' => decidableSweepInRange s' rest
    inferInstanceAs (Decidable (_ ∧ _))

/-- The invariant of the sweep between two iterations. -/
structure SweepInv (s : Sweep) (done rest : List SortEntry) : Prop where
  /-- Free and live ranges are packed below the cursor. -/
  tiled : s.Tiled
  /-- Placed requests are aligned and end at or below the cursor. -/
  placed : ∀ e ∈ done, e.alloc.align.toNat ∣ (s.offsets e.addIdx).toNat ∧
    EndsBy s.cursor.toNat (e.extentIn s.offsets)
  /-- A placed request is live, or its lifetime has ended for every unpinned request to come. -/
  live_or : ∀ e ∈ done,
    (∃ l ∈ s.live, l.extent = e.extentIn s.offsets ∧ l.stop = e.alloc.stop) ∨
      ∀ f ∈ rest, f.alloc.pinned = false → e.alloc.stop.toNat ≤ f.alloc.start.toNat
  /-- Placed requests that may not share a byte do not. -/
  apart : done.Pairwise fun e f => e.alloc.Exclusive f.alloc →
    (e.extentIn s.offsets).Apart (f.extentIn s.offsets)

/-- What the order of the sweep says. -/
theorem allocCmp_le {a b : SortEntry} (h : allocCmp a b ≤ 0) :
    (a.alloc.pinned = true → b.alloc.pinned = true) ∧
      (a.alloc.pinned = b.alloc.pinned → a.alloc.start.toNat ≤ b.alloc.start.toNat) := by
  unfold allocCmp at h
  split_ifs at h with hpin hlt hstart hslt hstop hs
  · refine ⟨fun ha => ?_, fun heq => absurd heq hpin⟩
    cases hb : b.alloc.pinned with
    | true => rfl
    | false =>
      rw [ha, hb] at hlt
      exact absurd hlt (by decide)
  · omega
  · have heq : a.alloc.pinned = b.alloc.pinned := not_not.mp hpin
    exact ⟨fun ha => heq ▸ ha, fun _ => (UInt64.lt_iff_toNat_lt.mp hslt).le⟩
  · omega
  all_goals
    have heq : a.alloc.pinned = b.alloc.pinned := not_not.mp hpin
    exact ⟨fun ha => heq ▸ ha, fun _ => (congrArg UInt64.toNat (not_not.mp hstart)).le⟩

/-- Recording a placed request keeps the invariant. -/
theorem SweepInv.record {s₀ s s' : Sweep} {done rest : List SortEntry} {e : SortEntry}
    {off : UInt64} (hplaced : Placed s e.alloc s' off)
    (hnew : ∀ d ∈ done, d.addIdx ≠ e.addIdx)
    (hcursor : s₀.cursor = s.cursor) (hoffsets : s₀.offsets = s.offsets)
    (hlive_le : ∀ l ∈ s.live, EndsBy s.cursor.toNat l.extent)
    (hdone : ∀ d ∈ done, d.alloc.align.toNat ∣ (s₀.offsets d.addIdx).toNat ∧
      EndsBy s₀.cursor.toNat (d.extentIn s₀.offsets))
    (hlive : ∀ d ∈ done,
      (∃ l ∈ s.live, l.extent = d.extentIn s₀.offsets ∧ l.stop = d.alloc.stop) ∨
        ∀ f ∈ rest, f.alloc.pinned = false → d.alloc.stop.toNat ≤ f.alloc.start.toNat)
    (hapart : done.Pairwise fun d f => d.alloc.Exclusive f.alloc →
      (d.extentIn s₀.offsets).Apart (f.extentIn s₀.offsets))
    (hcross : ∀ d ∈ done, d.alloc.Exclusive e.alloc →
      (d.extentIn s₀.offsets).Apart (e.alloc.extentAt off)) :
    SweepInv (s'.record e off) (done ++ [e]) rest := by
  have hoff' : s'.offsets = s₀.offsets := hplaced.offsets_eq.trans hoffsets.symm
  have hsame : ∀ d ∈ done, (s'.record e off).offsets d.addIdx = s₀.offsets d.addIdx := by
    intro d hd
    rw [← hoff']
    exact Function.update_of_ne (hnew d hd) off s'.offsets
  have hsameExt : ∀ d ∈ done, d.extentIn (s'.record e off).offsets = d.extentIn s₀.offsets := by
    intro d hd
    rw [SortEntry.extentIn, hsame d hd, SortEntry.extentIn]
  have hself : (s'.record e off).offsets e.addIdx = off := by simp [Sweep.record]
  have hselfExt : e.extentIn (s'.record e off).offsets = e.alloc.extentAt off := by
    rw [SortEntry.extentIn, hself]
  have hmono : s₀.cursor.toNat ≤ s'.cursor.toNat := hcursor ▸ hplaced.cursor_le
  constructor
  · refine ⟨?_, hplaced.free_le, fun l hl => ?_⟩
    · refine hplaced.packed.perm ?_
      simp only [Sweep.extents, Sweep.record, List.map_append, List.map_cons, List.map_nil,
        ← List.append_assoc]
      exact (List.perm_append_singleton _ _).symm
    · obtain hl | hl := List.mem_append.mp hl
      · exact (hlive_le l (hplaced.live_eq ▸ hl)).trans hplaced.cursor_le
      · obtain rfl := List.mem_singleton.mp hl
        exact hplaced.end_le
  · intro d hd
    obtain hd | hd := List.mem_append.mp hd
    · rw [hsame d hd, hsameExt d hd]
      exact ⟨(hdone d hd).1, (hdone d hd).2.trans hmono⟩
    · obtain rfl := List.mem_singleton.mp hd
      rw [hself, hselfExt]
      exact ⟨hplaced.dvd, hplaced.end_le⟩
  · intro d hd
    obtain hd | hd := List.mem_append.mp hd
    · rw [hsameExt d hd]
      refine (hlive d hd).imp_left fun ⟨l, hl, hrest⟩ => ⟨l, ?_, hrest⟩
      exact List.mem_append_left _ (hplaced.live_eq ▸ hl)
    · obtain rfl := List.mem_singleton.mp hd
      rw [hselfExt]
      exact Or.inl ⟨_, List.mem_append_right _ (List.mem_singleton_self _), rfl, rfl⟩
  · refine List.pairwise_append.mpr ⟨?_, List.pairwise_singleton _ _, fun d hd f hf => ?_⟩
    · refine hapart.imp_of_mem fun {d f} hd hf h => ?_
      rw [hsameExt d hd, hsameExt f hf]
      exact h
    · obtain rfl := List.mem_singleton.mp hf
      rw [hsameExt d hd, hselfExt]
      exact hcross d hd

/-- Tracking the peak leaves the invariant alone. -/
theorem SweepInv.trackPeak {s : Sweep} {done rest : List SortEntry} (h : SweepInv s done rest) :
    SweepInv s.trackPeak done rest :=
  ⟨⟨h.tiled.packed, h.tiled.free_le, h.tiled.live_le⟩, h.placed, h.live_or, h.apart⟩

/-- One iteration of the sweep keeps the invariant, as long as an extension is within range. -/
theorem SweepInv.step {s s' : Sweep} {done rest : List SortEntry} {e : SortEntry}
    (h : SweepInv s done (e :: rest)) (hvalid : e.alloc.Valid)
    (hsorted : (done ++ e :: rest).Pairwise fun a b => allocCmp a b ≤ 0)
    (hnodup : ((done ++ e :: rest).map SortEntry.addIdx).Nodup)
    (hrange : takesTail s e = true → AlignInRange s.cursor e.alloc.align)
    (hstep : sweepStep s e = some s') : SweepInv s' (done ++ [e]) rest := by
  have hnew : ∀ d ∈ done, d.addIdx ≠ e.addIdx := by
    intro d hd heq
    rw [List.map_append, List.map_cons] at hnodup
    exact (List.nodup_append.mp hnodup).2.2 _ (List.mem_map_of_mem hd) _ List.mem_cons_self heq
  have hbefore : ∀ d ∈ done, allocCmp d e ≤ 0 := fun d hd =>
    (List.pairwise_append.mp hsorted).2.2 d hd e List.mem_cons_self
  have hafter : ∀ f ∈ rest, allocCmp e f ≤ 0 := fun f hf =>
    (List.pairwise_cons.mp (List.pairwise_append.mp hsorted).2.1).1 f hf
  have htally : (s.tally e.alloc).Tiled := h.tiled.of_eq rfl rfl rfl
  have hexpired : ∀ d ∈ done, ∀ f ∈ rest, (∀ f ∈ e :: rest, f.alloc.pinned = false →
      d.alloc.stop.toNat ≤ f.alloc.start.toNat) → f.alloc.pinned = false →
      d.alloc.stop.toNat ≤ f.alloc.start.toNat :=
    fun d _ f hf hall => hall f (List.mem_cons_of_mem _ hf)
  -- an extension lies past every placed range
  have htail {off : UInt64} (hge : s.cursor.toNat ≤ off.toNat) : ∀ d ∈ done,
      d.alloc.Exclusive e.alloc → (d.extentIn s.offsets).Apart (e.alloc.extentAt off) :=
    fun d hd _ => apart_of_le ((h.placed d hd).2.trans hge)
  unfold sweepStep at hstep
  simp only at hstep
  by_cases hpin : e.alloc.pinned = true
  · rw [if_pos hpin] at hstep
    obtain ⟨⟨s₁, off⟩, hplace, rfl⟩ := Option.map_eq_some_iff.mp hstep
    have hcounted : ({ s.tally e.alloc with
        pinnedAllocs := (s.tally e.alloc).pinnedAllocs + 1
        pinnedBytes := (s.tally e.alloc).pinnedBytes + e.alloc.size } : Sweep).Tiled :=
      htally.of_eq rfl rfl rfl
    obtain ⟨hplaced, hge⟩ := placeTail_spec hcounted hvalid
      (hrange (by simp [takesTail, hpin])) hplace
    refine SweepInv.record hplaced hnew rfl rfl h.tiled.live_le h.placed ?_ h.apart (htail hge)
    intro d hd
    exact (h.live_or d hd).imp_right fun hall f hf => hexpired d hd f hf hall
  · rw [if_neg hpin] at hstep
    have hreleased : Released e.alloc.start (s.tally e.alloc)
        (releaseExpired (s.tally e.alloc) e.alloc.start) :=
      releaseFrom_spec _ _ _ htally
    set s₁ := releaseExpired (s.tally e.alloc) e.alloc.start with hs₁
    have hunpinned : e.alloc.pinned = false := by simpa using hpin
    have hcursor : s.cursor = s₁.cursor := hreleased.cursor_eq.symm
    have hoffsets : s.offsets = s₁.offsets := hreleased.offsets_eq.symm
    -- what is not live any more has ended before the request starts
    have hlive : ∀ d ∈ done,
        (∃ l ∈ s₁.live, l.extent = d.extentIn s.offsets ∧ l.stop = d.alloc.stop) ∨
          ∀ f ∈ e :: rest, f.alloc.pinned = false →
            d.alloc.stop.toNat ≤ f.alloc.start.toNat := by
      intro d hd
      obtain ⟨l, hl, hext, hstop⟩ | hall := h.live_or d hd
      · obtain hl' | hend := hreleased.live_or l hl
        · exact Or.inl ⟨l, hl', hext, hstop⟩
        · right
          have hend' : d.alloc.stop.toNat ≤ e.alloc.start.toNat :=
            hstop ▸ UInt64.le_iff_toNat_le.mp hend
          intro f hf hfpin
          obtain rfl | hf := List.mem_cons.mp hf
          · exact hend'
          · exact hend'.trans ((allocCmp_le (hafter f hf)).2 (hunpinned.trans hfpin.symm))
      · exact Or.inr hall
    have hliveRest : ∀ d ∈ done,
        (∃ l ∈ s₁.live, l.extent = d.extentIn s.offsets ∧ l.stop = d.alloc.stop) ∨
          ∀ f ∈ rest, f.alloc.pinned = false → d.alloc.stop.toNat ≤ f.alloc.start.toNat :=
      fun d hd => (hlive d hd).imp_right fun hall f hf => hexpired d hd f hf hall
    cases hbest : bestFit s₁.free e.alloc with
    | some r =>
      obtain ⟨best, i⟩ := r
      rw [hbest] at hstep
      obtain rfl := Option.some.inj hstep
      have hplaced := placeInside_spec hreleased.tiled hvalid hbest
      refine (SweepInv.record hplaced hnew hcursor hoffsets hreleased.tiled.live_le h.placed
        hliveRest h.apart fun d hd hexcl => ?_).trackPeak
      obtain ⟨l, hl, hext, -⟩ | hall := hlive d hd
      · rw [← hext]
        refine ((packed_cons.mp hplaced.packed).1 _ ?_).symm
        refine List.mem_append_right _ (List.mem_map_of_mem ?_)
        exact hplaced.live_eq ▸ hl
      · exfalso
        obtain ⟨-, hlt⟩ | hdpin | hepin := hexcl
        · have := hall e List.mem_cons_self hunpinned
          omega
        · exact absurd ((allocCmp_le (hbefore d hd)).1 hdpin) hpin
        · exact hpin hepin
    | none =>
      rw [hbest] at hstep
      obtain ⟨⟨s₂, off⟩, hplace, rfl⟩ := Option.map_eq_some_iff.mp hstep
      have hrange' : AlignInRange s₁.cursor e.alloc.align := by
        rw [← hcursor]
        exact hrange (by simp [takesTail, ← hs₁, hbest])
      obtain ⟨hplaced, hge⟩ := placeTail_spec hreleased.tiled hvalid hrange' hplace
      rw [← hcursor] at hge
      exact (SweepInv.record hplaced hnew hcursor hoffsets hreleased.tiled.live_le h.placed
        hliveRest h.apart (htail hge)).trackPeak

/-- The sweep keeps the invariant, as long as every extension is within range. -/
theorem SweepInv.run {s s' : Sweep} {done rest : List SortEntry} (h : SweepInv s done rest)
    (hvalid : ∀ e ∈ rest, e.alloc.Valid)
    (hsorted : (done ++ rest).Pairwise fun a b => allocCmp a b ≤ 0)
    (hnodup : ((done ++ rest).map SortEntry.addIdx).Nodup) (hrange : SweepInRange s rest)
    (hsweep : sweep s rest = some s') : SweepInv s' (done ++ rest) [] := by
  induction rest generalizing s done with
  | nil =>
    obtain rfl : s = s' := Option.some.inj hsweep
    rwa [List.append_nil]
  | cons e rest ih =>
    obtain ⟨s₁, hstep, hrest⟩ := Option.bind_eq_some_iff.mp hsweep
    have h₁ := h.step (hvalid e List.mem_cons_self) hsorted hnodup hrange.1 hstep
    rw [List.append_cons] at hsorted hnodup ⊢
    have hrange₁ := hrange.2
    rw [hstep] at hrange₁
    exact ih h₁ (fun f hf => hvalid f (List.mem_cons_of_mem _ hf)) hsorted hnodup hrange₁ hrest

/-- The invariant before the sweep. -/
theorem SweepInv.init (sorted : List SortEntry) : SweepInv Sweep.init [] sorted where
  tiled := ⟨List.Pairwise.nil, fun _ h => absurd h List.not_mem_nil,
    fun _ h => absurd h List.not_mem_nil⟩
  placed _ h := absurd h List.not_mem_nil
  live_or _ h := absurd h List.not_mem_nil
  apart := List.Pairwise.nil

/-! ## Plans -/

/-- What a plan promises its requests. -/
structure PlanSound (planner : Planner) (plan : MemPlan) : Prop where
  /-- Every offset is a multiple of the alignment. -/
  aligned : ∀ (i : ℕ) (a : MemAlloc), planner.allocs[i]? = some a →
    a.align.toNat ∣ (plan.offsets i).toNat
  /-- Every range lies in the region. -/
  inside : ∀ (i : ℕ) (a : MemAlloc), planner.allocs[i]? = some a →
    (plan.offsets i).toNat + a.size.toNat ≤ plan.regionBytes.toNat
  /-- Requests that are live together share no byte. -/
  live_apart : ∀ (i j : ℕ) (a b : MemAlloc), i ≠ j → planner.allocs[i]? = some a →
    planner.allocs[j]? = some b → a.Overlap b →
    (a.extentAt (plan.offsets i)).Apart (b.extentAt (plan.offsets j))
  /-- A pinned request shares no byte with any other. -/
  pinned_apart : ∀ (i j : ℕ) (a b : MemAlloc), i ≠ j → planner.allocs[i]? = some a →
    planner.allocs[j]? = some b → a.pinned = true →
    (a.extentAt (plan.offsets i)).Apart (b.extentAt (plan.offsets j))

/-- The final rounding is within the documented range of `pai_mem_align_up`. -/
def ArenaInRange (planner : Planner) (sorted : List SortEntry) : Prop :=
  ∀ s, sweep Sweep.init sorted = some s → AlignInRange s.raw planner.arena

/-- Two requests that may not share a byte, in either order. -/
theorem MemAlloc.Exclusive.symm {a b : MemAlloc} (h : a.Exclusive b) : b.Exclusive a :=
  h.imp And.symm Or.symm

/-- The entry of a request is among those sorted. -/
theorem IsQsorted.mem {planner : Planner} {sorted : List SortEntry} (h : IsQsorted planner sorted)
    {i : ℕ} {a : MemAlloc} (hget : planner.allocs[i]? = some a) : (⟨a, i⟩ : SortEntry) ∈ sorted := by
  refine h.1.mem_iff.mpr (List.mem_map.mpr ⟨(a, i), ?_, rfl⟩)
  exact List.mem_zipIdx_iff_getElem?.mpr (by simpa using hget)

/-- The indices of the sorted entries are distinct, and their requests are those of the planner. -/
theorem IsQsorted.nodup {planner : Planner} {sorted : List SortEntry}
    (h : IsQsorted planner sorted) :
    (sorted.map SortEntry.addIdx).Nodup ∧ ∀ e ∈ sorted, e.alloc ∈ planner.allocs := by
  constructor
  · refine (h.1.map SortEntry.addIdx).nodup_iff.mpr ?_
    have hidx : (sortEntries planner).map SortEntry.addIdx = List.range planner.allocs.length := by
      rw [sortEntries, List.map_map]
      exact (List.zipIdx_map_snd 0 planner.allocs).trans List.range_eq_range'.symm
    rw [hidx]
    exact List.nodup_range
  · intro e he
    obtain ⟨x, hx, rfl⟩ := List.mem_map.mp (h.1.mem_iff.mp he)
    exact List.fst_mem_of_mem_zipIdx hx

/-- A completed sweep whose extensions are all within range: the ranges are aligned, end at or below
the cursor, and keep apart where they must. -/
theorem sweep_sound {planner : Planner} {sorted : List SortEntry} {s : Sweep}
    (hvalid : ∀ a ∈ planner.allocs, a.Valid) (hsorted : IsQsorted planner sorted)
    (hrange : SweepInRange Sweep.init sorted) (hsweep : sweep Sweep.init sorted = some s) :
    (∀ (i : ℕ) (a : MemAlloc), planner.allocs[i]? = some a →
      a.align.toNat ∣ (s.offsets i).toNat ∧
        (s.offsets i).toNat + a.size.toNat ≤ s.cursor.toNat) ∧
      ∀ (i j : ℕ) (a b : MemAlloc), i ≠ j → planner.allocs[i]? = some a →
        planner.allocs[j]? = some b → a.Exclusive b →
        (a.extentAt (s.offsets i)).Apart (b.extentAt (s.offsets j)) := by
  obtain ⟨hnodup, hmem⟩ := hsorted.nodup
  have hinv : SweepInv s sorted [] := (SweepInv.init sorted).run
    (fun e he => hvalid _ (hmem e he)) hsorted.2 hnodup hrange hsweep
  refine ⟨fun i a hget => hinv.placed _ (hsorted.mem hget), fun i j a b hij hi hj hexcl => ?_⟩
  have hsymm : Std.Symm fun e f : SortEntry => e.alloc.Exclusive f.alloc →
      (e.extentIn s.offsets).Apart (f.extentIn s.offsets) :=
    ⟨fun e f h hex => (h hex.symm).symm⟩
  have hne : (⟨a, i⟩ : SortEntry) ≠ ⟨b, j⟩ := fun h => hij (congrArg SortEntry.addIdx h)
  exact hinv.apart.forall (hsorted.mem hi) (hsorted.mem hj) hne hexcl

/-- The cursor is at or below the end of the region before rounding. -/
theorem Sweep.cursor_le_raw (s : Sweep) : s.cursor.toNat ≤ s.raw.toNat := by
  unfold Sweep.raw
  split_ifs with h
  · exact le_rfl
  · exact UInt64.le_iff_toNat_le.mp (UInt64.not_lt.mp h)

/-- For every accepted sequence of requests and every order `qsort` may give to ties: when the plan
is built and every extension of the region is within the range of `pai_mem_align_up`, the plan keeps
its promises exactly when the final rounding is within that range too. -/
theorem paiMemPlanBuild_sound_iff (calls : List PlannerCall) (sorted : List SortEntry)
    (hsorted : IsQsorted (plannerAfter calls) sorted) (hrange : SweepInRange Sweep.init sorted)
    (plan : MemPlan) (hok : paiMemPlanBuild (plannerAfter calls) sorted = .ok plan) :
    PlanSound (plannerAfter calls) plan ↔ ArenaInRange (plannerAfter calls) sorted := by
  obtain ⟨hvalid, harena⟩ := plannerAfter_valid calls
  set planner := plannerAfter calls
  unfold paiMemPlanBuild at hok
  split_ifs at hok with hempty
  · have hget (i : ℕ) (a : MemAlloc) : planner.allocs[i]? ≠ some a := by simp [hempty]
    have hnil : sorted = [] := by
      have hperm := hsorted.1
      rw [sortEntries, hempty] at hperm
      exact hperm.eq_nil
    refine ⟨fun _ s hs => ?_, fun _ => ⟨fun i a h => absurd h (hget i a),
      fun i a h => absurd h (hget i a), fun i j a b _ h => absurd h (hget i a),
      fun i j a b _ h => absurd h (hget i a)⟩⟩
    rw [hnil] at hs
    obtain rfl : Sweep.init = s := Option.some.inj hs
    have := planner.arena.toNat_lt
    change 0 + (planner.arena.toNat - 1) < 2 ^ 64
    omega
  · cases hsweep : sweep Sweep.init sorted with
    | none =>
      rw [hsweep] at hok
      exact absurd hok (by simp)
    | some s =>
      rw [hsweep] at hok
      obtain rfl : finishPlan planner s = plan := Except.ok.inj hok
      obtain ⟨hplaced, hapart⟩ := sweep_sound hvalid hsorted hrange hsweep
      constructor
      · -- a wrapped region is empty, and a request needs a byte
        intro hsound s' hs'
        obtain rfl : s = s' := Option.some.inj (hsweep.symm.trans hs')
        by_contra hout
        obtain ⟨a, l, hl⟩ := List.exists_cons_of_ne_nil hempty
        have hget : planner.allocs[0]? = some a := by rw [hl]; rfl
        have hregion : (finishPlan planner s).regionBytes = 0 :=
          paiMemAlignUp_of_not_inRange harena hout
        have hinside := hsound.inside 0 a hget
        have hpos := (hvalid a (List.mem_of_getElem? hget)).size_pos
        rw [hregion] at hinside
        change _ ≤ 0 at hinside
        omega
      · intro hin
        obtain ⟨-, hge, -⟩ := paiMemAlignUp_of_inRange harena (hin s hsweep)
        refine ⟨fun i a h => (hplaced i a h).1, fun i a h => ?_, fun i j a b hij hi hj hov => ?_,
          fun i j a b hij hi hj hpin => ?_⟩
        · exact (hplaced i a h).2.trans (s.cursor_le_raw.trans hge)
        · exact hapart i j a b hij hi hj (Or.inl hov)
        · exact hapart i j a b hij hi hj (Or.inr (Or.inl hpin))

/-- Two requests of 64 and 32 bytes that are live together. -/
def sampleCalls : List PlannerCall := [.add 64 16 0 2, .add 32 32 1 3]

/-- Two requests that fill the address space up to the last 16 bytes and are live together. -/
def wrappingCalls : List PlannerCall := [.add 0xFFFFFFFFFFFFFFF0 16 0 2, .add 16 32 0 2]

/-- The equivalence at two requests that fit. -/
theorem paiMemPlanBuild_sound_iff_sample :
    ∃ plan, paiMemPlanBuild (plannerAfter sampleCalls) (sortEntries (plannerAfter sampleCalls)) =
        .ok plan ∧ (PlanSound (plannerAfter sampleCalls) plan ↔
          ArenaInRange (plannerAfter sampleCalls) (sortEntries (plannerAfter sampleCalls))) := by
  refine ⟨_, rfl, paiMemPlanBuild_sound_iff sampleCalls _ ⟨List.Perm.refl _, ?_⟩ ?_ _ rfl⟩
  · decide +kernel
  · decide +kernel

/-- The second request is placed on top of the first. -/
theorem paiMemPlanBuild_wraps :
    ∃ sorted plan, IsQsorted (plannerAfter wrappingCalls) sorted ∧
      paiMemPlanBuild (plannerAfter wrappingCalls) sorted = .ok plan ∧
      ¬ PlanSound (plannerAfter wrappingCalls) plan := by
  refine ⟨sortEntries (plannerAfter wrappingCalls), _, ⟨List.Perm.refl _, by decide +kernel⟩, rfl,
    fun hsound => ?_⟩
  refine hsound.live_apart 0 1 _ _ (by decide) rfl rfl (by decide +kernel) 0 ?_ ?_
  · decide +kernel
  · decide +kernel

end Prospero
