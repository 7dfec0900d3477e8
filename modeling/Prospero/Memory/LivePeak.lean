import Prospero.Lib.Spans
import Prospero.Memory.PlannerSound

/-!
# The peak of a memory plan

The sweep of `pai_mem_plan_build` adds up its live list after every placement and keeps the largest sum.
For requests that may all share space this is the largest number of bytes alive at any step, whatever
order `qsort` gave to ties.

### Outline

* `releaseExpired_live` : a release keeps exactly the allocations whose lifetime goes on.
* `PeakInv` : the live list stands for the lifetimes that go on, and the counter is the peak of the
  requests placed so far; `PeakInv.run` carries it through the sweep.
* `sweep_peakLive_le` : the peak fits in the region unless an extension wrapped on the way.
-/

namespace Prospero

open Extent

/-! ## Lifetimes -/

/-- The lifetime of a request, which weighs its size. -/
def MemAlloc.span (a : MemAlloc) : Span := ⟨a.start.toNat, a.stop.toNat, a.size.toNat⟩

/-- The lifetime of a sorted request. -/
def SortEntry.span (e : SortEntry) : Span := e.alloc.span

/-- What is left of the lifetime of a live allocation. -/
def LiveAlloc.span (l : LiveAlloc) : Span := ⟨0, l.stop.toNat, l.size.toNat⟩

/-- A wrapping sum that fits is the sum of the numbers. -/
lemma toNat_foldl_add {α : Type} (f : α → UInt64) (l : List α) (acc : UInt64)
    (h : acc.toNat + (l.map fun x => (f x).toNat).sum < 2 ^ 64) :
    (l.foldl (fun acc x => acc + f x) acc).toNat =
      acc.toNat + (l.map fun x => (f x).toNat).sum := by
  induction l generalizing acc with
  | nil => simp
  | cons x l ih =>
    rw [List.map_cons, List.sum_cons] at h ⊢
    have hx : (acc + f x).toNat = acc.toNat + (f x).toNat := toNat_add_of_lt (by omega)
    rw [List.foldl_cons, ih _ (by rw [hx]; omega), hx, Nat.add_assoc]

/-! ## Releases -/

/-- Swap removal leaves the entries before the removed one alone. -/
lemma getElem?_swapRemove {live : List LiveAlloc} {i j : ℕ} {l : LiveAlloc} (hij : i < j)
    (h : (swapRemove live j)[i]? = some l) : live[i]? = some l := by
  unfold swapRemove at h
  split at h
  · rw [List.getElem?_dropLast] at h
    split_ifs at h
    rwa [List.getElem?_set_ne hij.ne'] at h
  · exact h

/-- When the index has passed the list, every entry was kept. -/
lemma filter_eq_self_of_kept {start : UInt64} {live : List LiveAlloc} {j : ℕ}
    (hlen : live.length ≤ j) (hkept : ∀ i < j, ∀ l, live[i]? = some l → start < l.stop) :
    (live.filter fun l => start < l.stop) = live := by
  refine List.filter_eq_self.mpr fun l hl => ?_
  obtain ⟨i, hi⟩ := List.mem_iff_getElem?.mp hl
  have hlt := (List.getElem?_eq_some_iff.mp hi).1
  exact decide_eq_true (hkept i (by omega) l hi)

/-- The release loop keeps exactly the allocations whose lifetime goes on. -/
lemma releaseFrom_live (start : UInt64) (fuel j : ℕ) (s : Sweep) (hfuel : s.live.length ≤ j + fuel)
    (hkept : ∀ i < j, ∀ l, s.live[i]? = some l → start < l.stop) :
    (releaseFrom start fuel j s).live.Perm (s.live.filter fun l => start < l.stop) := by
  induction fuel generalizing j s with
  | zero => exact (filter_eq_self_of_kept hfuel hkept).symm ▸ List.Perm.refl _
  | succ fuel ih =>
    unfold releaseFrom
    cases hget : s.live[j]? with
    | none =>
      have hlen := List.getElem?_eq_none_iff.mp hget
      exact (filter_eq_self_of_kept hlen hkept).symm ▸ List.Perm.refl _
    | some l =>
      have hj := (List.getElem?_eq_some_iff.mp hget).1
      simp only
      split_ifs with hend
      · have hperm := perm_cons_swapRemove hget
        have hlen := hperm.length_eq
        rw [List.length_cons] at hlen
        refine (ih j _ (by change (swapRemove s.live j).length ≤ _; omega) ?_).trans ?_
        · exact fun i hi l' hl' => hkept i hi l' (getElem?_swapRemove hi hl')
        · -- the removed entry does not pass the filter
          have hfilter := hperm.filter fun l => start < l.stop
          rw [List.filter_cons_of_neg (by simpa using hend)] at hfilter
          exact hfilter.symm
      · refine ih (j + 1) s (by omega) fun i hi l' hl' => ?_
        by_cases hij : i = j
        · subst hij
          obtain rfl : l = l' := Option.some.inj (hget.symm.trans hl')
          exact UInt64.not_le.mp hend
        · exact hkept i (by omega) l' hl'

/-- The release loop leaves the ends and the peak alone. -/
lemma releaseFrom_frame (start : UInt64) (fuel j : ℕ) (s : Sweep) :
    let r := releaseFrom start fuel j s
    r.cursor = s.cursor ∧ r.maxEnd = s.maxEnd ∧ r.peakLive = s.peakLive := by
  induction fuel generalizing j s with
  | zero => exact ⟨rfl, rfl, rfl⟩
  | succ fuel ih =>
    unfold releaseFrom
    cases hget : s.live[j]? with
    | none => exact ⟨rfl, rfl, rfl⟩
    | some l =>
      simp only
      split_ifs
      · exact ih j _
      · exact ih (j + 1) s

/-- Releasing what has expired keeps the allocations whose lifetime goes on. -/
lemma releaseExpired_live (s : Sweep) (start : UInt64) :
    (releaseExpired s start).live.Perm (s.live.filter fun l => start < l.stop) :=
  releaseFrom_live start s.live.length 0 s (Nat.zero_add _).ge fun i hi => absurd hi (by omega)

/-! ## One placement -/

/-- What an iteration does for a request that may share space: release, place, record, track. -/
lemma sweepStep_unpinned {s s' : Sweep} {e : SortEntry} (hpin : e.alloc.pinned = false)
    (h : sweepStep s e = some s') :
    ∃ (s₂ : Sweep) (off : UInt64), s' = (s₂.record e off).trackPeak ∧
      s₂.live = (releaseExpired (s.tally e.alloc) e.alloc.start).live ∧
      s₂.maxEnd = s.maxEnd ∧ s₂.peakLive = s.peakLive ∧
      (s₂.cursor = s.cursor ∨ s₂.cursor = off + e.alloc.size) := by
  obtain ⟨hcursor, hmax, hpeak⟩ := releaseFrom_frame e.alloc.start
    (s.tally e.alloc).live.length 0 (s.tally e.alloc)
  unfold sweepStep at h
  simp only [hpin, Bool.false_eq_true, if_false] at h
  split at h
  · next best i hbest =>
    obtain rfl := Option.some.inj h
    exact ⟨_, _, rfl, rfl, hmax, hpeak, Or.inl hcursor⟩
  · obtain ⟨⟨s₂, off⟩, hplace, rfl⟩ := Option.map_eq_some_iff.mp h
    unfold placeTail at hplace
    simp only at hplace
    split_ifs at hplace
    obtain ⟨rfl, rfl⟩ := Prod.mk.inj (Option.some.inj hplace)
    exact ⟨_, _, rfl, rfl, hmax, hpeak, Or.inr rfl⟩

/-- The cursor never passes the largest end, and the largest end only grows. -/
lemma sweepStep_maxEnd {s s' : Sweep} {e : SortEntry} (hpin : e.alloc.pinned = false)
    (h : sweepStep s e = some s') (hle : s.cursor ≤ s.maxEnd) :
    s'.cursor ≤ s'.maxEnd ∧ s.maxEnd ≤ s'.maxEnd := by
  obtain ⟨s₂, off, rfl, -, hmax, -, hcursor⟩ := sweepStep_unpinned hpin h
  simp only [Sweep.trackPeak, Sweep.record, hmax]
  simp only [UInt64.le_iff_toNat_le, UInt64.lt_iff_toNat_lt] at hle ⊢
  obtain hcursor | hcursor := hcursor
  · rw [hcursor]
    split_ifs <;> omega
  · rw [hcursor]
    split_ifs <;> omega

/-! ## The peak along the sweep -/

/-- What the live list and the peak stand for once `done` has been placed. -/
structure PeakInv (s : Sweep) (done : List SortEntry) : Prop where
  /-- From the last start on, the live list weighs what the placed requests do. -/
  live : ∀ t, (∀ e ∈ done, e.alloc.start.toNat ≤ t) →
    Span.load (s.live.map LiveAlloc.span) t = Span.load (done.map SortEntry.span) t
  /-- The counter is the peak of the placed requests. -/
  peak : Span.IsPeak (done.map SortEntry.span) s.peakLive.toNat

lemma PeakInv.init : PeakInv Sweep.init [] := ⟨fun _ _ => rfl, Span.IsPeak.nil⟩

/-- The load of a live list is what has not ended. -/
lemma load_live (live : List LiveAlloc) (t : ℕ) :
    Span.load (live.map LiveAlloc.span) t =
      Span.weightWhere (live.map LiveAlloc.span) fun x => t < x.stop := by
  refine Span.load_of_started fun x hx => ?_
  obtain ⟨l, -, rfl⟩ := List.mem_map.mp hx
  exact Nat.zero_le t

/-- After a release at `start` the live list has the same load from there on, and nothing else. -/
lemma load_released {s : Sweep} {start : UInt64} {t : ℕ} (ht : start.toNat ≤ t) :
    Span.load ((releaseExpired s start).live.map LiveAlloc.span) t =
        Span.load (s.live.map LiveAlloc.span) t ∧
      Span.total ((releaseExpired s start).live.map LiveAlloc.span) =
        Span.load (s.live.map LiveAlloc.span) start.toNat := by
  have hperm := (releaseExpired_live s start).map LiveAlloc.span
  have hmap : (s.live.filter fun l => start < l.stop).map LiveAlloc.span =
      (s.live.map LiveAlloc.span).filter fun x => start.toNat < x.stop := by
    rw [List.filter_map]
    refine congrArg (List.map LiveAlloc.span) (List.filter_congr fun l _ => ?_)
    exact decide_eq_decide.mpr UInt64.lt_iff_toNat_lt
  rw [hmap] at hperm
  constructor
  · rw [Span.load_perm hperm, load_live, Span.load, Span.weightWhere, Span.weightWhere,
      List.filter_filter]
    refine congrArg (fun l => (List.map Span.weight l).sum) (List.filter_congr fun x hx => ?_)
    obtain ⟨l, -, rfl⟩ := List.mem_map.mp hx
    rw [Bool.eq_iff_iff]
    simp only [Bool.and_eq_true, decide_eq_true_eq]
    change (0 ≤ t ∧ t < l.stop.toNat) ∧ start.toNat < l.stop.toNat ↔ t < l.stop.toNat
    omega
  · rw [load_live, Span.total, (hperm.map Span.weight).sum_eq]
    rfl

/-- Tracking takes the larger of the counter and the bytes of the live list. -/
lemma trackPeak_peakLive {s : Sweep} (h : Span.total (s.live.map LiveAlloc.span) < 2 ^ 64) :
    s.trackPeak.peakLive.toNat = max s.peakLive.toNat (Span.total (s.live.map LiveAlloc.span)) := by
  have htotal : Span.total (s.live.map LiveAlloc.span) = (s.live.map fun l => l.size.toNat).sum := by
    rw [Span.total, List.map_map]
    rfl
  have hsum := toNat_foldl_add LiveAlloc.size s.live 0
  rw [UInt64.toNat_zero, Nat.zero_add] at hsum
  rw [htotal] at h ⊢
  have hsum := hsum h
  unfold Sweep.trackPeak
  simp only
  split_ifs with hlt
  · rw [hsum]
    rw [UInt64.lt_iff_toNat_lt, hsum] at hlt
    omega
  · rw [UInt64.lt_iff_toNat_lt, hsum] at hlt
    omega

/-- One placement keeps the invariant. -/
lemma PeakInv.step {s s' : Sweep} {done : List SortEntry} {e : SortEntry} (h : PeakInv s done)
    (hpin : e.alloc.pinned = false)
    (hstart : ∀ d ∈ done, d.alloc.start.toNat ≤ e.alloc.start.toNat)
    (hlife : e.alloc.start.toNat < e.alloc.stop.toNat)
    (htotal : Span.total ((done ++ [e]).map SortEntry.span) < 2 ^ 64)
    (hstep : sweepStep s e = some s') : PeakInv s' (done ++ [e]) := by
  obtain ⟨s₂, off, rfl, hlive, -, hpeak, -⟩ := sweepStep_unpinned hpin hstep
  set start := e.alloc.start
  have hspans : (done ++ [e]).map SortEntry.span = done.map SortEntry.span ++ [e.span] := by simp
  have hlive' : ((s₂.record e off).trackPeak.live).map LiveAlloc.span =
      (releaseExpired (s.tally e.alloc) start).live.map LiveAlloc.span ++
        [⟨0, e.alloc.stop.toNat, e.alloc.size.toNat⟩] := by
    simp [Sweep.trackPeak, Sweep.record, hlive, LiveAlloc.span]
  have hone {t : ℕ} (ht : start.toNat ≤ t) :
      Span.load [⟨0, e.alloc.stop.toNat, e.alloc.size.toNat⟩] t = Span.load [e.span] t := by
    simp only [Span.load, Span.weightWhere_cons, Span.weightWhere_nil]
    simp [SortEntry.span, MemAlloc.span, start] at ht ⊢
    simp [ht]
  have hload {t : ℕ} (ht : start.toNat ≤ t) :
      Span.load ((s₂.record e off).trackPeak.live.map LiveAlloc.span) t =
        Span.load ((done ++ [e]).map SortEntry.span) t := by
    have hdone := h.live t fun d hd => (hstart d hd).trans ht
    rw [hlive', hspans, Span.load_append, Span.load_append, (load_released ht).1, hone ht]
    exact congrArg (· + _) hdone
  refine ⟨fun t ht => hload (ht e (List.mem_append_right _ (List.mem_singleton_self e))), ?_⟩
  have hsum : Span.total ((s₂.record e off).trackPeak.live.map LiveAlloc.span) =
      Span.load ((done ++ [e]).map SortEntry.span) start.toNat := by
    have hdone := h.live start.toNat hstart
    have hown : Span.load [e.span] start.toNat = e.alloc.size.toNat := by
      simp [Span.load, SortEntry.span, MemAlloc.span, start, hlife]
    rw [hlive', hspans, Span.load_append, Span.total_append, (load_released le_rfl).2, hown, ← hdone]
    simp [Span.total]
    rfl
  have hconcat := h.peak.concat (x := e.span) fun y hy => by
    obtain ⟨d, hd, rfl⟩ := List.mem_map.mp hy
    exact hstart d hd
  have hpeak' : (s₂.record e off).peakLive = s.peakLive := hpeak
  rw [trackPeak_peakLive (s := s₂.record e off) (hsum ▸ Span.load_le_total.trans_lt htotal),
    show Span.total ((s₂.record e off).live.map LiveAlloc.span) = _ from hsum, hpeak', hspans]
  exact hconcat

/-- The sweep keeps the invariant. -/
lemma PeakInv.run {s s' : Sweep} {done rest : List SortEntry} (h : PeakInv s done)
    (hpin : ∀ e ∈ rest, e.alloc.pinned = false)
    (hsorted : (done ++ rest).Pairwise fun a b => a.alloc.start.toNat ≤ b.alloc.start.toNat)
    (hlife : ∀ e ∈ rest, e.alloc.start.toNat < e.alloc.stop.toNat)
    (htotal : Span.total ((done ++ rest).map SortEntry.span) < 2 ^ 64)
    (hsweep : sweep s rest = some s') : PeakInv s' (done ++ rest) := by
  induction rest generalizing s done with
  | nil =>
    obtain rfl : s = s' := Option.some.inj hsweep
    rwa [List.append_nil]
  | cons e rest ih =>
    obtain ⟨s₁, hstep, hrest⟩ := Option.bind_eq_some_iff.mp hsweep
    have hbefore : ∀ d ∈ done, d.alloc.start.toNat ≤ e.alloc.start.toNat := fun d hd =>
      (List.pairwise_append.mp hsorted).2.2 d hd e List.mem_cons_self
    rw [List.append_cons] at hsorted htotal ⊢
    have hpart : Span.total ((done ++ [e]).map SortEntry.span) < 2 ^ 64 := by
      rw [List.map_append, Span.total_append] at htotal
      omega
    have h₁ := h.step (hpin e List.mem_cons_self) hbefore (hlife e List.mem_cons_self) hpart hstep
    exact ih h₁ (fun f hf => hpin f (List.mem_cons_of_mem e hf)) hsorted
      (fun f hf => hlife f (List.mem_cons_of_mem e hf)) htotal hrest

/-! ## The peak and the region -/

/-- The live ranges of a sweep hold no more bytes than there are below the cursor. -/
lemma Sweep.Tiled.total_live_le {s : Sweep} (h : s.Tiled) :
    Span.total (s.live.map LiveAlloc.span) ≤ s.cursor.toNat := by
  have hpacked : Packed (s.live.map LiveAlloc.extent) := h.packed.of_append_right
  have hle := hpacked.sum_size_le fun e he => by
    obtain ⟨l, hl, rfl⟩ := List.mem_map.mp he
    exact h.live_le l hl
  rw [List.map_map] at hle
  rw [Span.total, List.map_map]
  exact hle

/-- While no extension wraps, the peak stays below the largest end. -/
lemma SweepInv.peak_le {s s' : Sweep} {done rest : List SortEntry} (h : SweepInv s done rest)
    (hvalid : ∀ e ∈ rest, e.alloc.Valid) (hpin : ∀ e ∈ rest, e.alloc.pinned = false)
    (hsorted : (done ++ rest).Pairwise fun a b => allocCmp a b ≤ 0)
    (hnodup : ((done ++ rest).map SortEntry.addIdx).Nodup) (hrange : SweepInRange s rest)
    (hcursor : s.cursor ≤ s.maxEnd) (hpeak : s.peakLive ≤ s.maxEnd)
    (hsweep : sweep s rest = some s') : s'.peakLive ≤ s'.maxEnd := by
  induction rest generalizing s done with
  | nil =>
    obtain rfl : s = s' := Option.some.inj hsweep
    exact hpeak
  | cons e rest ih =>
    obtain ⟨s₁, hstep, hrest⟩ := Option.bind_eq_some_iff.mp hsweep
    have h₁ := h.step (hvalid e List.mem_cons_self) hsorted hnodup hrange.1 hstep
    have hends := sweepStep_maxEnd (hpin e List.mem_cons_self) hstep hcursor
    have hpeak₁ : s₁.peakLive ≤ s₁.maxEnd := by
      obtain ⟨s₂, off, rfl, -, -, hpeak₂, -⟩ := sweepStep_unpinned (hpin e List.mem_cons_self) hstep
      have hlive := h₁.tiled.total_live_le
      have htrack := trackPeak_peakLive (s := s₂.record e off)
        (hlive.trans_lt (s₂.record e off).trackPeak.cursor.toNat_lt)
      have hkeep : (s₂.record e off).peakLive = s.peakLive := hpeak₂
      rw [hkeep] at htrack
      simp only [UInt64.le_iff_toNat_le] at hcursor hpeak hends ⊢
      rw [htrack]
      exact max_le (hpeak.trans hends.2) (hlive.trans hends.1)
    rw [List.append_cons] at hsorted hnodup
    have hrange₁ := hrange.2
    rw [hstep] at hrange₁
    exact ih h₁ (fun f hf => hvalid f (List.mem_cons_of_mem e hf))
      (fun f hf => hpin f (List.mem_cons_of_mem e hf)) hsorted hnodup hrange₁ hends.1 hpeak₁ hrest

/-- The largest end only grows along the sweep. -/
lemma sweep_maxEnd {s s' : Sweep} {rest : List SortEntry}
    (hpin : ∀ e ∈ rest, e.alloc.pinned = false) (hcursor : s.cursor ≤ s.maxEnd)
    (hsweep : sweep s rest = some s') : s.maxEnd ≤ s'.maxEnd := by
  induction rest generalizing s with
  | nil =>
    obtain rfl : s = s' := Option.some.inj hsweep
    exact UInt64.le_refl _
  | cons e rest ih =>
    obtain ⟨s₁, hstep, hrest⟩ := Option.bind_eq_some_iff.mp hsweep
    obtain ⟨hcursor₁, hmax⟩ := sweepStep_maxEnd (hpin e List.mem_cons_self) hstep hcursor
    exact UInt64.le_trans hmax (ih (fun f hf => hpin f (List.mem_cons_of_mem e hf)) hcursor₁ hrest)

/-- An extension that wraps had a region that reached the last multiple of its alignment. -/
lemma sweep_maxEnd_of_not_inRange {s s' : Sweep} {rest : List SortEntry}
    (hpin : ∀ e ∈ rest, e.alloc.pinned = false) (hcursor : s.cursor ≤ s.maxEnd)
    (hsweep : sweep s rest = some s') (hout : ¬ SweepInRange s rest) :
    ∃ e ∈ rest, 2 ^ 64 ≤ s'.maxEnd.toNat + (e.alloc.align.toNat - 1) := by
  induction rest generalizing s with
  | nil => exact absurd trivial hout
  | cons e rest ih =>
    obtain ⟨s₁, hstep, hrest⟩ := Option.bind_eq_some_iff.mp hsweep
    by_cases hin : takesTail s e = true → AlignInRange s.cursor e.alloc.align
    · have hout₁ : ¬ SweepInRange s₁ rest := fun hin₁ => hout ⟨hin, by rw [hstep]; exact hin₁⟩
      have hcursor₁ := (sweepStep_maxEnd (hpin e List.mem_cons_self) hstep hcursor).1
      obtain ⟨f, hf, hle⟩ := ih (fun f hf => hpin f (List.mem_cons_of_mem e hf)) hcursor₁ hrest hout₁
      exact ⟨f, List.mem_cons_of_mem e hf, hle⟩
    · push Not at hin
      have hge : 2 ^ 64 ≤ s.cursor.toNat + (e.alloc.align.toNat - 1) := not_lt.mp hin.2
      have hmax := UInt64.le_iff_toNat_le.mp (UInt64.le_trans hcursor (sweep_maxEnd hpin hcursor hsweep))
      exact ⟨e, List.mem_cons_self, by omega⟩

/-! ## Plans -/

/-- The lifetimes of the requests of a planner. -/
def Planner.spans (planner : Planner) : List Span := planner.allocs.map MemAlloc.span

/-- The sorted requests have the lifetimes of the planner. -/
lemma IsQsorted.spans {planner : Planner} {sorted : List SortEntry} (h : IsQsorted planner sorted) :
    (sorted.map SortEntry.span).Perm planner.spans := by
  have hentries : (sortEntries planner).map SortEntry.span = planner.spans := by
    rw [sortEntries, List.map_map, Planner.spans]
    calc (planner.allocs.zipIdx.map fun x => x.1.span)
      _ = (planner.allocs.zipIdx.map Prod.fst).map MemAlloc.span := by rw [List.map_map]; rfl
      _ = planner.allocs.map MemAlloc.span := by rw [List.zipIdx_map_fst]
  exact hentries ▸ h.1.map SortEntry.span

/-- No extension wraps, or each alignment leaves room for all the requests before the end of the
address space. -/
def PeakFits (planner : Planner) (sorted : List SortEntry) : Prop :=
  SweepInRange Sweep.init sorted ∨
    ∀ a ∈ planner.allocs, Span.total planner.spans + a.align.toNat ≤ 2 ^ 64

/-- Requests that may share space: the sweep finds their peak, and it fits in the region unless an
extension wrapped. -/
lemma sweep_isPeak {planner : Planner} {sorted : List SortEntry} {s : Sweep}
    (hvalid : ∀ a ∈ planner.allocs, a.Valid) (hpin : ∀ a ∈ planner.allocs, a.pinned = false)
    (hsorted : IsQsorted planner sorted) (htotal : Span.total planner.spans < 2 ^ 64)
    (hsweep : sweep Sweep.init sorted = some s) :
    Span.IsPeak planner.spans s.peakLive.toNat ∧
      (PeakFits planner sorted → s.peakLive ≤ s.maxEnd) := by
  obtain ⟨hnodup, hmem⟩ := hsorted.nodup
  have hspans := hsorted.spans
  have htotal' : Span.total (sorted.map SortEntry.span) = Span.total planner.spans :=
    (hspans.map Span.weight).sum_eq
  have hstarts : sorted.Pairwise fun a b => a.alloc.start.toNat ≤ b.alloc.start.toNat :=
    hsorted.2.imp_of_mem fun {a b} ha hb hle =>
      (allocCmp_le hle).2 ((hpin _ (hmem a ha)).trans (hpin _ (hmem b hb)).symm)
  have hpin' : ∀ e ∈ sorted, e.alloc.pinned = false := fun e he => hpin _ (hmem e he)
  have hvalid' : ∀ e ∈ sorted, e.alloc.Valid := fun e he => hvalid _ (hmem e he)
  have hpeak : Span.IsPeak planner.spans s.peakLive.toNat :=
    (PeakInv.init.run hpin' hstarts (fun e he => (hvalid' e he).start_lt)
      (htotal' ▸ htotal) hsweep).peak.perm hspans
  refine ⟨hpeak, fun hfits => ?_⟩
  have hzero : Sweep.init.cursor ≤ Sweep.init.maxEnd := UInt64.le_refl 0
  by_cases hin : SweepInRange Sweep.init sorted
  · exact (SweepInv.init sorted).peak_le hvalid' hpin' hsorted.2 hnodup hin hzero hzero hsweep
  · -- the region reaches past everything the requests weigh together
    obtain ⟨e, he, hge⟩ := sweep_maxEnd_of_not_inRange hpin' hzero hsweep hin
    have hroom := hfits.resolve_left hin e.alloc (hmem e he)
    have hle := hpeak.peak_le_total
    rw [UInt64.le_iff_toNat_le]
    omega

/-- The plan of a planner that asks for no arena alignment reports the peak of its requests. -/
lemma paiMemPlanBuild_isPeak {planner : Planner} {sorted : List SortEntry} {plan : MemPlan}
    (hvalid : ∀ a ∈ planner.allocs, a.Valid) (hpin : ∀ a ∈ planner.allocs, a.pinned = false)
    (harena : planner.arenaAlign = 0) (hsorted : IsQsorted planner sorted)
    (htotal : Span.total planner.spans < 2 ^ 64)
    (hok : paiMemPlanBuild planner sorted = .ok plan) :
    Span.IsPeak planner.spans plan.peakLive.toNat ∧
      (PeakFits planner sorted → plan.peakLive ≤ plan.regionBytes) := by
  unfold paiMemPlanBuild at hok
  split_ifs at hok with hempty
  · obtain rfl := Except.ok.inj hok
    rw [Planner.spans, hempty]
    exact ⟨Span.IsPeak.nil, fun _ => UInt64.le_refl 0⟩
  · cases hsweep : sweep Sweep.init sorted with
    | none =>
      rw [hsweep] at hok
      exact absurd hok (by simp)
    | some s =>
      rw [hsweep] at hok
      obtain rfl : finishPlan planner s = plan := Except.ok.inj hok
      obtain ⟨hpeak, hle⟩ := sweep_isPeak hvalid hpin hsorted htotal hsweep
      refine ⟨hpeak, fun hfits => UInt64.le_trans (hle hfits) ?_⟩
      have hone : planner.arena = 1 := by simp [Planner.arena, harena]
      have hrange : AlignInRange s.raw planner.arena := by
        rw [hone]
        exact s.raw.toNat_lt
      have hpow : paiMemIsPow2 planner.arena = true := by
        rw [hone]
        decide
      obtain ⟨-, hge, -⟩ := paiMemAlignUp_of_inRange hpow hrange
      refine UInt64.le_trans ?_ (UInt64.le_iff_toNat_le.mpr hge)
      unfold Sweep.raw
      split_ifs with hlt
      · exact UInt64.le_of_lt hlt
      · exact UInt64.le_refl _

end Prospero
