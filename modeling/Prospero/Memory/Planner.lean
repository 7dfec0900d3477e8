import Mathlib.Data.List.Pairwise
import Mathlib.Logic.Function.Basic
import Prospero.Memory.Align
import Prospero.Status

/-!
# Static memory planner

`memory/planner.c`: requests with a size, an alignment and a lifetime are sorted and swept once.
The sweep keeps a sorted, merging free list over a bounded node pool, a list of live allocations
with swap removal, and a cursor at the end of the region.

`qsort` may order ties in any way, so the sorted sequence is a parameter of the sweep
(`IsQsorted`).  Heap allocation inside `pai_mem_plan_build` is taken to succeed.
-/

namespace Prospero

/-- `PAI_MEM_PLANNER_MAX_ALLOCS`. -/
abbrev paiMemPlannerMaxAllocs : ℕ := 1024

/-! ## Requests -/

/-- `pai_mem_alloc_t`. -/
structure MemAlloc where
  /-- Bytes requested. -/
  size : UInt64
  /-- Alignment, a power of two. -/
  align : UInt64
  /-- First step of the lifetime. -/
  start : UInt64
  /-- `end`: the step after the lifetime. -/
  stop : UInt64
  /-- The range is never shared. -/
  pinned : Bool
deriving DecidableEq

/-- `pai_mem_planner_t`. -/
structure Planner where
  /-- The requests in the order of the calls. -/
  allocs : List MemAlloc
  /-- Alignment of the whole region; `0` for none. -/
  arenaAlign : UInt64

/-- `pai_mem_planner_init`. -/
def paiMemPlannerInit : Planner := ⟨[], 0⟩

/-- `pai_mem_planner_set_arena_align`. -/
def paiMemPlannerSetArenaAlign (planner : Planner) (align : UInt64) : Planner × PaiStatus :=
  if align = 0 ∨ ¬ paiMemIsPow2 align then (planner, paiErrInvalidArg)
  else ({ planner with arenaAlign := align }, paiOk)

/-- `planner_add_common`. -/
def plannerAddCommon (planner : Planner) (size align start stop : UInt64) (pinned : Bool) :
    Planner × PaiStatus :=
  if size = 0 ∨ align = 0 ∨ ¬ paiMemIsPow2 align ∨ stop ≤ start ∨ uint64Max - (align - 1) < size then
    (planner, paiErrInvalidArg)
  else if paiMemPlannerMaxAllocs ≤ planner.allocs.length then (planner, paiErrNomem)
  else ({ planner with allocs := planner.allocs ++ [⟨size, align, start, stop, pinned⟩] }, paiOk)

/-- `pai_mem_planner_add`. -/
def paiMemPlannerAdd (planner : Planner) (size align start stop : UInt64) : Planner × PaiStatus :=
  plannerAddCommon planner size align start stop false

/-- `pai_mem_planner_add_pinned`. -/
def paiMemPlannerAddPinned (planner : Planner) (size align start stop : UInt64) :
    Planner × PaiStatus :=
  plannerAddCommon planner size align start stop true

/-- A call on a planner. -/
inductive PlannerCall where
  /-- `pai_mem_planner_set_arena_align`. -/
  | setArenaAlign (align : UInt64)
  /-- `pai_mem_planner_add`. -/
  | add (size align start stop : UInt64)
  /-- `pai_mem_planner_add_pinned`. -/
  | addPinned (size align start stop : UInt64)

/-- Make one call; a refused one leaves the planner as it was. -/
def Planner.call (planner : Planner) : PlannerCall → Planner
  | .setArenaAlign align => (paiMemPlannerSetArenaAlign planner align).1
  | .add size align start stop => (paiMemPlannerAdd planner size align start stop).1
  | .addPinned size align start stop => (paiMemPlannerAddPinned planner size align start stop).1

/-- The planner after a sequence of calls. -/
def plannerAfter (calls : List PlannerCall) : Planner := calls.foldl Planner.call paiMemPlannerInit

/-! ## Sorting -/

/-- `sort_entry_t`. -/
structure SortEntry where
  /-- The request. -/
  alloc : MemAlloc
  /-- Its index in the order of the calls. -/
  addIdx : ℕ
deriving DecidableEq

/-- `alloc_cmp`: pinned requests last, then by start, then the longer-lived first. -/
def allocCmp (a b : SortEntry) : Int :=
  if a.alloc.pinned ≠ b.alloc.pinned then (if a.alloc.pinned < b.alloc.pinned then -1 else 1)
  else if a.alloc.start ≠ b.alloc.start then (if a.alloc.start < b.alloc.start then -1 else 1)
  else if a.alloc.stop ≠ b.alloc.stop then (if b.alloc.stop < a.alloc.stop then -1 else 1)
  else 0

/-- The array handed to `qsort`. -/
def sortEntries (planner : Planner) : List SortEntry :=
  planner.allocs.zipIdx.map fun x => ⟨x.1, x.2⟩

/-- A possible outcome of `qsort` on the requests of a planner. -/
def IsQsorted (planner : Planner) (sorted : List SortEntry) : Prop :=
  sorted.Perm (sortEntries planner) ∧ sorted.Pairwise fun a b => allocCmp a b ≤ 0

/-! ## The free list -/

/-- `free_node_t`. -/
structure FreeNode where
  /-- First byte. -/
  off : UInt64
  /-- Number of bytes. -/
  size : UInt64
deriving DecidableEq

/-- The size of the node pool. -/
abbrev freePoolSize : ℕ := paiMemPlannerMaxAllocs * 2 + 4

/-- `free_list_insert`.  `before` ends with `prev` and `after` begins with `cur`; when the pool is
exhausted the range is dropped. -/
def freeListInsert (free : List FreeNode) (poolUsed : ℕ) (off size : UInt64) :
    List FreeNode × ℕ :=
  let before := free.takeWhile fun n => n.off < off
  let after := free.dropWhile fun n => n.off < off
  let prev := before.getLast?.filter fun n => n.off + n.size == off
  let cur := after.head?.filter fun n => off + size == n.off
  match prev, cur with
  | some prev, some cur =>
    (before.dropLast ++ ⟨prev.off, prev.size + size + cur.size⟩ :: after.tail, poolUsed)
  | some prev, none => (before.dropLast ++ ⟨prev.off, prev.size + size⟩ :: after, poolUsed)
  | none, some cur => (before ++ ⟨off, cur.size + size⟩ :: after.tail, poolUsed)
  | none, none =>
    if freePoolSize ≤ poolUsed then (free, poolUsed)
    else (before ++ ⟨off, size⟩ :: after, poolUsed + 1)

/-- The fit test of the best-fit loop. -/
def FreeNode.fits (node : FreeNode) (a : MemAlloc) : Bool :=
  paiMemAlignUp node.off a.align - node.off + a.size ≤ node.size

/-- The best-fit loop from node `i` on: the smallest node that fits, the first among equals. -/
def bestFitFrom (a : MemAlloc) : List FreeNode → ℕ → Option (FreeNode × ℕ) → Option (FreeNode × ℕ)
  | [], _, best => best
  | cur :: rest, i, best =>
    bestFitFrom a rest (i + 1)
      (if cur.fits a && best.all fun b => cur.size < b.1.size then some (cur, i) else best)

/-- The best-fit search: the node and its place in the list. -/
def bestFit (free : List FreeNode) (a : MemAlloc) : Option (FreeNode × ℕ) :=
  bestFitFrom a free 0 none

/-! ## The sweep -/

/-- `live_alloc_t`. -/
structure LiveAlloc where
  /-- `end`: the step after the lifetime. -/
  stop : UInt64
  /-- First byte. -/
  off : UInt64
  /-- Number of bytes. -/
  size : UInt64
deriving DecidableEq

/-- The local state of `pai_mem_plan_build` and the counters of the plan. -/
structure Sweep where
  /-- `free_head`. -/
  free : List FreeNode
  /-- `pool_used`. -/
  poolUsed : ℕ
  /-- The first `live_count` entries of `live`. -/
  live : List LiveAlloc
  /-- End of the region so far. -/
  cursor : UInt64
  /-- Largest end of a placed range. -/
  maxEnd : UInt64
  /-- Largest sum of live bytes. -/
  peakLive : UInt64
  /-- Sum of the aligned sizes. -/
  naive : UInt64
  /-- Number of placements in freed space. -/
  reuses : ℕ
  /-- `plan->pinned_allocs`. -/
  pinnedAllocs : ℕ
  /-- `plan->pinned_bytes`. -/
  pinnedBytes : UInt64
  /-- `plan->offsets`. -/
  offsets : ℕ → UInt64

/-- The state before the sweep. -/
def Sweep.init : Sweep := ⟨[], 0, [], 0, 0, 0, 0, 0, 0, 0, fun _ => 0⟩

/-- `live[j] = live[--live_count]`. -/
def swapRemove (live : List LiveAlloc) (j : ℕ) : List LiveAlloc :=
  match live.getLast? with
  | some l => (live.set j l).dropLast
  | none => live

/-- The release loop from entry `j` on.  Each iteration advances `j` or shrinks the list, so
`live_count - j` iterations complete it. -/
def releaseFrom (start : UInt64) : ℕ → ℕ → Sweep → Sweep
  | 0, _, s => s
  | fuel + 1, j, s =>
    match s.live[j]? with
    | none => s
    | some l =>
      if l.stop ≤ start then
        let r := freeListInsert s.free s.poolUsed l.off l.size
        releaseFrom start fuel j
          { s with free := r.1, poolUsed := r.2, live := swapRemove s.live j }
      else releaseFrom start fuel (j + 1) s

/-- Release the allocations whose lifetime ended before `start`. -/
def releaseExpired (s : Sweep) (start : UInt64) : Sweep := releaseFrom start s.live.length 0 s

/-- Record a placed allocation at offset `off`. -/
def Sweep.record (s : Sweep) (e : SortEntry) (off : UInt64) : Sweep :=
  { s with
    offsets := Function.update s.offsets e.addIdx off
    maxEnd := if off + e.alloc.size < s.maxEnd then s.maxEnd else off + e.alloc.size
    live := s.live ++ [⟨e.alloc.stop, off, e.alloc.size⟩] }

/-- Extend the region: place the request at the aligned cursor, `none` when the region would
overflow. -/
def placeTail (s : Sweep) (a : MemAlloc) : Option (Sweep × UInt64) :=
  let off := paiMemAlignUp s.cursor a.align
  if uint64Max - a.size < off then none else some ({ s with cursor := off + a.size }, off)

/-- Place the request in node `i` of the free list and give back what is left of it. -/
def placeInside (s : Sweep) (a : MemAlloc) (best : FreeNode) (i : ℕ) : Sweep × UInt64 :=
  let aligned := paiMemAlignUp best.off a.align
  let leftPad := aligned - best.off
  let right := best.size - leftPad - a.size
  let r := (s.free.eraseIdx i, s.poolUsed)
  let r := if 0 < leftPad then freeListInsert r.1 r.2 best.off leftPad else r
  let r := if 0 < right then freeListInsert r.1 r.2 (aligned + a.size) right else r
  ({ s with free := r.1, poolUsed := r.2, reuses := s.reuses + 1 }, aligned)

/-- Track the peak of the live bytes. -/
def Sweep.trackPeak (s : Sweep) : Sweep :=
  let liveBytes := s.live.foldl (fun acc l => acc + l.size) 0
  { s with peakLive := if s.peakLive < liveBytes then liveBytes else s.peakLive }

/-- Count the aligned size of a request. -/
def Sweep.tally (s : Sweep) (a : MemAlloc) : Sweep :=
  { s with naive := s.naive + paiMemAlignUp a.size a.align }

/-- One iteration of the sweep, `none` on region overflow. -/
def sweepStep (s : Sweep) (e : SortEntry) : Option Sweep :=
  let s := s.tally e.alloc
  if e.alloc.pinned then
    let s := { s with
      pinnedAllocs := s.pinnedAllocs + 1, pinnedBytes := s.pinnedBytes + e.alloc.size }
    (placeTail s e.alloc).map fun r => r.1.record e r.2
  else
    let s := releaseExpired s e.alloc.start
    match bestFit s.free e.alloc with
    | some (best, i) =>
      let r := placeInside s e.alloc best i
      some (r.1.record e r.2).trackPeak
    | none => (placeTail s e.alloc).map fun r => (r.1.record e r.2).trackPeak

/-- The sweep over the sorted requests. -/
def sweep (s : Sweep) (sorted : List SortEntry) : Option Sweep := sorted.foldlM sweepStep s

/-! ## The plan -/

/-- `pai_mem_plan_t`. -/
structure MemPlan where
  /-- Number of requests. -/
  count : ℕ
  /-- Offset of each request, in the order of the calls. -/
  offsets : ℕ → UInt64
  /-- Size of the region. -/
  regionBytes : UInt64
  /-- Size without reuse. -/
  naiveBytes : UInt64
  /-- Bytes saved by reuse. -/
  reuseBytes : UInt64
  /-- Peak of the live bytes. -/
  peakLive : UInt64
  /-- Number of reuses. -/
  reuses : ℕ
  /-- Number of pinned requests. -/
  pinnedAllocs : ℕ
  /-- Bytes of the pinned requests. -/
  pinnedBytes : UInt64

/-- The end of the region before the arena rounding. -/
def Sweep.raw (s : Sweep) : UInt64 := if s.maxEnd < s.cursor then s.cursor else s.maxEnd

/-- The alignment of the region. -/
def Planner.arena (planner : Planner) : UInt64 :=
  if planner.arenaAlign ≠ 0 then planner.arenaAlign else 1

/-- The plan written from the final state of the sweep. -/
def finishPlan (planner : Planner) (s : Sweep) : MemPlan :=
  let region := paiMemAlignUp s.raw planner.arena
  { count := planner.allocs.length
    offsets := s.offsets
    regionBytes := region
    naiveBytes := s.naive
    reuseBytes := if region ≤ s.naive then s.naive - region else 0
    peakLive := s.peakLive
    reuses := s.reuses
    pinnedAllocs := s.pinnedAllocs
    pinnedBytes := s.pinnedBytes }

/-- `pai_mem_plan_build`, given the order `qsort` produced. -/
def paiMemPlanBuild (planner : Planner) (sorted : List SortEntry) : Except PaiStatus MemPlan :=
  if planner.allocs = [] then .ok ⟨0, fun _ => 0, 0, 0, 0, 0, 0, 0, 0⟩
  else
    match sweep Sweep.init sorted with
    | none => .error paiErrNomem
    | some s => .ok (finishPlan planner s)

end Prospero
