import Prospero.Scheduler.PlannedRun

/-!
# Runs by the epochs

The ops of a planned graph run in the order of their epochs, each with any meaning as a function of the contents
of its inputs, once in the one region at the planned offsets and once with a private buffer for each value.  When
no offset of the plan wraps, the outputs are the same, and under the persistent plan they stay the same however
often the plan runs (`epochRun_sameOutputs`).  An offset that wraps puts a value on top of another one
(`wrappingGraph_overwrites`).
-/

namespace Prospero

open SharedStore

variable {ε : Type}

/-- Run in the region and with private buffers, the ops end with the same error, or leave the same bytes in every
output. -/
def Graph.SameOutputs (graph : Graph) (memPlan : GraphMemPlan) (meaning : OpMeaning ε) (mem : Content)
    (bufs : ℕ → Content) : Prop :=
  let shared := runShared (graph.placeOf memPlan) (graph.epochProgram meaning) mem
  let own := runPrivate (graph.placeOf memPlan) (graph.epochProgram meaning) bufs
  shared.1 = own.1 ∧ (own.1 = none → ∀ v value, graph.value? v = some value → value.isOutput = true →
    HoldsAt (graph.placeOf memPlan) shared.2 v (own.2 v))

/-- The values that no op produces are in the region. -/
def Graph.Loaded (graph : Graph) (memPlan : GraphMemPlan) (mem : Content) (bufs : ℕ → Content) : Prop :=
  ∀ v, 1 ≤ v → v ≤ graph.values.length → graph.producer v = 0 → HoldsAt (graph.placeOf memPlan) mem v (bufs v)

/-- The region behind a number of runs. -/
def Graph.regionAfter (graph : Graph) (memPlan : GraphMemPlan) (meaning : OpMeaning ε) (k : ℕ) (mem : Content) :
    Content :=
  (fun mem => (runShared (graph.placeOf memPlan) (graph.epochProgram meaning) mem).2)^[k] mem

section Runs

variable (qsort : Planner → List SortEntry) (calls : List GraphCall) (graph : Graph) (memPlan : GraphMemPlan)

/-- Under the persistent plan the values that no op produces stay, whatever the runs do. -/
lemma Graph.Loaded.regionAfter
    (hplan : graphMemoryPlanImpl qsort (graphBuild calls) true = (graph, .ok memPlan))
    (hqsort : ∀ planner, graph.planner true = .ok planner → IsQsorted planner (qsort planner))
    (hrange : ∀ planner, graph.planner true = .ok planner → SweepInRange Sweep.init (qsort planner))
    {mem : Content} {bufs : ℕ → Content} (h : graph.Loaded memPlan mem bufs) (meaning : OpMeaning ε) (k : ℕ) :
    graph.Loaded memPlan (graph.regionAfter memPlan meaning k mem) bufs := by
  obtain ⟨-, hfit, hordered⟩ := planned_ordered hplan
  induction k with
  | zero => exact h
  | succ k ih =>
    intro v h1 h2 hproducer i hi
    rw [Graph.regionAfter, Function.iterate_succ_apply']
    have hkeeps := ordered_run_keeps hplan (hordered.inEpochOrder hfit) hqsort hrange meaning
      (graph.regionAfter memPlan meaning k mem) h1 h2 hproducer i hi
    exact hkeeps.trans (ih v h1 h2 hproducer i hi)

/-- For every graph of the API with a plan, no offset of which wraps, every order that `qsort` may give, every
meaning of the ops and every contents of the values that no op produces: the run in the region leaves in every
output what the run with private buffers leaves.  Under the persistent plan the values that no op produces are
there behind any number of runs, and the next run leaves the same outputs. -/
theorem epochRun_sameOutputs (persistent : Bool)
    (hplan : graphMemoryPlanImpl qsort (graphBuild calls) persistent = (graph, .ok memPlan))
    (hqsort : ∀ planner, graph.planner persistent = .ok planner → IsQsorted planner (qsort planner))
    (hrange : ∀ planner, graph.planner persistent = .ok planner → SweepInRange Sweep.init (qsort planner))
    (meaning : OpMeaning ε) (mem : Content) (bufs : ℕ → Content) (hloaded : graph.Loaded memPlan mem bufs) :
    graph.SameOutputs memPlan meaning mem bufs ∧
      (persistent = true → ∀ k,
        graph.Loaded memPlan (graph.regionAfter memPlan meaning k mem) bufs ∧
          graph.SameOutputs memPlan meaning (graph.regionAfter memPlan meaning k mem) bufs) := by
  obtain ⟨-, hfit, hordered⟩ := planned_ordered hplan
  have hids := hordered.inEpochOrder hfit
  refine ⟨ordered_run_outputs hplan hids hqsort hrange meaning mem bufs hloaded, ?_⟩
  rintro rfl k
  have hstill := hloaded.regionAfter qsort calls graph memPlan hplan hqsort hrange meaning k
  exact ⟨hstill, ordered_run_outputs hplan hids hqsort hrange meaning _ bufs hstill⟩

end Runs

/-- A graph of two ops: the second one adds up what the first one made and the input. -/
def addedCopy : List GraphCall :=
  [.addValue .f32 [4] 0, .addValue .f32 [4] 0, .addValue .f32 [4] 0, .addOp .copy [1] [2],
    .addOp .add [1, 2] [3], .setInput 1, .setOutput 3]

/-- An input that fills the address space up to the last 16 bytes, and two values of 16 bytes. -/
def wrappingGraph : List GraphCall :=
  [.addValue .i8 [0xFFFFFFFFFFFFFFF0] 16, .addValue .i8 [16] 32, .addValue .i8 [16] 16, .addOp .copy [1] [2],
    .addOp .copy [1] [3], .setInput 1, .setOutput 3]

/-- The first op makes the byte `8`, every other one copies its first operand. -/
def eightThenCopy : OpMeaning Empty := fun o ins =>
  ⟨none, fun _ i => some (if o = 1 then 8 else (ins.getD 0 fun _ => 0) i), fun _ _ _ => rfl⟩

/-- A graph whose values fit, from a region with one byte everywhere. -/
theorem epochRun_sameOutputs_addedCopy : ∃ graph memPlan,
    graphMemoryPlanImpl sortEntries (graphBuild addedCopy) true = (graph, .ok memPlan) ∧
    graph.SameOutputs memPlan eightThenCopy (fun _ => 7) (fun _ _ => 7) := by
  refine ⟨_, _, rfl, (epochRun_sameOutputs sortEntries addedCopy _ _ true rfl ?_ ?_ eightThenCopy (fun _ => 7)
    (fun _ _ => 7) fun _ _ _ _ _ _ => rfl).1⟩
  · intro planner hplanner
    obtain rfl := Except.ok.inj hplanner
    exact ⟨List.Perm.refl _, by decide +kernel⟩
  · intro planner hplanner
    obtain rfl := Except.ok.inj hplanner
    decide +kernel

/-- The value that the first op makes lies on top of the input, which the second op still reads. -/
theorem wrappingGraph_overwrites : ∃ graph memPlan,
    graphMemoryPlanImpl sortEntries (graphBuild wrappingGraph) false = (graph, .ok memPlan) ∧
    (∀ planner, graph.planner false = .ok planner → IsQsorted planner (sortEntries planner)) ∧
    graph.Loaded memPlan (fun _ => 7) (fun _ _ => 7) ∧
    ¬ graph.SameOutputs memPlan eightThenCopy (fun _ => 7) (fun _ _ => 7) := by
  refine ⟨_, _, rfl, ?_, fun _ _ _ _ _ _ => rfl, fun hsame => ?_⟩
  · intro planner hplanner
    obtain rfl := Except.ok.inj hplanner
    exact ⟨List.Perm.refl _, by decide +kernel⟩
  · have hbyte := hsame.2 rfl 3 _ rfl (by decide +kernel) 0 (by decide +kernel)
    revert hbyte
    decide +kernel

end Prospero
