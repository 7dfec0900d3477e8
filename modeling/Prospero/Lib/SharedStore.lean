import Mathlib.Data.List.Nodup
import Mathlib.Logic.Function.Basic
import Prospero.Lib.Extents

/-!
# Buffers that share storage

A program of steps over named buffers, each step a function of the contents of the buffers it reads that
writes the buffers it names.  The program runs over private buffers, or over one memory in which every buffer
has a place and places may overlap.

`Sharing` is what makes both runs agree: a buffer that still matters behind a step was already there or is
written by the step, and no other buffer that the step writes shares its place.  Then the memory holds the
contents of the private buffers wherever they matter (`Sharing.run_holds`), so that a run depends on nothing
else the memory holds (`Sharing.run_agree`).
-/

namespace SharedStore

/-- Bytes by position. -/
abbrev Content := ℕ → UInt8

/-- The first `n` bytes, and zeros behind them. -/
def Content.trim (c : Content) (n : ℕ) : Content := fun i => if i < n then c i else 0

/-- The contents with the bytes of an extent replaced where `w` has one. -/
def Content.write (c : Content) (e : Extent) (w : ℕ → Option UInt8) : Content := fun k =>
  if e.Has k then (w (k - e.off)).getD (c k) else c k

/-- The bytes of an extent. -/
def Content.read (c : Content) (e : Extent) : Content := Content.trim (fun i => c (e.off + i)) e.size

/-- What a step does: its error, if any, and the bytes it writes to its outputs, by output and position.
Without an error it writes all of them. -/
structure StepEffect (ε : Type) where
  /-- The error. -/
  error : Option ε
  /-- The written bytes. -/
  bytes : ℕ → ℕ → Option UInt8
  /-- Every byte is written. -/
  total : error = none → ∀ j i, (bytes j i).isSome = true

/-- A step: the buffers it reads and writes, and the outcome as a function of what it reads. -/
structure Step (ι ε : Type) where
  /-- The buffers it reads. -/
  ins : List ι
  /-- The buffers it writes. -/
  outs : List ι
  /-- The outcome. -/
  kernel : List Content → StepEffect ε

variable {ι ε : Type} (place : ι → Extent)

/-- The outputs of a step with their numbers. -/
def Step.numbered (st : Step ι ε) : List (ι × ℕ) := st.outs.zipIdx

/-- The outcome of a step over private buffers. -/
def Step.outcome (st : Step ι ε) (bufs : ι → Content) : StepEffect ε :=
  st.kernel (st.ins.map fun v => (bufs v).trim (place v).size)

/-- The outcome of a step over shared memory. -/
def Step.sharedOutcome (st : Step ι ε) (mem : Content) : StepEffect ε :=
  st.kernel (st.ins.map fun v => mem.read (place v))

/-- Write the listed outputs to their private buffers. -/
def writeBufs [DecidableEq ι] (o : StepEffect ε) (bufs : ι → Content) (l : List (ι × ℕ)) : ι → Content :=
  l.foldl (fun bufs x =>
    Function.update bufs x.1 ((bufs x.1).write ⟨0, (place x.1).size⟩ (o.bytes x.2))) bufs

/-- Write the listed outputs to their places. -/
def writePlaces (o : StepEffect ε) (mem : Content) (l : List (ι × ℕ)) : Content :=
  l.foldl (fun mem x => mem.write (place x.1) (o.bytes x.2)) mem

/-- A program over private buffers, up to the first error. -/
def runPrivate [DecidableEq ι] : List (Step ι ε) → (ι → Content) → Option ε × (ι → Content)
  | [], bufs => (none, bufs)
  | st :: rest, bufs =>
    let o := st.outcome place bufs
    match o.error with
    | some e => (some e, writeBufs place o bufs st.numbered)
    | none => runPrivate rest (writeBufs place o bufs st.numbered)

/-- A program over shared memory, up to the first error. -/
def runShared : List (Step ι ε) → Content → Option ε × Content
  | [], mem => (none, mem)
  | st :: rest, mem =>
    let o := st.sharedOutcome place mem
    match o.error with
    | some e => (some e, writePlaces place o mem st.numbered)
    | none => runShared rest (writePlaces place o mem st.numbered)

/-- The memory holds the contents of a buffer at its place. -/
def HoldsAt (mem : Content) (v : ι) (c : Content) : Prop :=
  ∀ i < (place v).size, mem ((place v).off + i) = c i

/-- Places are shared only by buffers that do not matter at the same time; `live s v` says that buffer `v`
matters before step `s`. -/
structure Sharing (steps : List (Step ι ε)) (live : ℕ → ι → Prop) : Prop where
  /-- What a step reads matters. -/
  ins_live : ∀ s st, steps[s]? = some st → ∀ v ∈ st.ins, live s v
  /-- What matters behind a step mattered before, or is written by it. -/
  live_before : ∀ s st, steps[s]? = some st → ∀ v, live (s + 1) v → v ∉ st.outs → live s v
  /-- What matters behind a step does not share a place with another output of it. -/
  apart : ∀ s st, steps[s]? = some st → ∀ u ∈ st.outs, ∀ v, live (s + 1) v → v ≠ u →
    (place u).Apart (place v)
  /-- Outputs are distinct. -/
  nodup : ∀ st ∈ steps, st.outs.Nodup

variable {place} {mem mem' : Content} {bufs : ι → Content} {steps : List (Step ι ε)}
  {live : ℕ → ι → Prop}

/-! ## One write -/

lemma Content.write_of_not_has {c : Content} {e : Extent} {w : ℕ → Option UInt8} {k : ℕ}
    (h : ¬ e.Has k) : c.write e w k = c k := if_neg h

lemma Content.write_apart {c : Content} {e e' : Extent} {w : ℕ → Option UInt8} (h : e.Apart e') {i : ℕ}
    (hi : i < e'.size) : c.write e w (e'.off + i) = c (e'.off + i) :=
  Content.write_of_not_has fun hhas => h _ hhas ⟨by omega, by omega⟩

/-- A store to a place, beside the store to the private buffer. -/
lemma HoldsAt.write {v : ι} {c : Content} (w : ℕ → Option UInt8) (h : HoldsAt place mem v c) :
    HoldsAt place (mem.write (place v) w) v (c.write ⟨0, (place v).size⟩ w) := by
  intro i hi
  have hhas : (place v).Has ((place v).off + i) := ⟨Nat.le_add_right _ _, Nat.add_lt_add_left hi _⟩
  have hpriv : (⟨0, (place v).size⟩ : Extent).Has i := ⟨Nat.zero_le i, hi.trans_eq (Nat.zero_add _).symm⟩
  rw [Content.write, if_pos hhas, Content.write, if_pos hpriv, h i hi, Nat.add_sub_cancel_left, Nat.sub_zero]

/-- A total store makes a place hold what the private buffer holds, whatever was there. -/
lemma holdsAt_write_total {v : ι} {c : Content} {w : ℕ → Option UInt8} (hw : ∀ i, (w i).isSome = true) :
    HoldsAt place (mem.write (place v) w) v (c.write ⟨0, (place v).size⟩ w) := by
  intro i hi
  have hhas : (place v).Has ((place v).off + i) := ⟨Nat.le_add_right _ _, Nat.add_lt_add_left hi _⟩
  have hpriv : (⟨0, (place v).size⟩ : Extent).Has i := ⟨Nat.zero_le i, hi.trans_eq (Nat.zero_add _).symm⟩
  rw [Content.write, if_pos hhas, Content.write, if_pos hpriv, Nat.add_sub_cancel_left, Nat.sub_zero]
  obtain ⟨b, hb⟩ := Option.isSome_iff_exists.mp (hw i)
  rw [hb, Option.getD_some, Option.getD_some]

lemma HoldsAt.frame {u v : ι} {c : Content} {w : ℕ → Option UInt8} (h : HoldsAt place mem v c)
    (hapart : (place u).Apart (place v)) : HoldsAt place (mem.write (place u) w) v c :=
  fun i hi => (Content.write_apart hapart hi).trans (h i hi)

lemma HoldsAt.read {v : ι} {c : Content} (h : HoldsAt place mem v c) :
    mem.read (place v) = c.trim (place v).size := by
  funext i
  unfold Content.read Content.trim
  by_cases hi : i < (place v).size
  · rw [if_pos hi, if_pos hi]
    exact h i hi
  · rw [if_neg hi, if_neg hi]

/-! ## One step -/

/-- Buffers that are not listed keep their contents. -/
lemma writeBufs_of_not_mem [DecidableEq ι] {o : StepEffect ε} {l : List (ι × ℕ)} {v : ι} (h : v ∉ l.map Prod.fst) :
    writeBufs place o bufs l v = bufs v := by
  induction l generalizing bufs with
  | nil => rfl
  | cons x l ih =>
    rw [List.map_cons, List.mem_cons, not_or] at h
    exact (ih h.2).trans (Function.update_of_ne h.1 _ _)

/-- Bytes outside the places are kept. -/
lemma writePlaces_of_not_has {o : StepEffect ε} {l : List (ι × ℕ)} {k : ℕ} (h : ∀ x ∈ l, ¬ (place x.1).Has k) :
    writePlaces place o mem l k = mem k := by
  induction l generalizing mem with
  | nil => rfl
  | cons x l ih =>
    rw [List.forall_mem_cons] at h
    exact (ih h.2).trans (Content.write_of_not_has h.1)

/-- A step that writes nothing keeps the memory. -/
lemma writePlaces_of_none {o : StepEffect ε} (ho : ∀ j i, o.bytes j i = none) (l : List (ι × ℕ)) :
    writePlaces place o mem l = mem := by
  induction l generalizing mem with
  | nil => rfl
  | cons x l ih =>
    have hwrite : mem.write (place x.1) (o.bytes x.2) = mem := by
      funext k
      rw [Content.write, ho]
      exact ite_self _
    change writePlaces place o (mem.write (place x.1) (o.bytes x.2)) l = mem
    rw [hwrite, ih]

/-- Places apart from all that are written are kept. -/
lemma writePlaces_frame {o : StepEffect ε} {l : List (ι × ℕ)} {v : ι} {c : Content}
    (hapart : ∀ u ∈ l.map Prod.fst, (place u).Apart (place v)) (h : HoldsAt place mem v c) :
    HoldsAt place (writePlaces place o mem l) v c := by
  induction l generalizing mem with
  | nil => exact h
  | cons x l ih =>
    rw [List.map_cons, List.forall_mem_cons] at hapart
    exact ih hapart.2 (h.frame hapart.1)

/-- A byte of one of the places, which are apart, is what the step writes there. -/
lemma writePlaces_of_has {o : StepEffect ε} {l : List (ι × ℕ)} (hnodup : (l.map Prod.fst).Nodup)
    (hapart : ∀ u ∈ l.map Prod.fst, ∀ v ∈ l.map Prod.fst, v ≠ u → (place u).Apart (place v)) {x : ι × ℕ}
    (hx : x ∈ l) {k : ℕ} (hk : (place x.1).Has k) :
    writePlaces place o mem l k = (o.bytes x.2 (k - (place x.1).off)).getD (mem k) := by
  induction l generalizing mem with
  | nil => exact absurd hx List.not_mem_nil
  | cons y l ih =>
    rw [List.map_cons, List.nodup_cons] at hnodup
    have hrest : ∀ u ∈ l.map Prod.fst, ∀ v ∈ l.map Prod.fst, v ≠ u → (place u).Apart (place v) :=
      fun u hu v hv => hapart u (List.mem_cons_of_mem _ hu) v (List.mem_cons_of_mem _ hv)
    change writePlaces place o (mem.write (place y.1) (o.bytes y.2)) l k = _
    rcases List.mem_cons.mp hx with rfl | hx
    · have hlater : ∀ z ∈ l, ¬ (place z.1).Has k := by
        intro z hz hhas
        have hmem := List.mem_map_of_mem (f := Prod.fst) hz
        refine hapart x.1 List.mem_cons_self z.1 (List.mem_cons_of_mem _ hmem) (fun heq => ?_) k hk hhas
        exact hnodup.1 (heq ▸ hmem)
      rw [writePlaces_of_not_has hlater, Content.write, if_pos hk]
    · have hmem := List.mem_map_of_mem (f := Prod.fst) hx
      rw [ih hnodup.2 hrest hx, Content.write_of_not_has]
      refine hapart x.1 (List.mem_cons_of_mem _ hmem) y.1 List.mem_cons_self (fun heq => ?_) k hk
      exact hnodup.1 (heq ▸ hmem)

/-- The outputs are written to both, and to nothing that matters. -/
lemma holdsAt_writePlaces [DecidableEq ι] {o : StepEffect ε} (ho : o.error = none) {l : List (ι × ℕ)} {v : ι}
    (hnodup : (l.map Prod.fst).Nodup)
    (hapart : ∀ u ∈ l.map Prod.fst, v ≠ u → (place u).Apart (place v))
    (h : v ∉ l.map Prod.fst → HoldsAt place mem v (bufs v)) :
    HoldsAt place (writePlaces place o mem l) v (writeBufs place o bufs l v) := by
  induction l generalizing mem bufs with
  | nil => exact h List.not_mem_nil
  | cons x l ih =>
    rw [List.map_cons, List.nodup_cons] at hnodup
    rw [List.map_cons, List.forall_mem_cons] at hapart
    by_cases hv : v = x.1
    · subst hv
      -- the later outputs of the step leave the place alone
      have hlater : ∀ u ∈ l.map Prod.fst, (place u).Apart (place x.1) := fun u hu =>
        hapart.2 u hu fun heq => hnodup.1 (heq ▸ hu)
      have hbuf : writeBufs place o bufs (x :: l) x.1 =
          (bufs x.1).write ⟨0, (place x.1).size⟩ (o.bytes x.2) :=
        (writeBufs_of_not_mem hnodup.1).trans (Function.update_self _ _ _)
      rw [hbuf]
      change HoldsAt place (writePlaces place o (mem.write (place x.1) (o.bytes x.2)) l) _ _
      exact writePlaces_frame hlater (holdsAt_write_total (o.total ho x.2))
    · refine ih hnodup.2 hapart.2 fun hmem => ?_
      change HoldsAt place _ v (Function.update bufs x.1 _ v)
      rw [Function.update_of_ne hv]
      refine (h fun hin => ?_).frame (hapart.1 hv)
      rw [List.map_cons, List.mem_cons] at hin
      exact hin.elim hv hmem

lemma Step.map_numbered (st : Step ι ε) : st.numbered.map Prod.fst = st.outs :=
  List.zipIdx_map_fst 0 st.outs

/-! ## Runs -/

/-- Private buffers have a size, and no place. -/
lemma runPrivate_congr [DecidableEq ι] {place' : ι → Extent} (h : ∀ v, (place v).size = (place' v).size) :
    runPrivate place steps bufs = runPrivate place' steps bufs := by
  have hwrite (o : StepEffect ε) (bufs : ι → Content) (l : List (ι × ℕ)) :
      writeBufs place o bufs l = writeBufs place' o bufs l := by
    simp only [writeBufs, h]
  have hout (st : Step ι ε) (bufs : ι → Content) : st.outcome place bufs = st.outcome place' bufs := by
    simp only [Step.outcome, h]
  induction steps generalizing bufs with
  | nil => rfl
  | cons st rest ih =>
    unfold runPrivate
    simp only [hout, hwrite, ih]

/-- The steps behind the first one. -/
lemma Sharing.tail {st : Step ι ε} (h : Sharing place (st :: steps) live) :
    Sharing place steps fun s => live (s + 1) where
  ins_live s st hst := h.ins_live (s + 1) st hst
  live_before s st hst := h.live_before (s + 1) st hst
  apart s st hst := h.apart (s + 1) st hst
  nodup st hst := h.nodup st (List.mem_cons_of_mem _ hst)

/-- The memory follows the private buffers wherever they matter: both runs end with the same error, and
without one the memory holds what matters at the end. -/
theorem Sharing.run_holds [DecidableEq ι] (h : Sharing place steps live)
    (hmem : ∀ v, live 0 v → HoldsAt place mem v (bufs v)) :
    (runShared place steps mem).1 = (runPrivate place steps bufs).1 ∧
      ((runPrivate place steps bufs).1 = none → ∀ v, live steps.length v →
        HoldsAt place (runShared place steps mem).2 v ((runPrivate place steps bufs).2 v)) := by
  induction steps generalizing mem bufs live with
  | nil => exact ⟨rfl, fun _ => hmem⟩
  | cons st rest ih =>
    have hin : st.sharedOutcome place mem = st.outcome place bufs := by
      unfold Step.sharedOutcome Step.outcome
      congr 1
      exact List.map_congr_left fun v hv => (hmem v (h.ins_live 0 st rfl v hv)).read
    unfold runShared runPrivate
    simp only [hin]
    cases herror : (st.outcome place bufs).error with
    | some e => exact ⟨rfl, fun hnone => by cases hnone⟩
    | none =>
      refine ih h.tail fun v hv => holdsAt_writePlaces herror ?_ ?_ ?_
      · rw [st.map_numbered]
        exact h.nodup st List.mem_cons_self
      · rw [st.map_numbered]
        exact fun u hu hne => h.apart 0 st rfl u hu v hv hne
      · rw [st.map_numbered]
        exact fun hout => hmem v (h.live_before 0 st rfl v hv hout)

/-- Memories that agree on what matters at the beginning agree on the error and on what matters at the
end. -/
theorem Sharing.run_agree [DecidableEq ι] (h : Sharing place steps live)
    (hmem : ∀ v, live 0 v → ∀ i < (place v).size, mem ((place v).off + i) = mem' ((place v).off + i)) :
    (runShared place steps mem).1 = (runShared place steps mem').1 ∧
      ((runShared place steps mem).1 = none → ∀ v, live steps.length v → ∀ i < (place v).size,
        (runShared place steps mem).2 ((place v).off + i) =
          (runShared place steps mem').2 ((place v).off + i)) := by
  -- both memories follow the private buffers that the first one fills
  have hfirst (v : ι) (_ : live 0 v) : HoldsAt place mem v fun i => mem ((place v).off + i) :=
    fun _ _ => rfl
  have hsecond (v : ι) (hv : live 0 v) : HoldsAt place mem' v fun i => mem ((place v).off + i) :=
    fun i hi => (hmem v hv i hi).symm
  obtain ⟨herror, hend⟩ := h.run_holds hfirst
  obtain ⟨herror', hend'⟩ := h.run_holds hsecond
  refine ⟨herror.trans herror'.symm, fun hnone v hv i hi => ?_⟩
  rw [herror] at hnone
  exact (hend hnone v hv i hi).trans (hend' hnone v hv i hi).symm

/-- A place apart from everything a program writes keeps its contents, whether the program ends with an
error or not. -/
theorem runShared_frame {v : ι} {c : Content}
    (hapart : ∀ st ∈ steps, ∀ u ∈ st.outs, (place u).Apart (place v)) (h : HoldsAt place mem v c) :
    HoldsAt place (runShared place steps mem).2 v c := by
  induction steps generalizing mem with
  | nil => exact h
  | cons st rest ih =>
    rw [List.forall_mem_cons] at hapart
    have hstep : HoldsAt place (writePlaces place (st.sharedOutcome place mem) mem st.numbered) v c :=
      writePlaces_frame (by rw [st.map_numbered]; exact hapart.1) h
    unfold runShared
    simp only
    cases (st.sharedOutcome place mem).error with
    | some e => exact hstep
    | none => exact ih hapart.2 hstep

end SharedStore
