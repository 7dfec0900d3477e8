import Mathlib.Tactic.Common

/-!
# Programs over byte-addressed memory

A program loads and stores byte strings in numbered spaces of memory, and may stop with an error.
`Prog.trace` lists the accesses of a run and `Prog.run` gives its outcome.

`Prog.Spec P F Q` says that every access satisfies `P`, every error `F` and every result `Q`, whatever
the loaded bytes are.  There is one rule for each way to build a program, and a specification holds of
every run (`Prog.Spec.trace`, `Prog.Spec.run`).
-/

namespace Footprint

/-- One access of a run. -/
structure Access (σ : Type) where
  /-- The space. -/
  space : σ
  /-- First byte. -/
  addr : ℕ
  /-- Number of bytes. -/
  len : ℕ
  /-- A store. -/
  isStore : Bool

/-- The contents of every space. -/
abbrev Memory (σ : Type) := σ → ℕ → UInt8

/-- Programs that load and store bytes in the spaces `σ` and stop with a result or an error.  A call
hands the memory to another component, whose accesses are its own, and goes on with the status it
returns. -/
inductive Prog (σ ε α : Type) where
  /-- Return a result. -/
  | ret (a : α)
  /-- Stop with an error. -/
  | fail (e : ε)
  /-- Load `len` bytes. -/
  | load (space : σ) (addr len : ℕ) (next : List UInt8 → Prog σ ε α)
  /-- Store bytes. -/
  | store (space : σ) (addr : ℕ) (bytes : List UInt8) (next : Prog σ ε α)
  /-- Call another component. -/
  | call (f : Memory σ → Option ε × Memory σ) (next : Option ε → Prog σ ε α)

variable {σ ε α β : Type}

/-- Sequencing. -/
def Prog.bind : Prog σ ε α → (α → Prog σ ε β) → Prog σ ε β
  | .ret a, f => f a
  | .fail e, _ => .fail e
  | .load space addr len next, f => .load space addr len fun bs => (next bs).bind f
  | .store space addr bytes next, f => .store space addr bytes (next.bind f)
  | .call g next, f => .call g fun r => (next r).bind f

instance : Monad (Prog σ ε) where
  pure := .ret
  bind := .bind

/-- Load `len` bytes and return them. -/
def loadBytes (space : σ) (addr len : ℕ) : Prog σ ε (List UInt8) := .load space addr len .ret

/-- Store bytes. -/
def storeBytes (space : σ) (addr : ℕ) (bytes : List UInt8) : Prog σ ε Unit :=
  .store space addr bytes (.ret ())

/-- Call another component and return its status. -/
def callOther (f : Memory σ → Option ε × Memory σ) : Prog σ ε (Option ε) := .call f .ret

/-- A `for` loop over `n` numbers from `lo` on that carries a value. -/
def foldFor (lo : ℕ) : ℕ → β → (β → ℕ → Prog σ ε β) → Prog σ ε β
  | 0, b, _ => .ret b
  | n + 1, b, body => (body b lo).bind fun b => foldFor (lo + 1) n b body

/-- A `for` loop over the numbers below `n`. -/
def forUpTo (n : ℕ) (body : ℕ → Prog σ ε Unit) : Prog σ ε Unit :=
  foldFor 0 n () fun _ i => body i

/-- A loop over the elements of a list. -/
def forEach {ι : Type} (body : ι → Prog σ ε Unit) : List ι → Prog σ ε Unit
  | [] => .ret ()
  | i :: is => (body i).bind fun _ => forEach body is

/-! ## Runs -/

/-- The bytes at `addr`. -/
def Memory.bytes (mem : Memory σ) (space : σ) (addr len : ℕ) : List UInt8 :=
  (List.range len).map fun i => mem space (addr + i)

/-- The memory after a store. -/
def Memory.put [DecidableEq σ] (mem : Memory σ) (space : σ) (addr : ℕ) (bytes : List UInt8) :
    Memory σ := fun space' i =>
  if space' = space ∧ addr ≤ i then bytes.getD (i - addr) (mem space' i) else mem space' i

/-- The outcome of a run and the memory it leaves. -/
def Prog.run [DecidableEq σ] : Prog σ ε α → Memory σ → Except ε α × Memory σ
  | .ret a, mem => (.ok a, mem)
  | .fail e, mem => (.error e, mem)
  | .load space addr len next, mem => (next (mem.bytes space addr len)).run mem
  | .store space addr bytes next, mem => next.run (mem.put space addr bytes)
  | .call f next, mem => (next (f mem).1).run (f mem).2

/-- The accesses of a run, in order. -/
def Prog.trace [DecidableEq σ] : Prog σ ε α → Memory σ → List (Access σ)
  | .ret _, _ => []
  | .fail _, _ => []
  | .load space addr len next, mem =>
    ⟨space, addr, len, false⟩ :: (next (mem.bytes space addr len)).trace mem
  | .store space addr bytes next, mem =>
    ⟨space, addr, bytes.length, true⟩ :: next.trace (mem.put space addr bytes)
  | .call f next, mem => (next (f mem).1).trace (f mem).2

/-- The rounds of a loop over a list that a run gets to, each with the memory it starts from. -/
def rounds [DecidableEq σ] {ι : Type} (body : ι → Prog σ ε Unit) :
    List ι → Memory σ → List (ι × Memory σ)
  | [], _ => []
  | i :: is, mem =>
    (i, mem) ::
      match (body i).run mem with
      | (.ok _, mem') => rounds body is mem'
      | (.error _, _) => []

/-- The trace of a sequence is the trace of its first part, and of the second from the memory the
first one leaves. -/
lemma Prog.trace_bind [DecidableEq σ] (m : Prog σ ε α) (f : α → Prog σ ε β) (mem : Memory σ) :
    (m.bind f).trace mem = m.trace mem ++
      match m.run mem with
      | (.ok a, mem') => (f a).trace mem'
      | (.error _, _) => [] := by
  induction m generalizing mem with
  | ret a => rfl
  | fail e => rfl
  | load space addr len next ih =>
    rw [Prog.bind, Prog.trace, ih, Prog.trace, Prog.run, List.cons_append]
  | store space addr bytes next ih =>
    rw [Prog.bind, Prog.trace, ih, Prog.trace, Prog.run, List.cons_append]
  | call g next ih => rw [Prog.bind, Prog.trace, ih, Prog.trace, Prog.run]

/-- The outcome of a sequence. -/
lemma Prog.run_bind [DecidableEq σ] (m : Prog σ ε α) (f : α → Prog σ ε β) (mem : Memory σ) :
    (m.bind f).run mem =
      match m.run mem with
      | (.ok a, mem') => (f a).run mem'
      | (.error e, mem') => (.error e, mem') := by
  induction m generalizing mem with
  | ret a => rfl
  | fail e => rfl
  | load space addr len next ih => rw [Prog.bind, Prog.run, ih, Prog.run]
  | store space addr bytes next ih => rw [Prog.bind, Prog.run, ih, Prog.run]
  | call g next ih => rw [Prog.bind, Prog.run, ih, Prog.run]

/-- The accesses of a loop over a list are those of its rounds. -/
lemma trace_forEach [DecidableEq σ] {ι : Type} (body : ι → Prog σ ε Unit) (is : List ι)
    (mem : Memory σ) :
    (forEach body is).trace mem = (rounds body is mem).flatMap fun r => (body r.1).trace r.2 := by
  induction is generalizing mem with
  | nil => rfl
  | cons i is ih =>
    rw [forEach, rounds, List.flatMap_cons, Prog.trace_bind]
    congr 1
    rcases (body i).run mem with ⟨_ | _, mem'⟩
    · rfl
    · exact ih _

/-- Every round is one of the list. -/
lemma mem_of_mem_rounds [DecidableEq σ] {ι : Type} {body : ι → Prog σ ε Unit} {is : List ι}
    {mem : Memory σ} {r : ι × Memory σ} (h : r ∈ rounds body is mem) : r.1 ∈ is := by
  induction is generalizing mem with
  | nil => exact absurd h List.not_mem_nil
  | cons i is ih =>
    rw [rounds] at h
    rcases List.mem_cons.mp h with rfl | h
    · exact List.mem_cons_self
    · apply List.mem_cons_of_mem
      split at h
      · exact ih h
      · exact absurd h List.not_mem_nil

/-- Where the failure of a round depends on its element only, the rounds a run gets to are those of the
elements before which no round has failed. -/
lemma exists_mem_rounds_iff [DecidableEq σ] {ι : Type} {body : ι → Prog σ ε Unit} {bad : ι → Prop}
    {is : List ι} (hbad : ∀ i ∈ is, bad i → ∀ mem, ∃ e mem', (body i).run mem = (.error e, mem'))
    (hok : ∀ i ∈ is, ¬ bad i → ∀ mem, ∃ mem', (body i).run mem = (.ok (), mem')) (i : ι)
    (mem : Memory σ) :
    (∃ mem', (i, mem') ∈ rounds body is mem) ↔
      ∃ pre post, is = pre ++ i :: post ∧ ∀ j ∈ pre, ¬ bad j := by
  induction is generalizing mem with
  | nil =>
    constructor
    · rintro ⟨mem', h⟩
      exact absurd h List.not_mem_nil
    · rintro ⟨pre, post, h, -⟩
      exact absurd h (by simp)
  | cons k is ih =>
    have ih := ih (fun i hi => hbad i (List.mem_cons_of_mem k hi))
      fun i hi => hok i (List.mem_cons_of_mem k hi)
    rw [rounds]
    constructor
    · rintro ⟨mem', h⟩
      rcases List.mem_cons.mp h with h | h
      · cases h
        exact ⟨[], is, rfl, fun j hj => absurd hj List.not_mem_nil⟩
      by_cases hk : bad k
      · obtain ⟨e, mem'', hrun⟩ := hbad k List.mem_cons_self hk mem
        rw [hrun] at h
        exact absurd h List.not_mem_nil
      · obtain ⟨mem'', hrun⟩ := hok k List.mem_cons_self hk mem
        rw [hrun] at h
        obtain ⟨pre, post, rfl, hpre⟩ := (ih mem'').mp ⟨mem', h⟩
        refine ⟨k :: pre, post, rfl, fun j hj => ?_⟩
        rcases List.mem_cons.mp hj with rfl | hj
        · exact hk
        · exact hpre j hj
    · rintro ⟨pre, post, heq, hpre⟩
      cases pre with
      | nil =>
        cases heq
        exact ⟨mem, List.mem_cons_self⟩
      | cons j pre =>
        cases heq
        obtain ⟨mem'', hrun⟩ := hok _ List.mem_cons_self (hpre _ List.mem_cons_self) mem
        rw [hrun]
        obtain ⟨mem', h⟩ := (ih mem'').mpr
          ⟨pre, post, rfl, fun j hj => hpre j (List.mem_cons_of_mem _ hj)⟩
        exact ⟨mem', List.mem_cons_of_mem _ h⟩

/-! ## Specifications -/

/-- Every access satisfies `P`, every error `F` and every result `Q`, whatever the loaded bytes are. -/
def Prog.Spec (P : Access σ → Prop) (F : ε → Prop) (Q : α → Prop) : Prog σ ε α → Prop
  | .ret a => Q a
  | .fail e => F e
  | .load space addr len next =>
    P ⟨space, addr, len, false⟩ ∧ ∀ bs, bs.length = len → (next bs).Spec P F Q
  | .store space addr bytes next => P ⟨space, addr, bytes.length, true⟩ ∧ next.Spec P F Q
  | .call _ next => ∀ r, (next r).Spec P F Q

section Rules

variable {P : Access σ → Prop} {F : ε → Prop} {Q : α → Prop}

lemma Memory.length_bytes (mem : Memory σ) (space : σ) (addr len : ℕ) :
    (mem.bytes space addr len).length = len := by
  rw [Memory.bytes, List.length_map, List.length_range]

/-- A run makes only the allowed accesses. -/
theorem Prog.Spec.trace [DecidableEq σ] {m : Prog σ ε α} (h : m.Spec P F Q) (mem : Memory σ) :
    ∀ acc ∈ m.trace mem, P acc := by
  induction m generalizing mem with
  | ret a => exact fun acc hacc => absurd hacc List.not_mem_nil
  | fail e => exact fun acc hacc => absurd hacc List.not_mem_nil
  | load space addr len next ih =>
    intro acc hacc
    rcases List.mem_cons.mp hacc with rfl | hacc
    · exact h.1
    · exact ih _ (h.2 _ (mem.length_bytes space addr len)) mem acc hacc
  | store space addr bytes next ih =>
    intro acc hacc
    rcases List.mem_cons.mp hacc with rfl | hacc
    · exact h.1
    · exact ih h.2 _ acc hacc
  | call f next ih => exact fun acc hacc => ih _ (h _) _ acc hacc

/-- The outcome of a run is an allowed one. -/
theorem Prog.Spec.run [DecidableEq σ] {m : Prog σ ε α} (h : m.Spec P F Q) (mem : Memory σ) :
    match (m.run mem).1 with
    | .ok a => Q a
    | .error e => F e := by
  induction m generalizing mem with
  | ret a => exact h
  | fail e => exact h
  | load space addr len next ih => exact ih _ (h.2 _ (mem.length_bytes space addr len)) mem
  | store space addr bytes next ih => exact ih h.2 _
  | call f next ih => exact ih _ (h _) _

lemma Prog.Spec.bind {m : Prog σ ε α} {f : α → Prog σ ε β} {Q : β → Prop} {R : α → Prop}
    (hm : m.Spec P F R) (hf : ∀ a, R a → (f a).Spec P F Q) : (m >>= f).Spec P F Q := by
  change (m.bind f).Spec P F Q
  induction m with
  | ret a => exact hf a hm
  | fail e => exact hm
  | load space addr len next ih => exact ⟨hm.1, fun bs hbs => ih bs (hm.2 bs hbs)⟩
  | store space addr bytes next ih => exact ⟨hm.1, ih hm.2⟩
  | call g next ih => exact fun r => ih r (hm r)

lemma Prog.Spec.mono {m : Prog σ ε α} {Q' : α → Prop} (hm : m.Spec P F Q) (h : ∀ a, Q a → Q' a) :
    m.Spec P F Q' := by
  induction m with
  | ret a => exact h a hm
  | fail e => exact hm
  | load space addr len next ih => exact ⟨hm.1, fun bs hbs => ih bs (hm.2 bs hbs)⟩
  | store space addr bytes next ih => exact ⟨hm.1, ih hm.2⟩
  | call g next ih => exact fun r => ih r (hm r)

lemma spec_pure {a : α} (h : Q a) : (pure a : Prog σ ε α).Spec P F Q := h

lemma spec_fail {e : ε} (h : F e) : (.fail e : Prog σ ε α).Spec P F Q := h

lemma spec_loadBytes {space : σ} {addr len : ℕ} (h : P ⟨space, addr, len, false⟩) :
    (loadBytes space addr len : Prog σ ε (List UInt8)).Spec P F fun bs => bs.length = len :=
  ⟨h, fun _ hbs => hbs⟩

lemma spec_storeBytes {space : σ} {addr : ℕ} {bytes : List UInt8}
    (h : P ⟨space, addr, bytes.length, true⟩) :
    (storeBytes space addr bytes : Prog σ ε Unit).Spec P F fun _ => True :=
  ⟨h, trivial⟩

lemma spec_callOther {f : Memory σ → Option ε × Memory σ} :
    (callOther f : Prog σ ε (Option ε)).Spec P F fun _ => True := fun _ => trivial

/-- A loop keeps what each of its rounds keeps. -/
lemma spec_foldFor {I : β → Prop} {lo n : ℕ} {b : β} {body : β → ℕ → Prog σ ε β} (hb : I b)
    (h : ∀ b i, I b → lo ≤ i → i < lo + n → (body b i).Spec P F I) :
    (foldFor lo n b body).Spec P F I := by
  induction n generalizing lo b with
  | zero => exact hb
  | succ n ih =>
    refine Prog.Spec.bind (h b lo hb (Nat.le_refl lo) (by omega)) fun b hb => ?_
    exact ih hb fun b i hb hlo hi => h b i hb (by omega) (by omega)

lemma spec_forUpTo {n : ℕ} {body : ℕ → Prog σ ε Unit}
    (h : ∀ i < n, (body i).Spec P F fun _ => True) : (forUpTo n body).Spec P F fun _ => True :=
  spec_foldFor trivial fun _ i _ _ hi => h i (by omega)

lemma spec_forEach {ι : Type} {body : ι → Prog σ ε Unit} {is : List ι}
    (h : ∀ i ∈ is, (body i).Spec P F fun _ => True) : (forEach body is).Spec P F fun _ => True := by
  induction is with
  | nil => exact trivial
  | cons i is ih =>
    refine Prog.Spec.bind (h i List.mem_cons_self) fun _ _ => ?_
    exact ih fun j hj => h j (List.mem_cons_of_mem i hj)

/-- A loop without errors makes the accesses of each of its rounds. -/
lemma exists_round_foldFor [DecidableEq σ] {lo n : ℕ} {b : β} {body : β → ℕ → Prog σ ε β}
    (hok : ∀ b i, (body b i).Spec (fun _ => True) (fun _ => False) fun _ => True) {i : ℕ} (hlo : lo ≤ i)
    (hi : i < lo + n) (mem : Memory σ) :
    ∃ b' mem', ∀ acc ∈ (body b' i).trace mem', acc ∈ (foldFor lo n b body).trace mem := by
  induction n generalizing lo b mem with
  | zero => omega
  | succ n ih =>
    rw [foldFor, Prog.trace_bind]
    rcases Nat.lt_or_ge lo i with hlt | hge
    · have hrun := (hok b lo).run mem
      rcases hbody : (body b lo).run mem with ⟨e | b', mem'⟩
      · rw [hbody] at hrun
        exact absurd hrun id
      · obtain ⟨b'', mem'', hmem⟩ := ih hlt (by omega) mem'
        exact ⟨b'', mem'', fun acc hacc => List.mem_append_right _ (hmem acc hacc)⟩
    · obtain rfl : lo = i := by omega
      exact ⟨b, mem, fun acc hacc => List.mem_append_left _ hacc⟩

lemma exists_round_forUpTo [DecidableEq σ] {n : ℕ} (body : ℕ → Prog σ ε Unit)
    (hok : ∀ i, (body i).Spec (fun _ => True) (fun _ => False) fun _ => True) {i : ℕ} (hi : i < n)
    (mem : Memory σ) : ∃ mem', ∀ acc ∈ (body i).trace mem', acc ∈ (forUpTo n body).trace mem := by
  obtain ⟨-, mem', hmem⟩ := exists_round_foldFor (b := ()) (fun _ i => hok i) (Nat.zero_le i)
    (show i < 0 + n by omega) mem
  exact ⟨mem', hmem⟩

end Rules

end Footprint
