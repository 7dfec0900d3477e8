import Prospero.Lib.Bytes
import Prospero.Lib.Footprint

/-!
# What a run leaves in memory

`Prog.Leaves m mem Q` says that the run of `m` from `mem` returns, and that its result and the memory it
leaves satisfy `Q`.  There is one rule for each way to build a program.

Memory filled with words of four bytes front to back is `Fills`: the words below some count are there, and
every other byte is as before.  A loop that stores one word a round keeps it (`Fills.store`).

### Outline

* `run_bind_ok`, `run_bind_error`: the run of a sequence.
* `Prog.Leaves` and its rules, the last ones for loops.
* `Memory.word` : four bytes as a bit pattern; what a store does to it.
* `Fills` : memory in which an array of words is computed.
-/

namespace Footprint

open ByteString

variable {σ ε α β : Type} [DecidableEq σ]

section Runs

variable {m : Prog σ ε α} {f : α → Prog σ ε β} {mem mem' : Memory σ}

lemma run_bind_ok {a : α} (h : m.run mem = (.ok a, mem')) : (m >>= f).run mem = (f a).run mem' := by
  change (m.bind f).run mem = _
  rw [Prog.run_bind, h]

lemma run_bind_error {e : ε} (h : m.run mem = (.error e, mem')) : (m >>= f).run mem = (.error e, mem') := by
  change (m.bind f).run mem = _
  rw [Prog.run_bind, h]

lemma run_loadBytes (space : σ) (addr len : ℕ) (mem : Memory σ) :
    (loadBytes space addr len : Prog σ ε (List UInt8)).run mem = (.ok (mem.bytes space addr len), mem) := rfl

lemma run_storeBytes (space : σ) (addr : ℕ) (bytes : List UInt8) (mem : Memory σ) :
    (storeBytes space addr bytes : Prog σ ε Unit).run mem = (.ok (), mem.put space addr bytes) := rfl

lemma run_callOther (f : Memory σ → Option ε × Memory σ) (mem : Memory σ) :
    (callOther f : Prog σ ε (Option ε)).run mem = (.ok (f mem).1, (f mem).2) := rfl

end Runs

/-- The run returns, and its result and the memory it leaves satisfy `Q`. -/
def Prog.Leaves (m : Prog σ ε α) (mem : Memory σ) (Q : α → Memory σ → Prop) : Prop :=
  ∃ a mem', m.run mem = (.ok a, mem') ∧ Q a mem'

section Rules

variable {mem : Memory σ}

lemma leaves_pure {a : α} {Q : α → Memory σ → Prop} (h : Q a mem) :
    (pure a : Prog σ ε α).Leaves mem Q := ⟨a, mem, rfl, h⟩

lemma Prog.Leaves.bind {m : Prog σ ε α} {f : α → Prog σ ε β} {R : α → Memory σ → Prop}
    {Q : β → Memory σ → Prop} (hm : m.Leaves mem R) (hf : ∀ a mem', R a mem' → (f a).Leaves mem' Q) :
    (m >>= f).Leaves mem Q := by
  obtain ⟨a, mem', hrun, hR⟩ := hm
  obtain ⟨b, mem'', hrun', hQ⟩ := hf a mem' hR
  exact ⟨b, mem'', (run_bind_ok hrun).trans hrun', hQ⟩

lemma Prog.Leaves.mono {m : Prog σ ε α} {Q Q' : α → Memory σ → Prop} (hm : m.Leaves mem Q)
    (h : ∀ a mem', Q a mem' → Q' a mem') : m.Leaves mem Q' := by
  obtain ⟨a, mem', hrun, hQ⟩ := hm
  exact ⟨a, mem', hrun, h a mem' hQ⟩

lemma leaves_loadBytes {space : σ} {addr len : ℕ} {Q : List UInt8 → Memory σ → Prop}
    (h : Q (mem.bytes space addr len) mem) :
    (loadBytes space addr len : Prog σ ε (List UInt8)).Leaves mem Q := ⟨_, _, rfl, h⟩

lemma leaves_storeBytes {space : σ} {addr : ℕ} {bytes : List UInt8} {Q : Unit → Memory σ → Prop}
    (h : Q () (mem.put space addr bytes)) :
    (storeBytes space addr bytes : Prog σ ε Unit).Leaves mem Q := ⟨_, _, rfl, h⟩

/-- A loop keeps the invariant that each of its rounds keeps. -/
lemma leaves_foldFor {lo n : ℕ} {b : β} {body : β → ℕ → Prog σ ε β} (I : ℕ → β → Memory σ → Prop)
    (hstart : I lo b mem)
    (hbody : ∀ i b mem, lo ≤ i → i < lo + n → I i b mem → (body b i).Leaves mem (I (i + 1))) :
    (foldFor lo n b body).Leaves mem (I (lo + n)) := by
  induction n generalizing lo b mem with
  | zero => exact ⟨b, mem, rfl, hstart⟩
  | succ n ih =>
    refine Prog.Leaves.bind (hbody lo b mem (Nat.le_refl lo) (by omega) hstart) fun b' mem' hI => ?_
    have hrest := ih hI fun i b mem hlo hi => hbody i b mem (by omega) (by omega)
    rwa [Nat.add_assoc, Nat.add_comm 1 n] at hrest

lemma leaves_forUpTo {n : ℕ} {body : ℕ → Prog σ ε Unit} (I : ℕ → Memory σ → Prop) (hstart : I 0 mem)
    (hbody : ∀ i mem, i < n → I i mem → (body i).Leaves mem fun _ => I (i + 1)) :
    (forUpTo n body).Leaves mem fun _ => I n := by
  have hloop : (foldFor 0 n () fun _ i => body i : Prog σ ε Unit).Leaves mem fun _ => I (0 + n) :=
    leaves_foldFor (fun i _ => I i) hstart fun i _ mem _ hi hI => hbody i mem (by omega) hI
  rwa [Nat.zero_add] at hloop

/-- What a run that returns leaves. -/
lemma Prog.Leaves.of_run {m : Prog σ ε α} {Q : α → Memory σ → Prop} (h : m.Leaves mem Q) {a : α}
    {mem' : Memory σ} (hrun : m.run mem = (.ok a, mem')) : Q a mem' := by
  obtain ⟨b, mem'', hrun', hQ⟩ := h
  obtain ⟨hb, rfl⟩ := Prod.mk.inj (hrun.symm.trans hrun')
  cases hb
  exact hQ

end Rules

section Loops

variable {ι : Type} {body : ι → Prog σ ε Unit} {mem mem' : Memory σ}

/-- A loop over a list keeps what each of its rounds keeps. -/
lemma run_forEach_keeps {is : List ι} (I : Memory σ → Prop)
    (h : ∀ i ∈ is, ∀ mem mem', I mem → (body i).run mem = (.ok (), mem') → I mem') (hmem : I mem)
    (hrun : (forEach body is).run mem = (.ok (), mem')) : I mem' := by
  induction is generalizing mem with
  | nil =>
    cases hrun
    exact hmem
  | cons i is ih =>
    rw [forEach, Prog.run_bind] at hrun
    rcases hbody : (body i).run mem with ⟨_ | _, mem₁⟩
    · rw [hbody] at hrun
      cases hrun
    · rw [hbody] at hrun
      have hmem₁ := h i List.mem_cons_self mem mem₁ hmem hbody
      exact ih (fun j hj => h j (List.mem_cons_of_mem i hj)) hmem₁ hrun

/-- The run of a loop over a list, cut at one of its rounds. -/
lemma run_forEach_append {pre post : List ι} {i : ι}
    (hrun : (forEach body (pre ++ i :: post)).run mem = (.ok (), mem')) :
    ∃ mem₁ mem₂, (forEach body pre).run mem = (.ok (), mem₁) ∧ (body i).run mem₁ = (.ok (), mem₂) ∧
      (forEach body post).run mem₂ = (.ok (), mem') := by
  induction pre generalizing mem with
  | nil =>
    rw [List.nil_append, forEach, Prog.run_bind] at hrun
    rcases hbody : (body i).run mem with ⟨_ | _, mem₂⟩
    · rw [hbody] at hrun
      cases hrun
    · rw [hbody] at hrun
      exact ⟨mem, mem₂, rfl, hbody, hrun⟩
  | cons j pre ih =>
    rw [List.cons_append, forEach, Prog.run_bind] at hrun
    rcases hbody : (body j).run mem with ⟨_ | _, mem₀⟩
    · rw [hbody] at hrun
      cases hrun
    · rw [hbody] at hrun
      obtain ⟨mem₁, mem₂, hpre, hi, hpost⟩ := ih hrun
      refine ⟨mem₁, mem₂, ?_, hi, hpost⟩
      rw [forEach, Prog.run_bind, hbody]
      exact hpre

end Loops

/-! ## Words -/

/-- The four bytes at an address, as a bit pattern. -/
def Memory.word (mem : Memory σ) (space : σ) (addr : ℕ) : UInt32 :=
  UInt32.ofNat (leNat (mem.bytes space addr 4))

omit [DecidableEq σ] in
/-- Bytes of memory, one by one. -/
lemma Memory.bytes_getElem? (mem : Memory σ) {space : σ} {addr len i : ℕ} (hi : i < len) :
    (mem.bytes space addr len)[i]? = some (mem space (addr + i)) := by
  rw [Memory.bytes, List.getElem?_map, List.getElem?_range hi, Option.map_some]

omit [DecidableEq σ] in
lemma Memory.bytes_congr {mem mem' : Memory σ} {space : σ} {addr len : ℕ}
    (h : ∀ i < len, mem space (addr + i) = mem' space (addr + i)) :
    mem.bytes space addr len = mem'.bytes space addr len := by
  apply List.map_congr_left
  intro i hi
  exact h i (List.mem_range.mp hi)

omit [DecidableEq σ] in
lemma Memory.word_congr {mem mem' : Memory σ} {space : σ} {addr : ℕ}
    (h : ∀ i < 4, mem space (addr + i) = mem' space (addr + i)) :
    mem.word space addr = mem'.word space addr := by
  rw [Memory.word, Memory.word, Memory.bytes_congr h]

section Words

variable (mem : Memory σ) {space : σ} {addr : ℕ}

/-- A store leaves every byte outside alone. -/
lemma Memory.put_apart {bytes : List UInt8} {space' : σ} {i : ℕ}
    (h : space' ≠ space ∨ i < addr ∨ addr + bytes.length ≤ i) :
    mem.put space addr bytes space' i = mem space' i := by
  unfold Memory.put
  split_ifs with hin
  · have hle : bytes.length ≤ i - addr := by
      rcases h with hne | hlow | hhigh
      · exact absurd hin.1 hne
      · exact absurd hlow (Nat.not_lt.mpr hin.2)
      · omega
    rw [List.getD_eq_getElem?_getD, List.getElem?_eq_none hle, Option.getD_none]
  · rfl

/-- The bytes that are stored. -/
lemma Memory.put_inside {bytes : List UInt8} {i : ℕ} {byte : UInt8} (hi : bytes[i]? = some byte) :
    mem.put space addr bytes space (addr + i) = byte := by
  unfold Memory.put
  rw [if_pos ⟨rfl, Nat.le_add_right addr i⟩, Nat.add_sub_cancel_left, List.getD_eq_getElem?_getD, hi,
    Option.getD_some]

/-- The word that is stored. -/
lemma Memory.word_put (w : UInt32) : (mem.put space addr (leBytes 4 w.toNat)).word space addr = w := by
  have hbytes : (mem.put space addr (leBytes 4 w.toNat)).bytes space addr 4 = leBytes 4 w.toNat := by
    apply List.ext_getElem?
    intro i
    rcases Nat.lt_or_ge i 4 with hi | hi
    · have hlen : i < (leBytes 4 w.toNat).length := by rwa [length_leBytes]
      rw [Memory.bytes_getElem? _ hi, List.getElem?_eq_getElem hlen]
      exact congrArg some (mem.put_inside (List.getElem?_eq_getElem hlen))
    · rw [List.getElem?_eq_none (by rwa [Memory.length_bytes]),
        List.getElem?_eq_none (by rwa [length_leBytes])]
  rw [Memory.word, hbytes, leNat_leBytes_of_lt w.toNat_lt, UInt32.ofNat_toNat]

end Words

/-! ## Arrays of words -/

/-- The first `n` words at an address are those of `words`, and every byte outside them is that of
`mem`. -/
structure Fills (space : σ) (addr n : ℕ) (words : ℕ → UInt32) (mem mem' : Memory σ) : Prop where
  /-- The words. -/
  inside : ∀ i < n, mem'.word space (addr + 4 * i) = words i
  /-- The rest. -/
  outside : ∀ space' i, space' ≠ space ∨ i < addr ∨ addr + 4 * n ≤ i → mem' space' i = mem space' i

section FillsRules

variable {space : σ} {addr n : ℕ} {words : ℕ → UInt32} {mem mem' : Memory σ}

omit [DecidableEq σ] in
lemma fills_zero : Fills space addr 0 words mem mem :=
  ⟨fun i hi => absurd hi (Nat.not_lt_zero i), fun _ _ _ => rfl⟩

omit [DecidableEq σ] in
/-- Another space is left alone. -/
lemma Fills.word_of_ne (h : Fills space addr n words mem mem') {space' : σ} (hne : space' ≠ space)
    (a : ℕ) : mem'.word space' a = mem.word space' a :=
  Memory.word_congr fun i _ => h.outside space' (a + i) (Or.inl hne)

/-- A store of the next word. -/
lemma Fills.store (h : Fills space addr n words mem mem') {w : UInt32} (hw : w = words n) :
    Fills space addr (n + 1) words mem (mem'.put space (addr + 4 * n) (leBytes 4 w.toNat)) := by
  have hlen : (leBytes 4 w.toNat).length = 4 := length_leBytes 4 _
  constructor
  · intro i hi
    rcases Nat.lt_or_ge i n with hlt | hge
    · rw [← h.inside i hlt]
      apply Memory.word_congr
      intro j hj
      exact mem'.put_apart (Or.inr (Or.inl (by omega)))
    · obtain rfl : i = n := by omega
      rw [Memory.word_put, hw]
  · rintro space' i (hne | hlow | hhigh)
    · rw [mem'.put_apart (Or.inl hne)]
      exact h.outside space' i (Or.inl hne)
    · rw [mem'.put_apart (Or.inr (Or.inl (by omega)))]
      exact h.outside space' i (Or.inr (Or.inl hlow))
    · rw [mem'.put_apart (Or.inr (Or.inr (by omega)))]
      exact h.outside space' i (Or.inr (Or.inr (by omega)))

/-- A copy of as many words from another place. -/
lemma fills_copy {src : σ} {start : ℕ} :
    Fills space addr n (fun i => mem.word src (start + 4 * i)) mem
      (mem.put space addr (mem.bytes src start (4 * n))) := by
  have hlen : (mem.bytes src start (4 * n)).length = 4 * n := mem.length_bytes src start (4 * n)
  constructor
  · intro i hi
    unfold Memory.word
    congr 2
    apply List.map_congr_left
    intro j hj
    have hj := List.mem_range.mp hj
    rw [Nat.add_assoc addr, Nat.add_assoc start]
    exact mem.put_inside (Memory.bytes_getElem? mem (by omega))
  · rintro space' i (hne | hlow | hhigh)
    · exact mem.put_apart (Or.inl hne)
    · exact mem.put_apart (Or.inr (Or.inl hlow))
    · exact mem.put_apart (Or.inr (Or.inr (by omega)))

end FillsRules

end Footprint
