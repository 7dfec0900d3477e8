import Mathlib.Data.Set.Basic
import Prospero.Lib.Relocation

/-!
# What the outcome of a program depends on

`Determined keep Q S m` says that from memories that agree on the bytes `S`, the program `m` has the same
outcome: it loads only bytes that are known to agree, and what it stores or what a call leaves is known from
then on.  Beside that it leaves the bytes `keep` alone.  There is one rule for each way to build a program; a
call comes with a contract (`CallKeeps`).

`Determined.run` carries this over to two runs, `Determined.run_keep` to one.
-/

namespace Footprint

variable {σ ε α β : Type}

/-- Two memories agree on the listed bytes. -/
def AgreeOn (S : Set (σ × ℕ)) (mem mem' : Memory σ) : Prop := ∀ x ∈ S, mem x.1 x.2 = mem' x.1 x.2

/-- `len` bytes of a space. -/
def bytesOf (space : σ) (addr len : ℕ) : Set (σ × ℕ) := {x | x.1 = space ∧ addr ≤ x.2 ∧ x.2 < addr + len}

lemma bytesOf_subset {space : σ} {addr len addr' len' : ℕ} (hlo : addr' ≤ addr)
    (hhi : addr + len ≤ addr' + len') : bytesOf space addr len ⊆ bytesOf space addr' len' :=
  fun _ hx => ⟨hx.1, hlo.trans hx.2.1, hx.2.2.trans_le hhi⟩

/-- From memories that agree on `S` a call returns the same status and leaves memories that agree on `T` of
it; it leaves the bytes `keep` alone. -/
structure CallKeeps (keep S : Set (σ × ℕ)) (T : Option ε → Set (σ × ℕ))
    (f : Memory σ → Option ε × Memory σ) : Prop where
  /-- The same status. -/
  status : ∀ mem mem', AgreeOn S mem mem' → (f mem).1 = (f mem').1
  /-- The same bytes. -/
  agree : ∀ mem mem', AgreeOn S mem mem' → AgreeOn (T (f mem).1) (f mem).2 (f mem').2
  /-- The kept bytes. -/
  kept : ∀ mem, AgreeOn keep (f mem).2 mem

/-- The outcome of a program is determined by the bytes `S`, and `Q` holds of its result and what is known
then; the bytes `keep` are left alone. -/
inductive Determined (keep : Set (σ × ℕ)) (Q : α → Set (σ × ℕ) → Prop) :
    Set (σ × ℕ) → Prog σ ε α → Prop where
  /-- Return. -/
  | ret {S : Set (σ × ℕ)} {a : α} (h : Q a S) : Determined keep Q S (.ret a)
  /-- Fail. -/
  | fail {S : Set (σ × ℕ)} {e : ε} : Determined keep Q S (.fail e)
  /-- Load known bytes. -/
  | load {S : Set (σ × ℕ)} {space : σ} {addr len : ℕ} {next : List UInt8 → Prog σ ε α}
    (hknown : bytesOf space addr len ⊆ S) (hnext : ∀ bs, bs.length = len → Determined keep Q S (next bs)) :
    Determined keep Q S (.load space addr len next)
  /-- Store. -/
  | store {S : Set (σ × ℕ)} {space : σ} {addr : ℕ} {bytes : List UInt8} {next : Prog σ ε α}
    (hkeep : ∀ x ∈ bytesOf space addr bytes.length, x ∉ keep)
    (hnext : Determined keep Q (S ∪ bytesOf space addr bytes.length) next) :
    Determined keep Q S (.store space addr bytes next)
  /-- Call another component. -/
  | call {S : Set (σ × ℕ)} {T : Option ε → Set (σ × ℕ)} {f : Memory σ → Option ε × Memory σ}
    {next : Option ε → Prog σ ε α} (hf : CallKeeps keep S T f)
    (hnext : ∀ r, Determined keep Q (T r) (next r)) : Determined keep Q S (.call f next)

/-! ## Rules -/

section Rules

variable {keep S : Set (σ × ℕ)}

lemma Determined.mono {Q Q' : α → Set (σ × ℕ) → Prop} {m : Prog σ ε α} (h : Determined keep Q S m)
    (hle : ∀ a T, Q a T → Q' a T) : Determined keep Q' S m := by
  induction h with
  | ret h => exact .ret (hle _ _ h)
  | fail => exact .fail
  | load hknown _ ih => exact .load hknown ih
  | store hkeep _ ih => exact .store hkeep ih
  | call hf _ ih => exact .call hf ih

lemma Determined.bind {R : α → Set (σ × ℕ) → Prop} {Q : β → Set (σ × ℕ) → Prop} {m : Prog σ ε α}
    {f : α → Prog σ ε β} (hm : Determined keep R S m) (hf : ∀ a T, R a T → Determined keep Q T (f a)) :
    Determined keep Q S (m >>= f) := by
  change Determined keep Q S (m.bind f)
  induction hm with
  | ret h => exact hf _ _ h
  | fail => exact .fail
  | load hknown _ ih => exact .load hknown ih
  | store hkeep _ ih => exact .store hkeep ih
  | call hcall _ ih => exact .call hcall ih

lemma determined_loadBytes {space : σ} {addr len : ℕ} (hknown : bytesOf space addr len ⊆ S) :
    Determined keep (fun bs T => bs.length = len ∧ T = S) S
      (loadBytes space addr len : Prog σ ε (List UInt8)) :=
  .load hknown fun _ hbs => .ret ⟨hbs, rfl⟩

lemma determined_storeBytes {space : σ} {addr : ℕ} {bytes : List UInt8}
    (hkeep : ∀ x ∈ bytesOf space addr bytes.length, x ∉ keep) :
    Determined keep (fun _ T => T = S ∪ bytesOf space addr bytes.length) S
      (storeBytes space addr bytes : Prog σ ε Unit) :=
  .store hkeep (.ret rfl)

lemma determined_callOther {T : Option ε → Set (σ × ℕ)} {f : Memory σ → Option ε × Memory σ}
    (hf : CallKeeps keep S T f) :
    Determined keep (fun r U => U = T r) S (callOther f : Prog σ ε (Option ε)) :=
  .call hf fun _ => .ret rfl

end Rules

/-! ## Runs -/

section Runs

variable [DecidableEq σ] {keep S : Set (σ × ℕ)} {mem mem' : Memory σ}

omit [DecidableEq σ] in
lemma AgreeOn.bytes {space : σ} {addr len : ℕ} (h : AgreeOn S mem mem') (hknown : bytesOf space addr len ⊆ S) :
    mem.bytes space addr len = mem'.bytes space addr len := by
  refine List.map_congr_left fun i hi => ?_
  have hi := List.mem_range.mp hi
  exact h (space, addr + i) (hknown ⟨rfl, by dsimp only; omega, by dsimp only; omega⟩)

/-- The same store to both. -/
lemma AgreeOn.put {space : σ} {addr : ℕ} {bytes : List UInt8} (h : AgreeOn S mem mem') :
    AgreeOn (S ∪ bytesOf space addr bytes.length) (mem.put space addr bytes) (mem'.put space addr bytes) := by
  rintro ⟨space', k⟩ hx
  dsimp only
  rw [Memory.put_eq, Memory.put_eq]
  by_cases hin : space' = space ∧ addr ≤ k ∧ k < addr + bytes.length
  · rw [if_pos hin, if_pos hin]
  · rw [if_neg hin, if_neg hin]
    exact h _ (hx.resolve_right hin)

/-- From memories that agree on what determines a program, the outcome is the same. -/
theorem Determined.run {Q : α → Set (σ × ℕ) → Prop} {m : Prog σ ε α} (h : Determined keep Q S m)
    (hmem : AgreeOn S mem mem') : (m.run mem).1 = (m.run mem').1 := by
  induction h generalizing mem mem' with
  | ret h => rfl
  | fail => rfl
  | load hknown _ ih =>
    rw [Prog.run, Prog.run, ← hmem.bytes hknown]
    exact ih _ (Memory.length_bytes ..) hmem
  | store hkeep _ ih => exact ih hmem.put
  | call hf _ ih =>
    rw [Prog.run, Prog.run, ← hf.status _ _ hmem]
    exact ih _ (hf.agree _ _ hmem)

/-- The kept bytes are left alone. -/
theorem Determined.run_keep {Q : α → Set (σ × ℕ) → Prop} {m : Prog σ ε α} (h : Determined keep Q S m)
    (mem : Memory σ) : AgreeOn keep (m.run mem).2 mem := by
  induction h generalizing mem with
  | ret h => exact fun _ _ => rfl
  | fail => exact fun _ _ => rfl
  | load hknown _ ih => exact ih _ (Memory.length_bytes ..) mem
  | @store S space addr bytes next hkeep _ ih =>
    rintro ⟨space', k⟩ hx
    have hout : ¬ (space' = space ∧ addr ≤ k ∧ k < addr + bytes.length) := fun hin => hkeep _ hin hx
    refine (ih (mem.put space addr bytes) _ hx).trans ?_
    dsimp only
    rw [Memory.put_eq, if_neg hout]
  | @call S T f next hf _ ih => exact fun x hx => (ih (f mem).1 (f mem).2 x hx).trans (hf.kept mem x hx)

end Runs

end Footprint
