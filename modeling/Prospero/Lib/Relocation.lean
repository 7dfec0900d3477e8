import Mathlib.Data.List.GetD
import Mathlib.Data.Set.Basic
import Prospero.Lib.Extents
import Prospero.Lib.Footprint

/-!
# Programs under two layouts

Objects lie at one address under a left and at another under a right layout.  Two programs track each other if
they make the same accesses up to the layout, load only bytes that are known to agree, and store only to
outputs, which no other object overlaps under either layout.  A stored byte is known from then on, so the known
bytes only grow (`Tracks.grow`).

Programs that track each other have the same outcome from memories that agree on the known bytes, and agree on
all that is known at the end (`Tracks.run`); what is outside the outputs is left alone (`Tracks.frame`).
-/

namespace Footprint

variable {σ ι ε α β : Type}

/-- Two layouts of the same objects. -/
structure Relocation (ι : Type) where
  /-- Addresses on the left. -/
  left : ι → ℕ
  /-- Addresses on the right. -/
  right : ι → ℕ
  /-- Numbers of bytes. -/
  size : ι → ℕ
  /-- The objects in use. -/
  used : Set ι
  /-- The objects that may be written. -/
  out : Set ι
  /-- Outputs are in use. -/
  out_used : ∀ u ∈ out, u ∈ used
  /-- Nothing overlaps an output on the left. -/
  left_apart : ∀ u ∈ out, ∀ v ∈ used, v ≠ u → Extent.Apart ⟨left u, size u⟩ ⟨left v, size v⟩
  /-- Nothing overlaps an output on the right. -/
  right_apart : ∀ u ∈ out, ∀ v ∈ used, v ≠ u → Extent.Apart ⟨right u, size u⟩ ⟨right v, size v⟩

/-- Bytes of objects, by object and position. -/
abbrev Cells (ι : Type) := Set (ι × ℕ)

/-- `n` bytes of an object from a position on. -/
def span (v : ι) (o n : ℕ) : Cells ι := {x | x.1 = v ∧ o ≤ x.2 ∧ x.2 < o + n}

/-- `n` bytes of an object from a position on are known. -/
def Known (S : Cells ι) (v : ι) (o n : ℕ) : Prop := ∀ i < n, (v, o + i) ∈ S

namespace Relocation

variable (r : Relocation ι)

/-- The bytes of the objects in use. -/
def cells : Cells ι := {x | x.1 ∈ r.used ∧ x.2 < r.size x.1}

/-- Two addresses of the same byte. -/
def At (v : ι) (o p p' : ℕ) : Prop := p = r.left v + o ∧ p' = r.right v + o

/-- `n` bytes of an object from a position on may be written. -/
def Writable (v : ι) (o n : ℕ) : Prop := v ∈ r.out ∧ o + n ≤ r.size v

/-- Two memories agree on the listed bytes. -/
def Agree (space : σ) (S : Cells ι) (mem mem' : Memory σ) : Prop :=
  ∀ x ∈ S, mem space (r.left x.1 + x.2) = mem' space (r.right x.1 + x.2)

end Relocation

/-- Two programs that make the same accesses up to the layout, from known bytes `S`; `Q` is what holds of the
result and the bytes known then. -/
inductive Tracks (space : σ) (r : Relocation ι) (Q : α → Cells ι → Prop) :
    Cells ι → Prog σ ε α → Prog σ ε α → Prop where
  /-- Both return. -/
  | ret {S : Cells ι} {a : α} (h : Q a S) : Tracks space r Q S (.ret a) (.ret a)
  /-- Both fail. -/
  | fail {S : Cells ι} {e : ε} : Tracks space r Q S (.fail e) (.fail e)
  /-- Both load known bytes. -/
  | load {S : Cells ι} {v : ι} {o p p' len : ℕ} {next next' : List UInt8 → Prog σ ε α}
    (hat : r.At v o p p') (hknown : Known S v o len)
    (hnext : ∀ bs, bs.length = len → Tracks space r Q S (next bs) (next' bs)) :
    Tracks space r Q S (.load space p len next) (.load space p' len next')
  /-- Both store to an output. -/
  | store {S : Cells ι} {v : ι} {o p p' : ℕ} {bytes : List UInt8} {next next' : Prog σ ε α}
    (hat : r.At v o p p') (hwrite : r.Writable v o bytes.length)
    (hnext : Tracks space r Q (S ∪ span v o bytes.length) next next') :
    Tracks space r Q S (.store space p bytes next) (.store space p' bytes next')

/-! ## Known bytes -/

section Known

variable {S T : Cells ι} {v : ι} {o n : ℕ}

lemma Known.mono (h : Known S v o n) (hle : S ⊆ T) : Known T v o n := fun i hi => hle (h i hi)

lemma Known.part (h : Known S v o n) {k m : ℕ} (hle : k + m ≤ n) : Known S v (o + k) m := by
  intro i hi
  rw [Nat.add_assoc]
  exact h (k + i) (by omega)

lemma Known.of_le (h : Known S v o n) {m : ℕ} (hle : m ≤ n) : Known S v o m := fun i hi => h i (by omega)

lemma known_zero : Known S v o 0 := fun _ hi => absurd hi (Nat.not_lt_zero _)

lemma known_span : Known (S ∪ span v o n) v o n :=
  fun i hi => Or.inr ⟨rfl, by omega, by omega⟩

/-- Known bytes behind one another. -/
lemma Known.append (h : Known S v o n) {m : ℕ} (h' : Known S v (o + n) m) : Known S v o (n + m) := by
  intro i hi
  rcases Nat.lt_or_ge i n with hlt | hge
  · exact h i hlt
  · have hmem := h' (i - n) (by omega)
    rwa [show o + n + (i - n) = o + i by omega] at hmem

lemma Relocation.At.shift {r : Relocation ι} {p p' : ℕ} (h : r.At v o p p') (k : ℕ) :
    r.At v (o + k) (p + k) (p' + k) :=
  ⟨by rw [h.1, Nat.add_assoc], by rw [h.2, Nat.add_assoc]⟩

lemma Relocation.Writable.part {r : Relocation ι} (h : r.Writable v o n) {k m : ℕ} (hle : k + m ≤ n) :
    r.Writable v (o + k) m :=
  ⟨h.1, by have hn := h.2; omega⟩

lemma Relocation.Writable.span_subset {r : Relocation ι} (h : r.Writable v o n) : span v o n ⊆ r.cells := by
  rintro ⟨u, i⟩ ⟨rfl, -, hi⟩
  exact ⟨r.out_used _ h.1, lt_of_lt_of_le hi h.2⟩

end Known

/-! ## Rules -/

section Rules

variable {space : σ} {r : Relocation ι} {S : Cells ι}

/-- What is known stays known. -/
lemma Tracks.grow {Q : α → Cells ι → Prop} {m m' : Prog σ ε α} (h : Tracks space r Q S m m') :
    Tracks space r (fun a T => S ⊆ T ∧ Q a T) S m m' := by
  have hfrom (S₀ : Cells ι) : S₀ ⊆ S → Tracks space r (fun a T => S₀ ⊆ T ∧ Q a T) S m m' := by
    induction h with
    | ret h => exact fun hle => .ret ⟨hle, h⟩
    | fail => exact fun _ => .fail
    | load hat hknown _ ih => exact fun hle => .load hat hknown fun bs hbs => ih bs hbs hle
    | store hat hwrite _ ih => exact fun hle => .store hat hwrite (ih (hle.trans Set.subset_union_left))
  exact hfrom S subset_rfl

lemma Tracks.mono {Q Q' : α → Cells ι → Prop} {m m' : Prog σ ε α} (h : Tracks space r Q S m m')
    (hle : ∀ a T, Q a T → Q' a T) : Tracks space r Q' S m m' := by
  induction h with
  | ret h => exact .ret (hle _ _ h)
  | fail => exact .fail
  | load hat hknown _ ih => exact .load hat hknown ih
  | store hat hwrite _ ih => exact .store hat hwrite ih

lemma Tracks.bind {R : α → Cells ι → Prop} {Q : β → Cells ι → Prop} {m m' : Prog σ ε α}
    {f f' : α → Prog σ ε β} (hm : Tracks space r R S m m')
    (hf : ∀ a T, S ⊆ T → R a T → Tracks space r Q T (f a) (f' a)) : Tracks space r Q S (m >>= f) (m' >>= f') := by
  change Tracks space r Q S (m.bind f) (m'.bind f')
  suffices hfrom : ∀ S₀ : Cells ι, S₀ ⊆ S → (∀ a T, S₀ ⊆ T → R a T → Tracks space r Q T (f a) (f' a)) →
      Tracks space r Q S (m.bind f) (m'.bind f') from hfrom S subset_rfl hf
  clear hf
  induction hm with
  | ret h => exact fun S₀ hle hf => hf _ _ hle h
  | fail => exact fun _ _ _ => .fail
  | load hat hknown _ ih => exact fun S₀ hle hf => .load hat hknown fun bs hbs => ih bs hbs S₀ hle hf
  | store hat hwrite _ ih =>
    exact fun S₀ hle hf => .store hat hwrite (ih S₀ (hle.trans Set.subset_union_left) hf)

lemma tracks_loadBytes {v : ι} {o p p' len : ℕ} (hat : r.At v o p p') (hknown : Known S v o len) :
    Tracks space r (fun bs T => bs.length = len ∧ T = S) S
      (loadBytes space p len : Prog σ ε (List UInt8)) (loadBytes space p' len) :=
  .load hat hknown fun _ hbs => .ret ⟨hbs, rfl⟩

lemma tracks_storeBytes {v : ι} {o p p' : ℕ} {bytes : List UInt8} (hat : r.At v o p p')
    (hwrite : r.Writable v o bytes.length) :
    Tracks space r (fun _ T => Known T v o bytes.length) S
      (storeBytes space p bytes : Prog σ ε Unit) (storeBytes space p' bytes) :=
  .store hat hwrite (.ret known_span)

/-- A loop whose rounds keep an invariant about the value it carries, the round and the known bytes. -/
lemma tracks_foldFor {I : β → ℕ → Cells ι → Prop} {lo n : ℕ} {b : β} {body body' : β → ℕ → Prog σ ε β}
    (hb : I b lo S) (h : ∀ b i T, S ⊆ T → lo ≤ i → i < lo + n → I b i T →
      Tracks space r (fun b T => I b (i + 1) T) T (body b i) (body' b i)) :
    Tracks space r (fun b T => I b (lo + n) T) S (foldFor lo n b body) (foldFor lo n b body') := by
  induction n generalizing lo b S with
  | zero => exact .ret hb
  | succ n ih =>
    refine Tracks.bind (h b lo S subset_rfl le_rfl (by omega) hb) fun b T hle hb => ?_
    rw [show lo + (n + 1) = lo + 1 + n by omega]
    exact ih hb fun b i T' hle' hlo hi => h b i T' (hle.trans hle') (by omega) (by omega)

lemma tracks_forUpTo {I : ℕ → Cells ι → Prop} {n : ℕ} {body body' : ℕ → Prog σ ε Unit} (h0 : I 0 S)
    (h : ∀ i T, S ⊆ T → i < n → I i T → Tracks space r (fun _ T => I (i + 1) T) T (body i) (body' i)) :
    Tracks space r (fun _ T => I n T) S (forUpTo n body) (forUpTo n body') := by
  have hfold : Tracks space r (fun _ T => I (0 + n) T) S (forUpTo n body) (forUpTo n body') :=
    tracks_foldFor (I := fun (_ : Unit) i T => I i T) h0 fun _ i T hle _ hi hI =>
      h i T hle (by omega) hI
  rwa [Nat.zero_add] at hfold

end Rules

/-! ## Runs -/

section Runs

variable [DecidableEq σ] {space : σ} {r : Relocation ι} {S : Cells ι} {mem mem' : Memory σ}

/-- What a store leaves at an address. -/
lemma Memory.put_eq {space' : σ} {addr k : ℕ} {bytes : List UInt8} :
    mem.put space addr bytes space' k =
      if space' = space ∧ addr ≤ k ∧ k < addr + bytes.length then bytes.getD (k - addr) 0
      else mem space' k := by
  unfold Memory.put
  by_cases hin : space' = space ∧ addr ≤ k ∧ k < addr + bytes.length
  · obtain ⟨hs, hle, hlt⟩ := hin
    have hget : k - addr < bytes.length := by omega
    rw [if_pos ⟨hs, hle⟩, if_pos ⟨hs, hle, hlt⟩, List.getD_eq_getElem _ _ hget, List.getD_eq_getElem _ _ hget]
  · rw [if_neg hin]
    split_ifs with h
    · exact List.getD_eq_default _ _ (by
        have hnot : ¬ k < addr + bytes.length := fun hlt => hin ⟨h.1, h.2, hlt⟩
        omega)
    · rfl

omit [DecidableEq σ] in
/-- Memories that agree on an object give the same bytes. -/
lemma Relocation.Agree.bytes {v : ι} {o p p' len : ℕ} (h : r.Agree space S mem mem') (hat : r.At v o p p')
    (hknown : Known S v o len) : mem.bytes space p len = mem'.bytes space p' len := by
  refine List.map_congr_left fun i hi => ?_
  have hbyte := h _ (hknown i (List.mem_range.mp hi))
  rw [hat.1, hat.2, Nat.add_assoc, Nat.add_assoc]
  exact hbyte

/-- An address inside an output is the address of no other known byte. -/
lemma same_byte {b size : ι → ℕ} {u v : ι} {o len j : ℕ}
    (hapart : v ≠ u → Extent.Apart ⟨b u, size u⟩ ⟨b v, size v⟩) (hj : j < size v) (hlen : o + len ≤ size u) :
    (b u + o ≤ b v + j ∧ b v + j < b u + o + len) ↔ (v = u ∧ o ≤ j ∧ j < o + len) := by
  constructor
  · rintro ⟨hlo, hhi⟩
    by_cases hne : v = u
    · subst hne
      exact ⟨rfl, by omega, by omega⟩
    · refine absurd (⟨by dsimp only; omega, by dsimp only; omega⟩ : Extent.Has ⟨b v, size v⟩ (b v + j)) ?_
      exact hapart hne _ ⟨by dsimp only; omega, by dsimp only; omega⟩
  · rintro ⟨rfl, hlo, hhi⟩
    omega

/-- A store of the same bytes keeps the agreement and extends it. -/
lemma Relocation.Agree.put {v : ι} {o p p' : ℕ} {bytes : List UInt8} (h : r.Agree space S mem mem')
    (hS : S ⊆ r.cells) (hat : r.At v o p p') (hwrite : r.Writable v o bytes.length) :
    r.Agree space (S ∪ span v o bytes.length) (mem.put space p bytes) (mem'.put space p' bytes) := by
  rintro ⟨w, j⟩ hx
  obtain ⟨hused, hj⟩ : w ∈ r.used ∧ j < r.size w := by
    rcases hx with hx | hx
    · exact hS hx
    · exact hwrite.span_subset hx
  have hleft := same_byte (b := r.left) (r.left_apart v hwrite.1 w hused) hj hwrite.2
  have hright := same_byte (b := r.right) (r.right_apart v hwrite.1 w hused) hj hwrite.2
  rw [Memory.put_eq, Memory.put_eq, hat.1, hat.2]
  by_cases hin : w = v ∧ o ≤ j ∧ j < o + bytes.length
  · rw [if_pos ⟨rfl, hleft.mpr hin⟩, if_pos ⟨rfl, hright.mpr hin⟩]
    obtain ⟨rfl, -⟩ := hin
    congr 1
    simp only
    omega
  · rw [if_neg fun hpos => hin (hleft.mp hpos.2), if_neg fun hpos => hin (hright.mp hpos.2)]
    exact h _ (hx.resolve_right hin)

/-- Programs that track each other have the same outcome, and agree on what is known at the end. -/
theorem Tracks.run {Q : α → Cells ι → Prop} {m m' : Prog σ ε α} (h : Tracks space r Q S m m') (hS : S ⊆ r.cells)
    (hmem : r.Agree space S mem mem') :
    (m.run mem).1 = (m'.run mem').1 ∧
      ∀ a, (m.run mem).1 = .ok a → ∃ T, Q a T ∧ r.Agree space T (m.run mem).2 (m'.run mem').2 := by
  induction h generalizing mem mem' with
  | ret h => exact ⟨rfl, fun a ha => Except.ok.inj ha ▸ ⟨_, h, hmem⟩⟩
  | fail => exact ⟨rfl, fun a ha => nomatch ha⟩
  | load hat hknown _ ih =>
    rw [Prog.run, Prog.run, ← hmem.bytes hat hknown]
    exact ih _ (Memory.length_bytes ..) hS hmem
  | store hat hwrite _ ih =>
    exact ih (Set.union_subset hS hwrite.span_subset) (hmem.put hS hat hwrite)

/-- The left program leaves alone what no output occupies. -/
theorem Tracks.frame {Q : α → Cells ι → Prop} {m m' : Prog σ ε α} (h : Tracks space r Q S m m') {space' : σ} {k : ℕ}
    (hk : space' = space → ∀ u ∈ r.out, ¬ Extent.Has ⟨r.left u, r.size u⟩ k) :
    (m.run mem).2 space' k = mem space' k := by
  induction h generalizing mem with
  | ret => rfl
  | fail => rfl
  | load hat hknown _ ih => exact ih _ (Memory.length_bytes ..)
  | @store S v o p p' bytes next next' hat hwrite _ ih =>
    rw [Prog.run, ih, Memory.put_eq, if_neg]
    rintro ⟨hs, hlo, hhi⟩
    refine hk hs v hwrite.1 ⟨?_, ?_⟩
    · have hp := hat.1
      dsimp only
      omega
    · have hp := hat.1
      have hsize := hwrite.2
      dsimp only
      omega

end Runs

end Footprint
