import Prospero.Lib.Buffer
import Prospero.Lib.Bytes

/-!
# Checked reading

A decoder reads a byte string at indices it computes from the bytes it has read so far.  In `Read` a
read outside the byte string is an outcome of its own (`Stop.outOfRange`), apart from the errors the
decoder returns (`Stop.fail`), so that a decoder can be shown never to read outside its input.

`Post m Q` says that `m` reads inside its input and that its result, if it has one, satisfies `Q`;
there is one rule for each way to build a computation (`Ends` speaks about the errors too).
`Holds data off bs` says that the byte string
has `bs` at `off`; it determines what a read returns.
-/

namespace Reader

open Buffer ByteString

/-- Why a reading computation stops without a result. -/
inductive Stop (ε : Type) where
  /-- A byte outside the input was read. -/
  | outOfRange
  /-- The decoder returned an error. -/
  | fail (e : ε)
deriving DecidableEq

/-- A computation that reads a byte string. -/
abbrev Read (ε α : Type) := Except (Stop ε) α

variable {ε α β : Type}

/-- Return the error `e` when `c` holds. -/
def refuse (c : Prop) [Decidable c] (e : ε) : Read ε Unit :=
  if c then .error (.fail e) else .ok ()

/-- The `n` bytes from `off` on. -/
def bytesAt (data : List UInt8) (off n : ℕ) : Read ε (List UInt8) :=
  if off + n ≤ data.length then .ok (slice data off n) else .error .outOfRange

/-- The byte at `off`. -/
def u8At (data : List UInt8) (off : ℕ) : Read ε UInt8 := do
  let bs ← bytesAt data off 1
  .ok (UInt8.ofNat (leNat bs))

/-- The little-endian 16-bit number at `off`. -/
def u16At (data : List UInt8) (off : ℕ) : Read ε UInt16 := do
  let bs ← bytesAt data off 2
  .ok (UInt16.ofNat (leNat bs))

/-- The little-endian 32-bit number at `off`. -/
def u32At (data : List UInt8) (off : ℕ) : Read ε UInt32 := do
  let bs ← bytesAt data off 4
  .ok (UInt32.ofNat (leNat bs))

/-- The little-endian 64-bit number at `off`. -/
def u64At (data : List UInt8) (off : ℕ) : Read ε UInt64 := do
  let bs ← bytesAt data off 8
  .ok (UInt64.ofNat (leNat bs))

/-! ## Postconditions -/

/-- The computation reads inside its input, and its result satisfies `Q`. -/
def Post (m : Read ε α) (Q : α → Prop) : Prop :=
  match m with
  | .ok a => Q a
  | .error .outOfRange => False
  | .error (.fail _) => True

lemma Post.ne_outOfRange {m : Read ε α} {Q : α → Prop} (h : Post m Q) :
    m ≠ .error .outOfRange := by
  rintro rfl
  exact h

lemma Post.of_ok {m : Read ε α} {Q : α → Prop} (h : Post m Q) {a : α} (hm : m = .ok a) : Q a := by
  subst hm
  exact h

/-- A returned value satisfies what it satisfies. -/
lemma post_ok {a : α} {Q : α → Prop} (h : Q a) : Post (.ok a : Read ε α) Q := h

/-- A postcondition can be weakened. -/
lemma Post.mono {m : Read ε α} {P Q : α → Prop} (h : Post m P) (hPQ : ∀ a, P a → Q a) :
    Post m Q := by
  match m, h with
  | .ok a, h => exact hPQ a h
  | .error (.fail _), _ => trivial

/-- The rule for sequencing; the continuation may use that the first part returned `a`. -/
lemma Post.bind {m : Read ε α} {f : α → Read ε β} {P : α → Prop} {Q : β → Prop}
    (hm : Post m P) (hf : ∀ a, m = .ok a → P a → Post (f a) Q) : Post (m >>= f) Q := by
  match m, hm with
  | .ok a, ha => exact hf a rfl ha
  | .error (.fail _), _ => trivial

/-- After a check that refuses `c`, the rest may assume that `c` fails. -/
lemma post_refuse_bind {c : Prop} [Decidable c] {e : ε} {f : Unit → Read ε β} {Q : β → Prop}
    (hf : ¬ c → Post (f ()) Q) : Post (refuse c e >>= f) Q := by
  unfold refuse
  split_ifs with hc
  · trivial
  · exact hf hc

/-- Reading inside the input returns the bytes there. -/
lemma post_bytesAt {data : List UInt8} {off n : ℕ} (h : off + n ≤ data.length) :
    Post (bytesAt data off n : Read ε (List UInt8)) fun bs => bs = slice data off n := by
  rw [bytesAt, if_pos h]
  exact rfl

/-- Reading a byte inside the input succeeds. -/
lemma post_u8At {data : List UInt8} {off : ℕ} (h : off + 1 ≤ data.length) :
    Post (u8At data off : Read ε UInt8) fun _ => True :=
  Post.bind (post_bytesAt h) fun _ _ _ => trivial

/-- Reading a 16-bit number inside the input succeeds. -/
lemma post_u16At {data : List UInt8} {off : ℕ} (h : off + 2 ≤ data.length) :
    Post (u16At data off : Read ε UInt16) fun _ => True :=
  Post.bind (post_bytesAt h) fun _ _ _ => trivial

/-- Reading a 32-bit number inside the input succeeds. -/
lemma post_u32At {data : List UInt8} {off : ℕ} (h : off + 4 ≤ data.length) :
    Post (u32At data off : Read ε UInt32) fun _ => True :=
  Post.bind (post_bytesAt h) fun _ _ _ => trivial

/-- Reading a 64-bit number inside the input succeeds. -/
lemma post_u64At {data : List UInt8} {off : ℕ} (h : off + 8 ≤ data.length) :
    Post (u64At data off : Read ε UInt64) fun _ => True :=
  Post.bind (post_bytesAt h) fun _ _ _ => trivial

/-! ## Postconditions on the errors

`Ends E m Q` is `Post m Q` for a computation that stops only with an error that satisfies `E`. -/

/-- The computation reads inside its input, stops only with an error in `E`, and its result satisfies
`Q`. -/
def Ends (E : ε → Prop) (m : Read ε α) (Q : α → Prop) : Prop :=
  match m with
  | .ok a => Q a
  | .error .outOfRange => False
  | .error (.fail e) => E e

section Ends

variable {E : ε → Prop} {m : Read ε α} {P Q : α → Prop}

lemma Ends.of_ok (h : Ends E m Q) {a : α} (hm : m = .ok a) : Q a := by
  subst hm
  exact h

lemma Ends.ne_outOfRange (h : Ends E m Q) : m ≠ .error .outOfRange := by
  rintro rfl
  exact h

lemma Ends.of_fail (h : Ends E m Q) {e : ε} (hm : m = .error (.fail e)) : E e := by
  subst hm
  exact h

lemma ends_ok {a : α} (h : Q a) : Ends E (.ok a : Read ε α) Q := h

lemma ends_fail {e : ε} (h : E e) : Ends E (.error (.fail e) : Read ε α) Q := h

lemma Ends.mono (h : Ends E m P) (hPQ : ∀ a, P a → Q a) : Ends E m Q := by
  match m, h with
  | .ok a, h => exact hPQ a h
  | .error (.fail _), h => exact h

/-- The rule for sequencing. -/
lemma Ends.bind {f : α → Read ε β} {R : β → Prop} (hm : Ends E m P)
    (hf : ∀ a, m = .ok a → P a → Ends E (f a) R) : Ends E (m >>= f) R := by
  match m, hm with
  | .ok a, ha => exact hf a rfl ha
  | .error (.fail _), he => exact he

/-- After a check that refuses `c` with an error in `E`, the rest may assume that `c` fails. -/
lemma ends_refuse_bind {c : Prop} [Decidable c] {e : ε} {f : Unit → Read ε β} {R : β → Prop}
    (he : E e) (hf : ¬ c → Ends E (f ()) R) : Ends E (refuse c e >>= f) R := by
  unfold refuse
  split_ifs with hc
  · exact he
  · exact hf hc

lemma ends_bytesAt {data : List UInt8} {off n : ℕ} (h : off + n ≤ data.length) :
    Ends E (bytesAt data off n) fun bs => bs = slice data off n := by
  rw [bytesAt, if_pos h]
  exact rfl

lemma ends_u32At {data : List UInt8} {off : ℕ} (h : off + 4 ≤ data.length) :
    Ends E (u32At data off) fun _ => True :=
  Ends.bind (ends_bytesAt h) fun _ _ _ => trivial

lemma ends_u64At {data : List UInt8} {off : ℕ} (h : off + 8 ≤ data.length) :
    Ends E (u64At data off) fun _ => True :=
  Ends.bind (ends_bytesAt h) fun _ _ _ => trivial

end Ends

/-! ## Inputs with known bytes -/

/-- The byte string has `bs` at `off`. -/
def Holds (data : List UInt8) (off : ℕ) (bs : List UInt8) : Prop :=
  off + bs.length ≤ data.length ∧ slice data off bs.length = bs

/-- A byte string holds itself. -/
lemma holds_self (data : List UInt8) : Holds data 0 data := by
  refine ⟨by omega, ?_⟩
  rw [slice, List.drop_zero, List.take_length]

/-- Two adjacent parts are held one after the other. -/
lemma Holds.split {data : List UInt8} {off : ℕ} {a b : List UInt8} (h : Holds data off (a ++ b)) :
    Holds data off a ∧ Holds data (off + a.length) b := by
  obtain ⟨hle, hslice⟩ := h
  rw [List.length_append] at hle hslice
  rw [slice_add] at hslice
  have hlen : (slice data off a.length).length = a.length := length_slice (by omega)
  obtain ⟨ha, hb⟩ := List.append_inj hslice hlen
  exact ⟨⟨by omega, ha⟩, ⟨by omega, hb⟩⟩

lemma bytesAt_of_holds {data bs : List UInt8} {off n : ℕ} (h : Holds data off bs)
    (hn : bs.length = n) : (bytesAt data off n : Read ε (List UInt8)) = .ok bs := by
  subst hn
  rw [bytesAt, if_pos h.1, h.2]

/-- A leading byte is read back. -/
lemma Holds.u8 {data rest : List UInt8} {off : ℕ} {v : UInt8} (h : Holds data off (v :: rest)) :
    (u8At data off : Read ε UInt8) = .ok v ∧ Holds data (off + 1) rest := by
  obtain ⟨hv, hrest⟩ := Holds.split (a := [v]) h
  refine ⟨?_, hrest⟩
  rw [u8At, bytesAt_of_holds hv List.length_singleton]
  change Except.ok (UInt8.ofNat (v.toNat + 256 * 0)) = _
  rw [Nat.mul_zero, Nat.add_zero, UInt8.ofNat_toNat]

/-- A leading 16-bit number is read back. -/
lemma Holds.u16 {data rest : List UInt8} {off : ℕ} {v : UInt16}
    (h : Holds data off (u16le v ++ rest)) :
    (u16At data off : Read ε UInt16) = .ok v ∧ Holds data (off + 2) rest := by
  obtain ⟨hv, hrest⟩ := h.split
  rw [length_leBytes] at hrest
  refine ⟨?_, hrest⟩
  rw [u16At, bytesAt_of_holds hv (length_leBytes _ _)]
  change Except.ok (UInt16.ofNat (leNat (leBytes 2 v.toNat))) = _
  rw [leNat_leBytes_of_lt v.toNat_lt, UInt16.ofNat_toNat]

/-- A leading 32-bit number is read back. -/
lemma Holds.u32 {data rest : List UInt8} {off : ℕ} {v : UInt32}
    (h : Holds data off (u32le v ++ rest)) :
    (u32At data off : Read ε UInt32) = .ok v ∧ Holds data (off + 4) rest := by
  obtain ⟨hv, hrest⟩ := h.split
  rw [length_leBytes] at hrest
  refine ⟨?_, hrest⟩
  rw [u32At, bytesAt_of_holds hv (length_leBytes _ _)]
  change Except.ok (UInt32.ofNat (leNat (leBytes 4 v.toNat))) = _
  rw [leNat_leBytes_of_lt v.toNat_lt, UInt32.ofNat_toNat]

/-- A leading 64-bit number is read back. -/
lemma Holds.u64 {data rest : List UInt8} {off : ℕ} {v : UInt64}
    (h : Holds data off (u64le v ++ rest)) :
    (u64At data off : Read ε UInt64) = .ok v ∧ Holds data (off + 8) rest := by
  obtain ⟨hv, hrest⟩ := h.split
  rw [length_leBytes] at hrest
  refine ⟨?_, hrest⟩
  rw [u64At, bytesAt_of_holds hv (length_leBytes _ _)]
  change Except.ok (UInt64.ofNat (leNat (leBytes 8 v.toNat))) = _
  rw [leNat_leBytes_of_lt v.toNat_lt, UInt64.ofNat_toNat]

/-! ## Running on known input -/

@[simp] lemma ok_bind {σ : Type} (a : α) (f : α → Except σ β) :
    ((Except.ok a : Except σ α) >>= f) = f a := rfl

lemma refuse_bind {c : Prop} [Decidable c] {e : ε} (f : Unit → Read ε β) (hc : ¬ c) :
    (refuse c e >>= f) = f () := by
  rw [refuse, if_neg hc]
  rfl

/-! ## Inversion -/

/-- A sequence that returns ran both of its parts. -/
lemma bind_eq_ok {σ : Type} {m : Except σ α} {f : α → Except σ β} {b : β} (h : (m >>= f) = .ok b) :
    ∃ a, m = .ok a ∧ f a = .ok b := by
  match m, h with
  | .ok a, h => exact ⟨a, rfl, h⟩

/-- A check that was passed. -/
lemma refuse_bind_eq_ok {c : Prop} [Decidable c] {e : ε} {f : Unit → Read ε β} {b : β}
    (h : (refuse c e >>= f) = .ok b) : ¬ c ∧ f () = .ok b := by
  unfold refuse at h
  split_ifs at h with hc
  · cases h
  · exact ⟨hc, h⟩

/-! ## What was read -/

/-- Adjacent parts are held together. -/
lemma Holds.append {data a b : List UInt8} {off : ℕ} (ha : Holds data off a)
    (hb : Holds data (off + a.length) b) : Holds data off (a ++ b) := by
  obtain ⟨-, ha⟩ := ha
  obtain ⟨hle, hb⟩ := hb
  refine ⟨by rw [List.length_append]; omega, ?_⟩
  rw [List.length_append, slice_add, ha, hb]

/-- The bytes in a range are held there. -/
lemma holds_slice {data : List UInt8} {off n : ℕ} (h : off + n ≤ data.length) :
    Holds data off (slice data off n) := by
  have hlen := length_slice h
  exact ⟨by rwa [hlen], by rw [hlen]⟩

lemma holds_of_bytesAt {data bs : List UInt8} {off n : ℕ}
    (h : (bytesAt data off n : Read ε (List UInt8)) = .ok bs) :
    bs = slice data off n ∧ bs.length = n ∧ Holds data off bs := by
  rw [bytesAt] at h
  split_ifs at h with hle
  cases h
  exact ⟨rfl, length_slice hle, holds_slice hle⟩

lemma holds_of_u8At {data : List UInt8} {off : ℕ} {v : UInt8}
    (h : (u8At data off : Read ε UInt8) = .ok v) : Holds data off [v] := by
  obtain ⟨bs, hbs, heq⟩ := bind_eq_ok h
  cases heq
  obtain ⟨-, hlen, hholds⟩ := holds_of_bytesAt hbs
  obtain ⟨b, rfl⟩ := List.length_eq_one_iff.mp hlen
  change Holds data off [UInt8.ofNat (b.toNat + 256 * 0)]
  rwa [Nat.mul_zero, Nat.add_zero, UInt8.ofNat_toNat]

lemma holds_of_u16At {data : List UInt8} {off : ℕ} {v : UInt16}
    (h : (u16At data off : Read ε UInt16) = .ok v) : Holds data off (u16le v) := by
  obtain ⟨bs, hbs, heq⟩ := bind_eq_ok h
  cases heq
  obtain ⟨-, hlen, hholds⟩ := holds_of_bytesAt hbs
  have hlt := leNat_lt bs
  have hback := leBytes_leNat bs
  rw [hlen] at hlt hback
  rwa [u16le, UInt16.toNat_ofNat_of_lt' hlt, hback]

lemma holds_of_u32At {data : List UInt8} {off : ℕ} {v : UInt32}
    (h : (u32At data off : Read ε UInt32) = .ok v) : Holds data off (u32le v) := by
  obtain ⟨bs, hbs, heq⟩ := bind_eq_ok h
  cases heq
  obtain ⟨-, hlen, hholds⟩ := holds_of_bytesAt hbs
  have hlt := leNat_lt bs
  have hback := leBytes_leNat bs
  rw [hlen] at hlt hback
  rwa [u32le, UInt32.toNat_ofNat_of_lt' hlt, hback]

lemma holds_of_u64At {data : List UInt8} {off : ℕ} {v : UInt64}
    (h : (u64At data off : Read ε UInt64) = .ok v) : Holds data off (u64le v) := by
  obtain ⟨bs, hbs, heq⟩ := bind_eq_ok h
  cases heq
  obtain ⟨-, hlen, hholds⟩ := holds_of_bytesAt hbs
  have hlt := leNat_lt bs
  have hback := leBytes_leNat bs
  rw [hlen] at hlt hback
  rwa [u64le, UInt64.toNat_ofNat_of_lt' hlt, hback]

/-- What is held at the start is a beginning. -/
lemma holds_zero_iff {data bs : List UInt8} : Holds data 0 bs ↔ bs <+: data := by
  constructor
  · rintro ⟨-, hslice⟩
    rw [← hslice, slice, List.drop_zero]
    exact List.take_prefix _ _
  · rintro ⟨more, rfl⟩
    refine ⟨by rw [List.length_append]; omega, ?_⟩
    rw [slice, List.drop_zero, List.take_left]

end Reader
