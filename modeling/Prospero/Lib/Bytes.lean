import Mathlib

/-!
# Little- and big-endian byte strings

Fixed-width integers as byte strings, in the arithmetic form: `leBytes n v` is the list of the `n`
low bytes of `v`, least significant first, and `leNat` reads such a list back.  Every width of the
put/get helpers of a wire format is an instance of these two functions, so the round trip is proved
once (`leNat_leBytes`).  `beNat` reads a byte string most significant byte first.
-/

namespace ByteString

/-- The `n` low bytes of `v`, least significant byte first. -/
def leBytes : ℕ → ℕ → List UInt8
  | 0, _ => []
  | n + 1, v => UInt8.ofNat v :: leBytes n (v / 256)

/-- The number a byte string denotes, least significant byte first. -/
def leNat : List UInt8 → ℕ
  | [] => 0
  | b :: bs => b.toNat + 256 * leNat bs

/-- The number a byte string denotes, most significant byte first. -/
def beNat (bs : List UInt8) : ℕ :=
  bs.foldl (fun acc b => acc * 256 + b.toNat) 0

/-- The two bytes of a 16-bit number. -/
abbrev u16le (v : UInt16) : List UInt8 := leBytes 2 v.toNat

/-- The four bytes of a 32-bit number. -/
abbrev u32le (v : UInt32) : List UInt8 := leBytes 4 v.toNat

/-- The eight bytes of a 64-bit number. -/
abbrev u64le (v : UInt64) : List UInt8 := leBytes 8 v.toNat

/-- `leBytes n v` has exactly `n` bytes. -/
@[simp] theorem length_leBytes (n v : ℕ) : (leBytes n v).length = n := by
  induction n generalizing v with
  | zero => rfl
  | succ n ih => simp [leBytes, ih]

/-- Reading back the `n` low bytes of `v` gives `v` modulo `256 ^ n`. -/
theorem leNat_leBytes (n v : ℕ) : leNat (leBytes n v) = v % 256 ^ n := by
  induction n generalizing v with
  | zero => simp [leBytes, leNat, Nat.mod_one]
  | succ n ih =>
    have hbyte : (UInt8.ofNat v).toNat = v % 256 := by simp
    rw [leBytes, leNat, ih, hbyte, pow_succ, Nat.mul_comm (256 ^ n) 256, Nat.mod_mul]

/-- A number below `256 ^ n` is read back from its `n` low bytes. -/
theorem leNat_leBytes_of_lt {n v : ℕ} (h : v < 256 ^ n) : leNat (leBytes n v) = v := by
  rw [leNat_leBytes, Nat.mod_eq_of_lt h]

/-- A byte string of `n` bytes denotes a number below `256 ^ n`. -/
theorem leNat_lt (bs : List UInt8) : leNat bs < 256 ^ bs.length := by
  induction bs with
  | nil => simp [leNat]
  | cons b bs ih =>
    have hb : b.toNat < 256 := b.toNat_lt
    rw [leNat, List.length_cons, pow_succ]
    omega

/-- A byte string is the encoding, at its own width, of the number it denotes. -/
theorem leBytes_leNat (bs : List UInt8) : leBytes bs.length (leNat bs) = bs := by
  induction bs with
  | nil => rfl
  | cons b bs ih =>
    have hb : b.toNat < 256 := b.toNat_lt
    have hlow : UInt8.ofNat (b.toNat + 256 * leNat bs) = b := by
      apply UInt8.toNat_inj.mp
      rw [UInt8.toNat_ofNat']
      omega
    have hrest : (b.toNat + 256 * leNat bs) / 256 = leNat bs := by omega
    rw [List.length_cons, leNat, leBytes, hlow, hrest, ih]

end ByteString
