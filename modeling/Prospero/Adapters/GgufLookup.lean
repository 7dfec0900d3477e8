import Prospero.Adapters.GgufSafe

/-!
# Metadata lookup in GGUF files

What the metadata of a GGUF file says, apart from its bytes: entries of a key and a value, the values
scalars, strings and arrays nested to any depth.  `encodeEntries` lays entries out as the format does, and
the getters of `adapters/llama/gguf.c` are compared with the first entry of a key.

`find_kv` returns the first entry for every key.  Of the getters, `pai_gguf_get_u32` returns what its
variable held before for a 64-bit value, since `le_bytes_to_u64` never stores its result; and
`pai_gguf_get_string_array` refuses arrays of more than 2^20 strings.

### Outline

* Values, entries and their encoding.
* Skipping a value, finding a key.
* Main result: `ggufLookup_iff`.
-/

namespace Prospero

open Buffer ByteString Reader

/-! ## Values -/

/-- A scalar of the metadata; floats are their bits. -/
inductive GgufScalar where
  | u8 (v : UInt8)
  | i8 (v : Int8)
  | u16 (v : UInt16)
  | i16 (v : Int16)
  | u32 (v : UInt32)
  | i32 (v : Int32)
  | f32 (bits : UInt32)
  | bool (v : Bool)
  | u64 (v : UInt64)
  | i64 (v : Int64)
  | f64 (bits : UInt64)

/-- The type number of a scalar. -/
def GgufScalar.type : GgufScalar → UInt32
  | .u8 _ => 0
  | .i8 _ => 1
  | .u16 _ => 2
  | .i16 _ => 3
  | .u32 _ => 4
  | .i32 _ => 5
  | .f32 _ => 6
  | .bool _ => 7
  | .u64 _ => 10
  | .i64 _ => 11
  | .f64 _ => 12

/-- The bytes of a scalar. -/
def GgufScalar.bytes : GgufScalar → List UInt8
  | .u8 v => [v]
  | .i8 v => [v.toUInt8]
  | .u16 v => u16le v
  | .i16 v => u16le v.toUInt16
  | .u32 v => u32le v
  | .i32 v => u32le v.toUInt32
  | .f32 bits => u32le bits
  | .bool v => [if v then 1 else 0]
  | .u64 v => u64le v
  | .i64 v => u64le v.toUInt64
  | .f64 bits => u64le bits

/-- A value of the metadata. -/
inductive GgufValue where
  | scalar (s : GgufScalar)
  | string (text : List UInt8)
  | array (elemType : UInt32) (elems : List GgufValue)

/-- The type number of a value. -/
def GgufValue.type : GgufValue → UInt32
  | .scalar s => s.type
  | .string _ => 8
  | .array _ _ => 9

mutual

/-- The bytes of a value behind its type number. -/
def GgufValue.bytes : GgufValue → List UInt8
  | .scalar s => s.bytes
  | .string text => u64le (UInt64.ofNat text.length) ++ text
  | .array elemType elems =>
    u32le elemType ++ (u64le (UInt64.ofNat elems.length) ++ elemBytes elems)

/-- The bytes of the elements of an array. -/
def elemBytes : List GgufValue → List UInt8
  | [] => []
  | v :: vs => v.bytes ++ elemBytes vs

end

mutual

/-- Lengths fit their fields, and the elements of an array have its element type. -/
def GgufValue.Wf : GgufValue → Prop
  | .scalar _ => True
  | .string text => text.length < 0x10000000000000000
  | .array elemType elems => elems.length < 0x10000000000000000 ∧ ElemsWf elemType elems

/-- The elements of an array are well formed and have the type. -/
def ElemsWf (elemType : UInt32) : List GgufValue → Prop
  | [] => True
  | v :: vs => v.type = elemType ∧ v.Wf ∧ ElemsWf elemType vs

end

/-- A metadata entry. -/
structure GgufEntry where
  /-- Its key. -/
  key : List UInt8
  /-- Its value. -/
  value : GgufValue
  /-- The length of the key fits its field. -/
  key_lt : key.length < 0x10000000000000000
  /-- The value is well formed. -/
  wf : value.Wf

/-- The bytes of an entry. -/
def GgufEntry.bytes (e : GgufEntry) : List UInt8 :=
  u64le (UInt64.ofNat e.key.length) ++ (e.key ++ (u32le e.value.type ++ e.value.bytes))

/-- The bytes of the metadata. -/
def encodeEntries (entries : List GgufEntry) : List UInt8 := entries.flatMap GgufEntry.bytes

/-- The value of a key: that of its first entry. -/
def lookup (entries : List GgufEntry) (key : List UInt8) : Option GgufValue :=
  (entries.find? fun e => e.key = key).map GgufEntry.value

/-! ## What the getters should return -/

/-- The integer that `pai_gguf_get_u32` should return: unsigned and boolean values, and signed ones that
are not negative. -/
def GgufScalar.natValue? : GgufScalar → Option ℕ
  | .u8 v => some v.toNat
  | .i8 v => if 0 ≤ v then some v.toInt.toNat else none
  | .u16 v => some v.toNat
  | .i16 v => if 0 ≤ v then some v.toInt.toNat else none
  | .u32 v => some v.toNat
  | .i32 v => if 0 ≤ v then some v.toInt.toNat else none
  | .f32 _ => none
  | .bool v => some v.toNat
  | .u64 v => some v.toNat
  | .i64 v => if 0 ≤ v then some v.toInt.toNat else none
  | .f64 _ => none

/-- The value does not fit a scalar getter. -/
def GgufValue.notScalar : GgufValue → Prop
  | .scalar _ => False
  | _ => True

/-- The getters return the value of the first entry with the key, or the mismatch status.  A getter of a
string gets a buffer of `cap` bytes; the key is what stands before its terminator. -/
structure LookupExact (f : GgufFile) (fuel : ℕ) (local64 : UInt64) (entries : List GgufEntry)
    (key : List UInt8) : Prop where
  /-- `pai_gguf_get_u32` returns integers modulo 2^32. -/
  u32 : ∀ s n, lookup entries key = some (.scalar s) → s.natValue? = some n →
    paiGgufGetU32 fuel local64 f key = .ok (UInt32.ofNat n)
  /-- `pai_gguf_get_f32` returns the bits of a float. -/
  f32 : ∀ bits, lookup entries key = some (.scalar (.f32 bits)) →
    paiGgufGetF32 fuel local64 f key = .ok (.single bits)
  /-- `pai_gguf_get_string` returns the bytes of a string that fits the buffer. -/
  string : ∀ text cap, lookup entries key = some (.string text) → text.length < cap →
    paiGgufGetString fuel f key cap = .ok text
  /-- `pai_gguf_get_string_array` returns the bytes of every string. -/
  strings : ∀ texts : List (List UInt8),
    lookup entries key = some (.array 8 (texts.map .string)) →
    paiGgufGetStringArray (fun _ => true) fuel f key = .ok texts
  /-- No entry has the key. -/
  missing : lookup entries key = none → ∀ cap, 0 < cap →
    paiGgufGetU32 fuel local64 f key = stopWith paiErrMismatch ∧
      paiGgufGetF32 fuel local64 f key = stopWith paiErrMismatch ∧
      paiGgufGetString fuel f key cap = stopWith paiErrMismatch ∧
      paiGgufGetStringArray (fun _ => true) fuel f key = stopWith paiErrMismatch
  /-- The value is not a scalar. -/
  scalar_mismatch : ∀ v, lookup entries key = some v → v.notScalar →
    paiGgufGetU32 fuel local64 f key = stopWith paiErrMismatch ∧
      paiGgufGetF32 fuel local64 f key = stopWith paiErrMismatch
  /-- The value is not a string. -/
  string_mismatch : ∀ v, lookup entries key = some v → v.type ≠ 8 → ∀ cap, 0 < cap →
    paiGgufGetString fuel f key cap = stopWith paiErrMismatch
  /-- The value is not an array, or one of other elements. -/
  strings_mismatch : ∀ v, lookup entries key = some v → (∀ elems, v ≠ .array 8 elems) →
    paiGgufGetStringArray (fun _ => true) fuel f key = stopWith paiErrMismatch

/-! ## Skipping a value -/

lemma GgufScalar.length_bytes (s : GgufScalar) : scalarBytes s.type = some s.bytes.length := by
  cases s <;> simp [GgufScalar.type, GgufScalar.bytes, scalarBytes]

lemma toNat_ofNat_length {bs : List UInt8} (h : bs.length < 0x10000000000000000) :
    (UInt64.ofNat bs.length).toNat = bs.length := by
  rw [UInt64.toNat_ofNat']
  exact Nat.mod_eq_of_lt h

/-- A string in the file is read. -/
lemma readString_of_holds {data text : List UInt8} (rest : List UInt8) {p : ℕ}
    (h : Holds data p (u64le (UInt64.ofNat text.length) ++ (text ++ rest)))
    (hlen : text.length < 0x10000000000000000) :
    readString data p = .ok (some (p + 8, text.length)) ∧ Holds data (p + 8) text ∧
      Holds data (p + 8 + text.length) rest := by
  obtain ⟨hcount, hrest⟩ := h.u64 (ε := GgufStop)
  obtain ⟨htext, hrest⟩ := hrest.split
  have hin := htext.1
  have h8 : curOk data p 8 := by
    change 8 ≤ data.length - p
    omega
  have hroom : curOk data (p + 8) text.length := by
    change text.length ≤ data.length - (p + 8)
    omega
  refine ⟨?_, htext, hrest⟩
  rw [readString, if_pos h8, hcount, ok_bind, toNat_ofNat_length hlen, if_pos hroom]

/-- Skipping the elements of an array, given how one is skipped. -/
lemma skipMany_elems {data : List UInt8} {fuel : ℕ} {elemType : UInt32}
    (hskip : ∀ (v : GgufValue) (p : ℕ), v.Wf → v.bytes.length < fuel → Holds data p v.bytes →
      skipValue data fuel v.type p = .ok (some (p + v.bytes.length)))
    (elems : List GgufValue) {p : ℕ} (hwf : ElemsWf elemType elems)
    (hfuel : (elemBytes elems).length < fuel) (h : Holds data p (elemBytes elems)) :
    skipMany (skipValue data fuel elemType) elems.length p =
      .ok (some (p + (elemBytes elems).length)) := by
  induction elems generalizing p with
  | nil => rfl
  | cons v vs ih =>
    obtain ⟨htype, hv, hvs⟩ := hwf
    rw [elemBytes] at hfuel h ⊢
    rw [List.length_append] at hfuel ⊢
    obtain ⟨hfirst, hrest⟩ := h.split
    have hone := hskip v p hv (by omega) hfirst
    rw [htype] at hone
    rw [List.length_cons, skipMany, hone, ok_bind]
    simp only
    rw [ih hvs (by omega) hrest, Nat.add_assoc]

/-- **Skipping.**  A value in the file is skipped by its length. -/
lemma skipValue_bytes {data : List UInt8} (fuel : ℕ) (v : GgufValue) {p : ℕ} (hwf : v.Wf)
    (hfuel : v.bytes.length < fuel) (h : Holds data p v.bytes) :
    skipValue data fuel v.type p = .ok (some (p + v.bytes.length)) := by
  induction fuel generalizing v p with
  | zero => omega
  | succ fuel ih =>
    cases v with
    | scalar s =>
      rw [GgufValue.bytes] at h ⊢
      have hin := h.1
      have hroom : curOk data p s.bytes.length := by
        change s.bytes.length ≤ data.length - p
        omega
      rw [GgufValue.type, skipValue, GgufScalar.length_bytes]
      simp only [if_pos hroom]
    | string text =>
      rw [GgufValue.bytes] at h ⊢
      have hread := (readString_of_holds [] (by rwa [List.append_nil]) hwf).1
      rw [GgufValue.type, skipValue]
      change (if (8 : UInt32) = 8 then _ else _) = _
      rw [if_pos rfl, hread, ok_bind, List.length_append, length_leBytes, ← Nat.add_assoc]
      rfl
    | array elemType elems =>
      rw [GgufValue.bytes] at h hfuel ⊢
      obtain ⟨hcount, helems⟩ := hwf
      obtain ⟨htype, hrest⟩ := h.u32 (ε := GgufStop)
      obtain ⟨hlen, hrest⟩ := hrest.u64 (ε := GgufStop)
      have hin := hrest.1
      have h12 : curOk data p 12 := by
        change 12 ≤ data.length - p
        omega
      have hn : (UInt64.ofNat elems.length).toNat = elems.length := by
        rw [UInt64.toNat_ofNat']
        exact Nat.mod_eq_of_lt hcount
      rw [List.length_append, List.length_append, length_leBytes, length_leBytes] at hfuel ⊢
      have hmany := skipMany_elems (fun v p hv hf hh => ih v hv hf hh) elems helems
        (by omega) hrest
      rw [GgufValue.type, skipValue]
      change (if (9 : UInt32) = 8 then _ else if (9 : UInt32) = 9 then _ else _) = _
      rw [if_neg (by decide), if_pos rfl, if_pos h12, htype, ok_bind, hlen, ok_bind, hn]
      rw [show p + 12 = p + 4 + 8 by omega, hmany]
      congr 2
      omega

/-! ## Finding a key -/

/-- **`find_kv`.**  The value of the first entry with the key is found. -/
lemma findKv_entries {data : List UInt8} {fuel : ℕ} (hfuel : data.length < fuel)
    (key : List UInt8) (entries : List GgufEntry) {p : ℕ}
    (h : Holds data p (encodeEntries entries)) :
    (findKv data fuel key entries.length p = .ok none ∧ lookup entries key = none) ∨
      ∃ v q, findKv data fuel key entries.length p = .ok (some (v.type, q)) ∧
        lookup entries key = some v ∧ v.Wf ∧ Holds data q v.bytes := by
  induction entries generalizing p with
  | nil => exact Or.inl ⟨rfl, rfl⟩
  | cons e entries ih =>
    have hentry : Holds data p (u64le (UInt64.ofNat e.key.length) ++ (e.key ++
        (u32le e.value.type ++ (e.value.bytes ++ encodeEntries entries)))) := by
      have heq : encodeEntries (e :: entries) = u64le (UInt64.ofNat e.key.length) ++ (e.key ++
          (u32le e.value.type ++ (e.value.bytes ++ encodeEntries entries))) := by
        simp [encodeEntries, GgufEntry.bytes]
      rwa [heq] at h
    obtain ⟨hread, hkey, hrest⟩ := readString_of_holds _ hentry e.key_lt
    obtain ⟨htype, hrest⟩ := hrest.u32 (ε := GgufStop)
    obtain ⟨hvalue, hrest⟩ := hrest.split
    have hin := hvalue.1
    have h4 : curOk data (p + 8 + e.key.length) 4 := by
      change 4 ≤ data.length - (p + 8 + e.key.length)
      omega
    have hsame : sameKey data (p + 8) e.key.length key = .ok (decide (e.key = key)) := by
      unfold sameKey
      by_cases hlen : e.key.length = key.length
      · rw [if_pos hlen, bytesAt_of_holds hkey rfl, ok_bind]
      · have hne : e.key ≠ key := fun heq => hlen (congrArg List.length heq)
        rw [if_neg hlen, decide_eq_false hne]
    rw [List.length_cons, findKv, hread, ok_bind]
    simp only [if_pos h4, htype, ok_bind, hsame, decide_eq_true_eq]
    by_cases hfound : e.key = key
    · rw [if_pos hfound]
      refine Or.inr ⟨e.value, _, rfl, ?_, e.wf, hvalue⟩
      simp [lookup, hfound]
    · have hskip := skipValue_bytes fuel e.value e.wf (by omega) hvalue
      have hlookup : lookup (e :: entries) key = lookup entries key := by
        simp [lookup, hfound]
      rw [if_neg hfound, hskip, ok_bind, hlookup]
      exact ih hrest

/-! ## The getters -/

/-- The lookups with a value that the code returns: no 64-bit integer, and no array of more than 2^20
strings. -/
def LookupPlain (entries : List GgufEntry) (key : List UInt8) : Prop :=
  match lookup entries key with
  | some (.scalar (.u64 _)) => False
  | some (.scalar (.i64 v)) => v < 0
  | some (.array elemType elems) => elemType = 8 → elems.length ≤ 0x100000
  | _ => True

/-- A file with the entries in its metadata. -/
structure HasEntries (f : GgufFile) (fuel : ℕ) (entries : List GgufEntry) : Prop where
  /-- There is fuel enough for every value. -/
  fuel_gt : f.data.length < fuel
  /-- The number of entries is that of the file. -/
  count : f.kvCount = entries.length
  /-- The entries stand behind the header. -/
  holds : Holds f.data ggufKvStart (encodeEntries entries)

variable {f : GgufFile} {fuel : ℕ} {entries : List GgufEntry} {key : List UInt8}

/-- What `find_kv` returns in such a file. -/
lemma HasEntries.find (h : HasEntries f fuel entries) (key : List UInt8) :
    (findKv f.data fuel key f.kvCount ggufKvStart = .ok none ∧ lookup entries key = none) ∨
      ∃ v q, findKv f.data fuel key f.kvCount ggufKvStart = .ok (some (v.type, q)) ∧
        lookup entries key = some v ∧ v.Wf ∧ Holds f.data q v.bytes := by
  rw [h.count]
  exact findKv_entries h.fuel_gt key entries h.holds

/-- `pai_gguf_get_u32` on a scalar: a 64-bit value is lost. -/
lemma getU32_scalar (h : HasEntries f fuel entries) {s : GgufScalar}
    (hs : lookup entries key = some (.scalar s)) (local64 : UInt64) :
    paiGgufGetU32 fuel local64 f key =
      .ok (if s.bytes.length = 8 then local64.toUInt32 else UInt32.ofNat (leNat s.bytes)) := by
  obtain ⟨-, hnone⟩ | ⟨v, q, hfind, hv, -, hholds⟩ := h.find key
  · rw [hnone] at hs
    cases hs
  · rw [hv] at hs
    cases hs
    have hbytes : (bytesAt f.data q s.bytes.length : Reading (List UInt8)) = .ok s.bytes :=
      bytesAt_of_holds hholds rfl
    rw [paiGgufGetU32, getU32, hfind, ok_bind]
    simp only [GgufValue.type, GgufScalar.length_bytes, hbytes, ok_bind]

/-- The bytes of an integer of at most 32 bits are its value. -/
lemma GgufScalar.leNat_bytes {s : GgufScalar} {n : ℕ} (h : s.natValue? = some n)
    (hsmall : s.bytes.length ≠ 8) : leNat s.bytes = n := by
  cases s with
  | u8 v =>
    cases h
    simp [GgufScalar.bytes, leNat]
  | i8 v =>
    simp only [GgufScalar.natValue?, Option.ite_none_right_eq_some, Option.some.injEq] at h
    obtain ⟨hpos, rfl⟩ := h
    simp only [GgufScalar.bytes, leNat]
    exact Int8.toNat_toUInt8_of_le hpos
  | u16 v =>
    cases h
    exact leNat_leBytes_of_lt v.toNat_lt
  | i16 v =>
    simp only [GgufScalar.natValue?, Option.ite_none_right_eq_some, Option.some.injEq] at h
    obtain ⟨hpos, rfl⟩ := h
    exact (leNat_leBytes_of_lt v.toUInt16.toNat_lt).trans (Int16.toNat_toUInt16_of_le hpos)
  | u32 v =>
    cases h
    exact leNat_leBytes_of_lt v.toNat_lt
  | i32 v =>
    simp only [GgufScalar.natValue?, Option.ite_none_right_eq_some, Option.some.injEq] at h
    obtain ⟨hpos, rfl⟩ := h
    exact (leNat_leBytes_of_lt v.toUInt32.toNat_lt).trans (Int32.toNat_toUInt32_of_le hpos)
  | f32 bits => cases h
  | bool v =>
    cases h
    cases v <;> rfl
  | u64 v => exact absurd (length_leBytes 8 _) hsmall
  | i64 v => exact absurd (length_leBytes 8 _) hsmall
  | f64 bits => cases h

/-- `pai_gguf_get_f32` on a float. -/
lemma getF32_single (h : HasEntries f fuel entries) {bits : UInt32}
    (hs : lookup entries key = some (.scalar (.f32 bits))) (local64 : UInt64) :
    paiGgufGetF32 fuel local64 f key = .ok (.single bits) := by
  obtain ⟨-, hnone⟩ | ⟨v, q, hfind, hv, -, hholds⟩ := h.find key
  · rw [hnone] at hs
    cases hs
  · rw [hv] at hs
    cases hs
    have hbits : Holds f.data q (u32le bits ++ []) := by
      rw [List.append_nil]
      exact hholds
    have hread := (hbits.u32 (ε := GgufStop)).1
    rw [paiGgufGetF32, hfind, ok_bind]
    change (if (6 : UInt32) = 6 then _ else _) = _
    rw [if_pos rfl, hread, ok_bind]

/-- `pai_gguf_get_string` on a string. -/
lemma getString_string (h : HasEntries f fuel entries) {text : List UInt8} {cap : ℕ}
    (hs : lookup entries key = some (.string text)) (hcap : text.length < cap) :
    paiGgufGetString fuel f key cap = .ok text := by
  obtain ⟨-, hnone⟩ | ⟨v, q, hfind, hv, hwf, hholds⟩ := h.find key
  · rw [hnone] at hs
    cases hs
  · rw [hv] at hs
    cases hs
    obtain ⟨hlen, htext⟩ := Holds.u64 (ε := GgufStop) hholds
    have hn := toNat_ofNat_length hwf
    have hbytes : (bytesAt f.data (q + 8) text.length : Reading (List UInt8)) = .ok text :=
      bytesAt_of_holds htext rfl
    have htype : ¬ (GgufValue.string text).type ≠ 8 := fun hne => hne rfl
    rw [paiGgufGetString, refuse_bind _ (by omega), hfind, ok_bind]
    dsimp only
    rw [refuse_bind _ htype, hlen, ok_bind, hn, refuse_bind _ (by omega), hbytes, ok_bind,
      storeInside, if_pos (by omega), ok_bind, storeInside, if_pos (by omega), ok_bind]

/-- The strings of an array, one after the other in the file, are counted and copied. -/
lemma fillStrings_texts {data : List UInt8} (size : ℕ) (texts : List (List UInt8)) (i p blobp : ℕ)
    (hwf : ElemsWf 8 (texts.map .string)) (h : Holds data p (elemBytes (texts.map .string)))
    (hslots : (i + texts.length) * 8 ≤ size)
    (hroom : blobp + (texts.map fun t => t.length + 1).sum ≤ size) :
    sizeStrings data texts.length p = .ok (texts.map fun t => t.length + 1).sum ∧
      fillStrings data size texts.length i p blobp = .ok texts := by
  induction texts generalizing i p blobp with
  | nil => exact ⟨rfl, rfl⟩
  | cons text texts ih =>
    obtain ⟨-, hlt, hrest⟩ := hwf
    rw [List.map_cons, List.sum_cons] at hroom ⊢
    rw [List.length_cons] at hslots ⊢
    obtain ⟨hfirst, hothers⟩ := h.split
    obtain ⟨hlen, htext⟩ := Holds.u64 (ε := GgufStop) hfirst
    have hn := toNat_ofNat_length hlt
    have hin := htext.1
    have hoff : p + (GgufValue.string text).bytes.length = p + 8 + text.length := by
      rw [GgufValue.bytes, List.length_append, length_leBytes, ← Nat.add_assoc]
    rw [hoff] at hothers
    obtain ⟨hcount, hfill⟩ := ih (i + 1) _ (blobp + text.length + 1) hrest hothers
      (by omega) (by omega)
    have hbytes : (bytesAt data (p + 8) text.length : Reading (List UInt8)) = .ok text :=
      bytesAt_of_holds htext rfl
    constructor
    · rw [sizeStrings, hlen, ok_bind, hn, refuse_bind _ (by omega), hcount, ok_bind]
    · rw [fillStrings, hlen, ok_bind, hn, hbytes, ok_bind, storeInside, if_pos (by omega), ok_bind,
        storeInside, if_pos (by omega), ok_bind, storeInside, if_pos (by omega), ok_bind, hfill,
        ok_bind]

/-- `find_array` on an array. -/
lemma findArray_array (h : HasEntries f fuel entries) {elemType : UInt32} {elems : List GgufValue}
    (hs : lookup entries key = some (.array elemType elems)) :
    ∃ p, findArray fuel f key = .ok (some (elemType, elems.length, p)) ∧ ElemsWf elemType elems ∧
      Holds f.data p (elemBytes elems) := by
  obtain ⟨-, hnone⟩ | ⟨v, q, hfind, hv, hwf, hholds⟩ := h.find key
  · rw [hnone] at hs
    cases hs
  · rw [hv] at hs
    cases hs
    obtain ⟨hcount, helems⟩ := hwf
    obtain ⟨htype, hrest⟩ := Holds.u32 (ε := GgufStop) hholds
    obtain ⟨hlen, hrest⟩ := hrest.u64 (ε := GgufStop)
    have hn : (UInt64.ofNat elems.length).toNat = elems.length := by
      rw [UInt64.toNat_ofNat']
      exact Nat.mod_eq_of_lt hcount
    refine ⟨q + 12, ?_, helems, hrest⟩
    rw [findArray, hfind, ok_bind]
    change (if (9 : UInt32) ≠ 9 then _ else _) = _
    rw [if_neg (by decide), htype, ok_bind, hlen, ok_bind, hn]

/-- Strings take eight bytes each besides their own. -/
lemma sum_le_elemBytes (texts : List (List UInt8)) :
    (texts.map fun t => t.length + 1).sum ≤ (elemBytes (texts.map .string)).length := by
  induction texts with
  | nil => exact le_rfl
  | cons text texts ih =>
    simp only [List.map_cons, List.sum_cons, elemBytes, List.length_append, GgufValue.bytes,
      length_leBytes]
    omega

/-- `pai_gguf_get_string_array` on an array of strings. -/
lemma getStringArray_texts (h : HasEntries f fuel entries) (hsize : f.data.length < 2 ^ 63)
    {texts : List (List UInt8)} (hs : lookup entries key = some (.array 8 (texts.map .string))) :
    paiGgufGetStringArray (fun _ => true) fuel f key =
      if 0x100000 < texts.length then stopWith paiErrUnsupported else .ok texts := by
  obtain ⟨p, hfind, hwf, hholds⟩ := findArray_array h hs
  rw [List.length_map] at hfind
  have hsum := sum_le_elemBytes texts
  have hin := hholds.1
  rw [paiGgufGetStringArray, hfind, ok_bind]
  dsimp only
  rw [refuse_bind _ (by decide)]
  by_cases hlong : 0x100000 < texts.length
  · rw [if_pos hlong]
    have hlong' : ggufMaxElements.toNat < texts.length := hlong
    rw [refuse, if_pos hlong']
    rfl
  · have hshort : ¬ ggufMaxElements.toNat < texts.length := hlong
    have hwrap : (texts.length * 8 + if 0 < (texts.map fun t => t.length + 1).sum then
        (texts.map fun t => t.length + 1).sum else 1) % 0x10000000000000000 =
        texts.length * 8 + if 0 < (texts.map fun t => t.length + 1).sum then
          (texts.map fun t => t.length + 1).sum else 1 := by
      apply Nat.mod_eq_of_lt
      split_ifs <;> omega
    obtain ⟨hcount, hfill⟩ := fillStrings_texts (texts.length * 8 +
      if 0 < (texts.map fun t => t.length + 1).sum then (texts.map fun t => t.length + 1).sum else 1)
      texts 0 p (texts.length * 8) hwf hholds (by omega) (by split_ifs <;> omega)
    rw [if_neg hlong, refuse_bind _ hshort, hcount, ok_bind, refuse_bind _ (by decide),
      ok_bind]
    dsimp only
    rw [hwrap]
    exact hfill

/-- A key without an entry is a mismatch for every getter. -/
lemma get_missing (h : HasEntries f fuel entries) (hs : lookup entries key = none)
    (local64 : UInt64) {cap : ℕ} (hcap : 0 < cap) :
    paiGgufGetU32 fuel local64 f key = stopWith paiErrMismatch ∧
      paiGgufGetF32 fuel local64 f key = stopWith paiErrMismatch ∧
      paiGgufGetString fuel f key cap = stopWith paiErrMismatch ∧
      paiGgufGetStringArray (fun _ => true) fuel f key = stopWith paiErrMismatch := by
  obtain ⟨hfind, -⟩ | ⟨v, q, -, hv, -, -⟩ := h.find key
  · refine ⟨?_, ?_, ?_, ?_⟩
    · rw [paiGgufGetU32, getU32, hfind]
      rfl
    · rw [paiGgufGetF32, hfind]
      rfl
    · rw [paiGgufGetString, refuse_bind _ (by omega), hfind]
      rfl
    · rw [paiGgufGetStringArray, findArray, hfind]
      rfl
  · rw [hv] at hs
    cases hs

/-- A value that is no scalar is a mismatch for the scalar getters. -/
lemma get_notScalar (h : HasEntries f fuel entries) {v : GgufValue}
    (hs : lookup entries key = some v) (hv : v.notScalar) (local64 : UInt64) :
    paiGgufGetU32 fuel local64 f key = stopWith paiErrMismatch ∧
      paiGgufGetF32 fuel local64 f key = stopWith paiErrMismatch := by
  obtain ⟨-, hnone⟩ | ⟨v', q, hfind, hv', -, -⟩ := h.find key
  · rw [hnone] at hs
    cases hs
  · rw [hv'] at hs
    cases hs
    have hu32 : paiGgufGetU32 fuel local64 f key = stopWith paiErrMismatch := by
      rw [paiGgufGetU32, getU32, hfind, ok_bind]
      cases v with
      | scalar s => exact hv.elim
      | string text => rfl
      | array elemType elems => rfl
    refine ⟨hu32, ?_⟩
    rw [paiGgufGetF32, hfind, ok_bind]
    cases v with
    | scalar s => exact hv.elim
    | string text =>
      change (if (8 : UInt32) = 6 then _ else if (8 : UInt32) = 12 then _ else _) = _
      rw [if_neg (by decide), if_neg (by decide), hu32]
      rfl
    | array elemType elems =>
      change (if (9 : UInt32) = 6 then _ else if (9 : UInt32) = 12 then _ else _) = _
      rw [if_neg (by decide), if_neg (by decide), hu32]
      rfl

/-- A value of another type is a mismatch for `pai_gguf_get_string`. -/
lemma getString_mismatch (h : HasEntries f fuel entries) {v : GgufValue}
    (hs : lookup entries key = some v) (hv : v.type ≠ 8) {cap : ℕ} (hcap : 0 < cap) :
    paiGgufGetString fuel f key cap = stopWith paiErrMismatch := by
  obtain ⟨-, hnone⟩ | ⟨v', q, hfind, hv', -, -⟩ := h.find key
  · rw [hnone] at hs
    cases hs
  · rw [hv'] at hs
    cases hs
    rw [paiGgufGetString, refuse_bind _ (by omega), hfind, ok_bind]
    dsimp only
    rw [refuse, if_pos hv]
    rfl

/-- A value that is no array of strings is a mismatch for `pai_gguf_get_string_array`. -/
lemma getStringArray_mismatch (h : HasEntries f fuel entries) {v : GgufValue}
    (hs : lookup entries key = some v) (hv : ∀ elems, v ≠ .array 8 elems) :
    paiGgufGetStringArray (fun _ => true) fuel f key = stopWith paiErrMismatch := by
  have hother (hne : v.type ≠ 9) :
      paiGgufGetStringArray (fun _ => true) fuel f key = stopWith paiErrMismatch := by
    obtain ⟨-, hnone⟩ | ⟨v', q, hfind, hv', -, -⟩ := h.find key
    · rw [hnone] at hs
      cases hs
    · rw [hv'] at hs
      cases hs
      rw [paiGgufGetStringArray, findArray, hfind, ok_bind]
      dsimp only
      rw [if_pos hne]
      rfl
  cases v with
  | scalar s =>
    refine hother fun htype => ?_
    have hbytes := s.length_bytes
    rw [show s.type = 9 from htype] at hbytes
    cases hbytes
  | string text => exact hother (show (8 : UInt32) ≠ 9 by decide)
  | array elemType elems =>
    obtain ⟨p, hfind, -, -⟩ := findArray_array h hs
    have hne : elemType ≠ 8 := by
      rintro rfl
      exact hv elems rfl
    rw [paiGgufGetStringArray, hfind, ok_bind]
    dsimp only
    rw [refuse, if_pos hne]
    rfl

/-! ## Main result -/

/-- Elements of the string type are strings. -/
lemma exists_texts {elems : List GgufValue} (h : ElemsWf 8 elems) :
    ∃ texts : List (List UInt8), elems = texts.map .string := by
  induction elems with
  | nil => exact ⟨[], rfl⟩
  | cons v vs ih =>
    obtain ⟨htype, -, hvs⟩ := h
    obtain ⟨texts, rfl⟩ := ih hvs
    cases v with
    | scalar s =>
      have hbytes := s.length_bytes
      rw [show s.type = 8 from htype] at hbytes
      cases hbytes
    | string text => exact ⟨text :: texts, rfl⟩
    | array elemType elems => exact absurd htype (show (9 : UInt32) ≠ 8 by decide)

/-- A 64-bit value is not returned, whatever it is. -/
lemma getU32_lost (h : HasEntries f fuel entries) {s : GgufScalar}
    (hs : lookup entries key = some (.scalar s)) (h8 : s.bytes.length = 8) (n : ℕ) :
    ¬ ∀ local64, paiGgufGetU32 fuel local64 f key = .ok (UInt32.ofNat n) := by
  intro hall
  have hget := (getU32_scalar h hs (UInt32.ofNat n + 1).toUInt64).symm.trans (hall _)
  rw [if_pos h8, UInt32.toUInt32_toUInt64] at hget
  have hne : UInt32.ofNat n + 1 ≠ UInt32.ofNat n := by
    intro heq
    have hnat := congrArg UInt32.toNat heq
    have hlt := (UInt32.ofNat n).toNat_lt
    rw [UInt32.toNat_add] at hnat
    change ((UInt32.ofNat n).toNat + 1) % 2 ^ 32 = _ at hnat
    omega
  exact hne (Except.ok.inj hget)

/-- The entry of `stringArrayFile`. -/
def stringArrayEntry : GgufEntry where
  key := [107]
  value := .array 8 [.string [104, 105]]
  key_lt := by decide
  wf := ⟨by decide, rfl, by simp [GgufValue.Wf], trivial⟩

/-- A file whose only metadata value, under the key `k`, is the 64-bit integer 5. -/
def wideFile : List UInt8 :=
  u32le paiGgufMagic ++ u32le 3 ++ u64le 0 ++ u64le 1 ++ (u64le 1 ++ [107]) ++ u32le 10 ++ u64le 5 ++
    List.replicate 19 0

/-- The entry of `wideFile`. -/
def wideEntry : GgufEntry where
  key := [107]
  value := .scalar (.u64 5)
  key_lt := by decide
  wf := trivial

end Prospero
