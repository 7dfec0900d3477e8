import Prospero.Adapters.Gguf

/-!
# The GGUF reader stays inside the file

`pai_gguf_open` walks over every metadata value once and checks it against the end of the file; the
getters walk over the metadata again and read the value they find without a check.  They are safe
because the value they find is one that the first pass has skipped (`ends_findKv`): what `skip_value`
says about its type and its extent (`skipped_scalar`, `skipped_string`, `skipped_array`) is all a
getter relies on.

A value takes at least one byte, so that an array nests at most as deep as the file is long, and with
that much fuel `skip_value` returns (`ends_skipValue`).
-/

namespace Prospero

open Buffer ByteString Reader

/-- The computation returns: it reads inside the file, and what stops it is a status. -/
abbrev Returns {α : Type} (m : Reading α) (Q : α → Prop) : Prop := Ends (fun e => e ≠ .hang) m Q

lemma returns_stopWith {α : Type} {Q : α → Prop} (st : PaiStatus) : Returns (stopWith st) Q :=
  ends_fail (by simp)

lemma returns_refuse_bind {β : Type} {c : Prop} [Decidable c] {st : PaiStatus} {f : Unit → Reading β}
    {R : β → Prop} (hf : ¬ c → Returns (f ()) R) : Returns (refuse c (.status st) >>= f) R :=
  ends_refuse_bind (by simp) hf

lemma returns_storeInside_bind {β : Type} {size off n : ℕ} {f : Unit → Reading β} {R : β → Prop}
    (h : off + n ≤ size) (hf : Returns (f ()) R) : Returns (storeInside size off n >>= f) R := by
  rw [storeInside, if_pos h]
  exact hf

/-! ## Walking over values -/

/-- The cursor moved on, and not behind the end of the file. -/
def MovesOn (data : List UInt8) (p : ℕ) (r : Option ℕ) : Prop := ∀ q ∈ r, p < q ∧ q ≤ data.length

lemma returns_readString (data : List UInt8) (p : ℕ) :
    Returns (readString data p) fun r =>
      ∀ s ∈ r, s.1 = p + 8 ∧ s.1 + s.2 ≤ data.length := by
  unfold readString
  split_ifs with hroom
  · refine Ends.bind (ends_u64At (by omega)) fun len _ _ => ?_
    refine ends_ok fun s hs => ?_
    split_ifs at hs with hlen
    · cases hs
      exact ⟨rfl, by omega⟩
    · cases hs
  · exact ends_ok fun s hs => absurd hs (by simp)

/-- A loop of rounds that move on returns, and its cursor is in the file. -/
lemma returns_skipMany {data : List UInt8} {skip : ℕ → Reading (Option ℕ)} {start : ℕ}
    (hskip : ∀ p, start ≤ p → p ≤ data.length → Returns (skip p) (MovesOn data p)) (count : ℕ) {p : ℕ}
    (hstart : start ≤ p) (hp : p ≤ data.length) :
    Returns (skipMany skip count p) fun r => ∀ q ∈ r, p ≤ q ∧ q ≤ data.length := by
  induction count generalizing p with
  | zero =>
    refine ends_ok fun q hq => ?_
    cases hq
    exact ⟨le_rfl, hp⟩
  | succ count ih =>
    rw [skipMany]
    refine Ends.bind (hskip p hstart hp) fun r _ hr => ?_
    match r, hr with
    | none, _ => exact ends_ok fun q hq => absurd hq (by simp)
    | some p', hr =>
      obtain ⟨hlt, hle⟩ := hr p' rfl
      refine (ih (by omega) hle).mono fun r hr q hq => ?_
      exact ⟨by have := (hr q hq).1; omega, (hr q hq).2⟩

lemma scalarBytes_pos {type : UInt32} {n : ℕ} (h : scalarBytes type = some n) : 0 < n := by
  unfold scalarBytes at h
  split at h <;> simp at h <;> omega

/-- `skip_value` returns when it has more fuel than there are bytes left. -/
lemma returns_skipValue {data : List UInt8} (fuel : ℕ) (type : UInt32) {p : ℕ}
    (hp : p ≤ data.length) (hfuel : data.length < fuel + p) :
    Returns (skipValue data fuel type p) (MovesOn data p) := by
  induction fuel generalizing type p with
  | zero => omega
  | succ fuel ih =>
    rw [skipValue]
    split
    · next n hn =>
      have hpos := scalarBytes_pos hn
      refine ends_ok fun q hq => ?_
      split_ifs at hq with hroom
      · cases hq
        exact ⟨by omega, by omega⟩
      · cases hq
    · split_ifs with hstring harray hroom
      · refine Ends.bind (returns_readString data p) fun s _ hs => ends_ok fun q hq => ?_
        obtain ⟨s, hmem, rfl⟩ := Option.mem_map.mp hq
        obtain ⟨hstart, hle⟩ := hs s hmem
        exact ⟨by omega, hle⟩
      · refine Ends.bind (ends_u32At (by omega)) fun elemType _ _ => ?_
        refine Ends.bind (ends_u64At (by omega)) fun count _ _ => ?_
        -- the elements start behind the header of the array, where one unit of fuel less is enough
        have helements := @returns_skipMany data _ (p + 12)
          (fun q hstart hq => ih elemType hq (by omega)) count.toNat _ le_rfl (by omega)
        refine helements.mono fun r hr q hq => ?_
        exact ⟨by have := (hr q hq).1; omega, (hr q hq).2⟩
      · exact ends_ok fun q hq => absurd hq (by simp)
      · exact ends_ok fun q hq => absurd hq (by simp)

lemma returns_skipKv {data : List UInt8} {fuel p : ℕ} (hfuel : data.length < fuel) :
    Returns (skipKv data fuel p) (MovesOn data p) := by
  unfold skipKv
  refine Ends.bind (returns_readString data p) fun r _ hr => ?_
  match r, hr with
  | none, _ => exact ends_ok fun q hq => absurd hq (by simp)
  | some (start, len), hr =>
    obtain ⟨hstart, hle⟩ := hr _ rfl
    dsimp only at hstart hle ⊢
    split_ifs with hroom
    · refine Ends.bind (ends_u32At (by omega)) fun vtype _ _ => ?_
      refine (returns_skipValue fuel vtype (by omega) (by omega)).mono fun r hr q hq => ?_
      exact ⟨by have := (hr q hq).1; omega, (hr q hq).2⟩
    · exact ends_ok fun q hq => absurd hq (by simp)

/-! ## Values that were skipped -/

/-- `skip_value` found the value inside the file. -/
def Skipped (data : List UInt8) (fuel : ℕ) (type : UInt32) (v : ℕ) : Prop :=
  ∃ q, skipValue data fuel type v = .ok (some q)

lemma skipped_scalar {data : List UInt8} {fuel v n : ℕ} {type : UInt32}
    (h : Skipped data fuel type v) (hn : scalarBytes type = some n) : v + n ≤ data.length := by
  obtain ⟨q, hq⟩ := h
  have hpos := scalarBytes_pos hn
  match fuel, hq with
  | fuel + 1, hq =>
    rw [skipValue, hn] at hq
    dsimp only at hq
    split_ifs at hq with hroom
    · omega
    · cases hq

/-- A string that was read is inside the file. -/
lemma readString_eq_some {data : List UInt8} {p start len : ℕ}
    (h : readString data p = .ok (some (start, len))) :
    ∃ l : UInt64, u64At data p = (.ok l : Reading UInt64) ∧ start = p + 8 ∧ len = l.toNat ∧
      p + 8 + l.toNat ≤ data.length := by
  unfold readString at h
  split_ifs at h with hroom
  · obtain ⟨l, hl, h⟩ := bind_eq_ok h
    refine ⟨l, hl, ?_⟩
    split_ifs at h with hlen
    · cases h
      exact ⟨rfl, rfl, by omega⟩
    · cases h
  · cases h

lemma skipped_string {data : List UInt8} {fuel v : ℕ} (h : Skipped data fuel 8 v) :
    ∃ l : UInt64, u64At data v = (.ok l : Reading UInt64) ∧ v + 8 + l.toNat ≤ data.length ∧
      skipValue data fuel 8 v = .ok (some (v + 8 + l.toNat)) := by
  obtain ⟨q, hq⟩ := h
  match fuel, hq with
  | fuel + 1, hq =>
    change (readString data v >>= fun s => .ok (s.map fun s => s.1 + s.2)) = _ at hq
    obtain ⟨r, hr, hret⟩ := bind_eq_ok hq
    match r, hr, hret with
    | some (start, len), hr, hret =>
      obtain ⟨l, hl, rfl, rfl, hle⟩ := readString_eq_some hr
      refine ⟨l, hl, hle, ?_⟩
      change (readString data v >>= fun s => .ok (s.map fun s => s.1 + s.2)) = _
      rw [hr]
      rfl

lemma skipped_array {data : List UInt8} {fuel v : ℕ} (h : Skipped data fuel 9 v) :
    ∃ (elemType : UInt32) (count : UInt64) (depth q : ℕ), v + 12 ≤ data.length ∧
      u32At data v = (.ok elemType : Reading UInt32) ∧
      u64At data (v + 4) = (.ok count : Reading UInt64) ∧
      skipMany (skipValue data depth elemType) count.toNat (v + 12) = .ok (some q) := by
  obtain ⟨q, hq⟩ := h
  match fuel, hq with
  | fuel + 1, hq =>
    change (if curOk data v 12 then _ else _) = _ at hq
    split_ifs at hq with hroom
    · obtain ⟨elemType, helem, hq⟩ := bind_eq_ok hq
      obtain ⟨count, hcount, hq⟩ := bind_eq_ok hq
      exact ⟨elemType, count, fuel, q, by omega, helem, hcount, hq⟩
    · cases hq

/-- A loop that walked over `count + 1` values walked over the first one and then over the others. -/
lemma skipMany_succ_eq_some {skip : ℕ → Reading (Option ℕ)} {count p q : ℕ}
    (h : skipMany skip (count + 1) p = .ok (some q)) :
    ∃ p', skip p = .ok (some p') ∧ skipMany skip count p' = .ok (some q) := by
  rw [skipMany] at h
  obtain ⟨r, hr, h⟩ := bind_eq_ok h
  match r, h with
  | some p', h => exact ⟨p', hr, h⟩

lemma skipKv_eq_some {data : List UInt8} {fuel p q : ℕ} (h : skipKv data fuel p = .ok (some q)) :
    ∃ start len vtype, readString data p = .ok (some (start, len)) ∧ curOk data (start + len) 4 ∧
      u32At data (start + len) = (.ok vtype : Reading UInt32) ∧
      skipValue data fuel vtype (start + len + 4) = .ok (some q) := by
  unfold skipKv at h
  obtain ⟨r, hr, h⟩ := bind_eq_ok h
  match r, hr, h with
  | some (start, len), hr, h =>
    dsimp only at h
    split_ifs at h with hroom
    · obtain ⟨vtype, hvtype, h⟩ := bind_eq_ok h
      exact ⟨start, len, vtype, hr, hroom, hvtype, h⟩
    · cases h

lemma returns_sameKey {data : List UInt8} {start len : ℕ} (h : start + len ≤ data.length)
    (key : List UInt8) : Returns (sameKey data start len key) fun _ => True := by
  unfold sameKey
  split_ifs
  · exact Ends.bind (ends_bytesAt h) fun _ _ _ => trivial
  · exact ends_ok trivial

/-- In metadata that was walked over, a key is looked up inside the file, and the value found is one
that was skipped. -/
lemma returns_findKv {data : List UInt8} {fuel : ℕ} (key : List UInt8) {n p q : ℕ}
    (h : skipMany (skipKv data fuel) n p = .ok (some q)) :
    Returns (findKv data fuel key n p) fun r => ∀ s ∈ r, Skipped data fuel s.1 s.2 := by
  induction n generalizing p with
  | zero => exact ends_ok fun s hs => absurd hs (by simp)
  | succ n ih =>
    obtain ⟨p', hkv, hrest⟩ := skipMany_succ_eq_some h
    obtain ⟨start, len, vtype, hkey, hroom, hvtype, hskip⟩ := skipKv_eq_some hkv
    obtain ⟨l, -, rfl, rfl, hle⟩ := readString_eq_some hkey
    rw [findKv, hkey, ok_bind]
    dsimp only
    rw [if_pos hroom, hvtype, ok_bind]
    refine Ends.bind (returns_sameKey hle key) fun same _ _ => ?_
    cases same with
    | true =>
      refine ends_ok fun s hs => ?_
      cases hs
      exact ⟨p', hskip⟩
    | false =>
      rw [if_neg Bool.false_ne_true, hskip, ok_bind]
      exact ih hrest

lemma returns_getU32 {data : List UInt8} {fuel n q : ℕ}
    (h : skipMany (skipKv data fuel) n ggufKvStart = .ok (some q)) (local64 : UInt64)
    (key : List UInt8) : Returns (getU32 data fuel n local64 key) fun _ => True := by
  unfold getU32
  refine Ends.bind (returns_findKv key h) fun r _ hr => ?_
  match r, hr with
  | none, _ => exact returns_stopWith _
  | some (type, v), hr =>
    have hskipped := hr _ rfl
    dsimp only
    split
    · exact returns_stopWith _
    · next n hn =>
      exact Ends.bind (ends_bytesAt (skipped_scalar hskipped hn)) fun _ _ _ => trivial

/-! ## Opening a file -/

lemma returns_readExtents {data : List UInt8} (n : ℕ) {p : ℕ} (hp : p ≤ data.length) :
    Returns (readExtents data n p) fun r => r.2 ≤ data.length := by
  induction n generalizing p with
  | zero => exact ends_ok hp
  | succ n ih =>
    rw [readExtents]
    refine returns_refuse_bind fun hroom => ?_
    refine Ends.bind (ends_u64At (by omega)) fun dim _ _ => ?_
    refine returns_refuse_bind fun _ => ?_
    refine Ends.bind (ih (by omega)) fun r _ hr => ?_
    exact ends_ok hr

lemma returns_readTensor (data : List UInt8) (p : ℕ) :
    Returns (readTensor data p) fun r => r.2 ≤ data.length := by
  unfold readTensor
  refine Ends.bind (returns_readString data p) fun r _ hr => ?_
  match r, hr with
  | none, _ => exact returns_stopWith _
  | some (start, len), hr =>
    obtain ⟨hstart, hle⟩ := hr _ rfl
    dsimp only at hstart hle ⊢
    refine returns_refuse_bind fun _ => ?_
    refine Ends.bind (ends_bytesAt hle) fun name _ _ => ?_
    refine returns_refuse_bind fun hroom => ?_
    refine Ends.bind (ends_u32At (by omega)) fun numDims _ _ => ?_
    refine returns_refuse_bind fun _ => ?_
    refine Ends.bind (returns_readExtents _ (by omega)) fun r _ hr => ?_
    refine returns_refuse_bind fun htype => ?_
    refine Ends.bind (ends_u32At (by omega)) fun type _ _ => ?_
    refine returns_refuse_bind fun hoffset => ?_
    refine Ends.bind (ends_u64At (by omega)) fun offset _ _ => ?_
    exact ends_ok (by dsimp only; omega)

lemma returns_readTensors {data : List UInt8} (n p : ℕ) :
    Returns (readTensors data n p) fun _ => True := by
  induction n generalizing p with
  | zero => exact ends_ok trivial
  | succ n ih =>
    rw [readTensors]
    refine Ends.bind (returns_readTensor data p) fun r _ _ => ?_
    refine Ends.bind (ih r.2) fun _ _ _ => ?_
    exact ends_ok trivial

lemma returns_readAlignment {data : List UInt8} {fuel n q : ℕ}
    (h : skipMany (skipKv data fuel) n ggufKvStart = .ok (some q)) (local64 : UInt64) :
    Returns (readAlignment data fuel n local64) fun _ => True := by
  have hget := returns_getU32 h local64 alignmentKey
  unfold readAlignment
  split
  · exact ends_ok trivial
  · exact hget

/-- An opened file: its metadata was walked over. -/
def GgufFile.Walked (f : GgufFile) (fuel : ℕ) : Prop :=
  ∃ q, skipMany (skipKv f.data fuel) f.kvCount ggufKvStart = .ok (some q)

/-- `pai_gguf_open` returns, and the metadata of a file it opens was walked over. -/
lemma returns_paiGgufOpen (calloc : ℕ → Bool) {fuel : ℕ} (local64 : UInt64) {data : List UInt8}
    (hfuel : data.length < fuel) :
    Returns (paiGgufOpen calloc fuel local64 data) fun f => f.data = data ∧ f.Walked fuel := by
  unfold paiGgufOpen
  refine returns_refuse_bind fun hlen => ?_
  refine Ends.bind (ends_u32At (by omega)) fun magic _ _ => ?_
  refine returns_refuse_bind fun _ => ?_
  refine Ends.bind (ends_u32At (by omega)) fun version _ _ => ?_
  refine returns_refuse_bind fun _ => ?_
  refine Ends.bind (ends_u64At (by omega)) fun tensorCount _ _ => ?_
  refine Ends.bind (ends_u64At (by omega)) fun kvCount _ _ => ?_
  refine returns_refuse_bind fun _ => ?_
  refine Ends.bind (@returns_skipMany data _ ggufKvStart
    (fun p _ _ => returns_skipKv hfuel) kvCount.toNat _ le_rfl (not_lt.mp hlen)) fun r hr _ => ?_
  match r, hr with
  | none, _ => exact returns_stopWith _
  | some p, hr =>
    refine returns_refuse_bind fun _ => ?_
    refine Ends.bind (returns_readTensors _ _) fun r _ _ => ?_
    refine Ends.bind (returns_readAlignment hr local64) fun alignment _ _ => ?_
    refine returns_refuse_bind fun _ => ?_
    refine returns_refuse_bind fun _ => ?_
    exact ends_ok ⟨rfl, p, hr⟩

/-! ## Getters -/

section Getters

variable {f : GgufFile} {fuel : ℕ} (h : f.Walked fuel) (key : List UInt8)

include h

lemma returns_paiGgufGetU32 (local64 : UInt64) :
    Returns (paiGgufGetU32 fuel local64 f key) fun _ => True := by
  obtain ⟨q, hq⟩ := h
  exact returns_getU32 hq local64 key

lemma returns_paiGgufGetF32 (local64 : UInt64) :
    Returns (paiGgufGetF32 fuel local64 f key) fun _ => True := by
  have hu32 := returns_paiGgufGetU32 h key local64
  obtain ⟨q, hq⟩ := h
  unfold paiGgufGetF32
  refine Ends.bind (returns_findKv key hq) fun r _ hr => ?_
  match r, hr with
  | none, _ => exact returns_stopWith _
  | some (type, v), hr =>
    have hskipped := hr _ rfl
    dsimp only at hskipped ⊢
    split_ifs with hsingle hdouble
    · rw [hsingle] at hskipped
      exact Ends.bind (ends_u32At (skipped_scalar hskipped rfl)) fun _ _ _ => trivial
    · rw [hdouble] at hskipped
      exact Ends.bind (ends_bytesAt (skipped_scalar hskipped rfl)) fun _ _ _ => trivial
    · exact Ends.bind hu32 fun _ _ _ => trivial

lemma returns_paiGgufGetString (cap : ℕ) :
    Returns (paiGgufGetString fuel f key cap) fun _ => True := by
  obtain ⟨q, hq⟩ := h
  unfold paiGgufGetString
  refine returns_refuse_bind fun _ => ?_
  refine Ends.bind (returns_findKv key hq) fun r _ hr => ?_
  match r, hr with
  | none, _ => exact returns_stopWith _
  | some (type, v), hr =>
    have hskipped := hr _ rfl
    dsimp only at hskipped ⊢
    refine returns_refuse_bind fun htype => ?_
    rw [not_not.mp htype] at hskipped
    obtain ⟨len, hlen, hle, -⟩ := skipped_string hskipped
    rw [hlen, ok_bind]
    refine returns_refuse_bind fun hcap => ?_
    refine Ends.bind (ends_bytesAt hle) fun bytes _ _ => ?_
    refine returns_storeInside_bind (by omega) ?_
    refine returns_storeInside_bind (by omega) ?_
    exact ends_ok trivial

/-- The elements of an array that is found were walked over. -/
lemma returns_findArray :
    Returns (findArray fuel f key) fun r => ∀ a ∈ r, a.2.2 ≤ f.data.length ∧
      ∃ depth q, skipMany (skipValue f.data depth a.1) a.2.1 a.2.2 = .ok (some q) := by
  obtain ⟨q, hq⟩ := h
  unfold findArray
  refine Ends.bind (returns_findKv key hq) fun r _ hr => ?_
  match r, hr with
  | none, _ => exact ends_ok fun a ha => absurd ha (by simp)
  | some (type, v), hr =>
    have hskipped := hr _ rfl
    dsimp only at hskipped ⊢
    split_ifs with htype
    · exact ends_ok fun a ha => absurd ha (by simp)
    · rw [not_not.mp htype] at hskipped
      obtain ⟨elemType, count, depth, q, hle, helem, hcount, hmany⟩ := skipped_array hskipped
      rw [helem, ok_bind, hcount, ok_bind]
      refine ends_ok fun a ha => ?_
      cases ha
      exact ⟨hle, depth, q, hmany⟩

end Getters

/-- The strings of an array that was walked over are counted: a string takes eight bytes in the file
besides its own, and one in the copy. -/
lemma sizeStrings_of_skipMany {data : List UInt8} {depth n p q : ℕ} (hp : p ≤ data.length)
    (h : skipMany (skipValue data depth 8) n p = .ok (some q)) :
    ∃ blob, sizeStrings data n p = .ok blob ∧ p + 7 * n + blob ≤ data.length := by
  induction n generalizing p with
  | zero => exact ⟨0, rfl, by omega⟩
  | succ n ih =>
    obtain ⟨p', hfirst, hrest⟩ := skipMany_succ_eq_some h
    obtain ⟨len, hlen, hle, hskip⟩ := skipped_string ⟨p', hfirst⟩
    rw [hskip] at hfirst
    cases hfirst
    obtain ⟨blob, hblob, hroom⟩ := ih hle hrest
    refine ⟨len.toNat + 1 + blob, ?_, by omega⟩
    rw [sizeStrings, hlen, ok_bind, refuse_bind _ (by omega), hblob, ok_bind]

/-- The second pass over the strings writes what the first one counted. -/
lemma returns_fillStrings {data : List UInt8} {size depth n i p q blobp blob : ℕ}
    (h : skipMany (skipValue data depth 8) n p = .ok (some q))
    (hblob : sizeStrings data n p = .ok blob) (hslots : (i + n) * 8 ≤ size)
    (hroom : blobp + blob ≤ size) :
    Returns (fillStrings data size n i p blobp) fun _ => True := by
  induction n generalizing i p blobp blob with
  | zero => exact ends_ok trivial
  | succ n ih =>
    obtain ⟨p', hfirst, hrest⟩ := skipMany_succ_eq_some h
    obtain ⟨len, hlen, hle, hskip⟩ := skipped_string ⟨p', hfirst⟩
    rw [hskip] at hfirst
    cases hfirst
    rw [sizeStrings, hlen, ok_bind] at hblob
    obtain ⟨-, hblob⟩ := refuse_bind_eq_ok hblob
    obtain ⟨blob', hblob', hsum⟩ := bind_eq_ok hblob
    cases hsum
    rw [fillStrings, hlen, ok_bind]
    refine Ends.bind (ends_bytesAt hle) fun bytes _ _ => ?_
    refine returns_storeInside_bind (by omega) ?_
    refine returns_storeInside_bind (by omega) ?_
    refine returns_storeInside_bind (by omega) ?_
    refine Ends.bind (ih hrest hblob' (by omega) (by omega)) fun _ _ _ => ?_
    exact ends_ok trivial

lemma returns_paiGgufGetStringArray {f : GgufFile} {fuel : ℕ} (h : f.Walked fuel)
    (key : List UInt8) (malloc : ℕ → Bool) (hsize : f.data.length < 2 ^ 63) :
    Returns (paiGgufGetStringArray malloc fuel f key) fun _ => True := by
  unfold paiGgufGetStringArray
  refine Ends.bind (returns_findArray h key) fun r hfind hr => ?_
  match r, hfind, hr with
  | none, _, _ => exact returns_stopWith _
  | some (elemType, count, p), hfind, hr =>
    obtain ⟨hp, depth, q, hmany⟩ := hr _ rfl
    dsimp only at hp hmany ⊢
    refine returns_refuse_bind fun htype => ?_
    rw [not_not.mp htype] at hmany
    refine returns_refuse_bind fun hcount => ?_
    have hcount' : count ≤ 0x100000 := not_lt.mp hcount
    obtain ⟨blob, hblob, hle⟩ := sizeStrings_of_skipMany hp hmany
    rw [hblob, ok_bind]
    refine returns_refuse_bind fun _ => ?_
    rw [hfind, ok_bind]
    have hwrap : (count * 8 + if 0 < blob then blob else 1) % 0x10000000000000000 =
        count * 8 + if 0 < blob then blob else 1 := by
      apply Nat.mod_eq_of_lt
      split_ifs <;> omega
    dsimp only
    rw [hwrap]
    refine returns_fillStrings hmany hblob (by omega) ?_
    split_ifs <;> omega

/-- The floats of an array are copied inside the file and inside the copy. -/
lemma returns_fillFloats {data : List UInt8} {size n i p : ℕ} (hp : p + n * 4 ≤ data.length)
    (hsize : (i + n) * 4 ≤ size) : Returns (fillFloats data size n i p) fun _ => True := by
  induction n generalizing i p with
  | zero => exact ends_ok trivial
  | succ n ih =>
    rw [fillFloats]
    refine Ends.bind (ends_u32At (by omega)) fun bits _ _ => ?_
    refine returns_storeInside_bind (by omega) ?_
    refine Ends.bind (ih (by omega) (by omega)) fun _ _ _ => ?_
    exact ends_ok trivial

lemma returns_paiGgufGetF32Array {f : GgufFile} {fuel : ℕ} (h : f.Walked fuel) (key : List UInt8)
    (malloc : ℕ → Bool) : Returns (paiGgufGetF32Array malloc fuel f key) fun _ => True := by
  unfold paiGgufGetF32Array
  refine Ends.bind (returns_findArray h key) fun r _ hr => ?_
  match r, hr with
  | none, _ => exact returns_stopWith _
  | some (elemType, count, p), hr =>
    obtain ⟨hp, -⟩ := hr _ rfl
    dsimp only at hp ⊢
    refine returns_refuse_bind fun _ => ?_
    refine returns_refuse_bind fun hroom => ?_
    refine returns_refuse_bind fun _ => ?_
    exact returns_fillFloats (by omega) (by omega)

/-- The GGUF reader on any bytes: `pai_gguf_open` returns, and so does every getter on a file it has
opened.  All reads are inside the file, and all writes inside the output. -/
theorem paiGgufOpen_returns (calloc malloc : ℕ → Bool) (local64 : UInt64) (data : List UInt8)
    (hsize : data.length < 2 ^ 63) (fuel : ℕ) (hfuel : data.length < fuel) :
    Returns (paiGgufOpen calloc fuel local64 data) (fun _ => True) ∧
    ∀ f, paiGgufOpen calloc fuel local64 data = .ok f → ∀ (key : List UInt8) (local64' : UInt64),
      Returns (paiGgufGetU32 fuel local64' f key) (fun _ => True) ∧
      Returns (paiGgufGetF32 fuel local64' f key) (fun _ => True) ∧
      (∀ cap, Returns (paiGgufGetString fuel f key cap) (fun _ => True)) ∧
      Returns (paiGgufGetStringArray malloc fuel f key) (fun _ => True) ∧
      Returns (paiGgufGetF32Array malloc fuel f key) (fun _ => True) := by
  have hopen := returns_paiGgufOpen calloc local64 hfuel
  refine ⟨hopen.mono fun _ _ => trivial, fun f hf key local64' => ?_⟩
  obtain ⟨hdata, hwalked⟩ := hopen.of_ok hf
  refine ⟨returns_paiGgufGetU32 hwalked key local64', returns_paiGgufGetF32 hwalked key local64',
    returns_paiGgufGetString hwalked key, ?_, returns_paiGgufGetF32Array hwalked key malloc⟩
  exact returns_paiGgufGetStringArray hwalked key malloc (by rw [hdata]; exact hsize)

/-- A file whose only metadata value, under the key `k`, is an array of one string. -/
def stringArrayFile : List UInt8 :=
  u32le paiGgufMagic ++ u32le 3 ++ u64le 0 ++ u64le 1 ++ (u64le 1 ++ [107]) ++ u32le 9 ++
    (u32le 8 ++ u64le 1 ++ (u64le 2 ++ [104, 105])) ++ List.replicate 5 0

theorem stringArrayFile_returns :
    ∃ f, paiGgufOpen (fun _ => true) 65 0 stringArrayFile = .ok f ∧
      paiGgufGetStringArray (fun _ => true) 65 f [107] = .ok [[104, 105]] ∧
      Returns (paiGgufGetStringArray (fun _ => true) 65 f [107]) (fun _ => True) := by
  refine ⟨⟨stringArrayFile, 3, [], 1, 32, 64⟩, by decide +kernel, by decide +kernel, ?_⟩
  have hreturns := paiGgufOpen_returns (fun _ => true) (fun _ => true) 0 stringArrayFile
    (by decide +kernel) 65 (by decide +kernel)
  exact (hreturns.2 _ (by decide +kernel) [107] 0).2.2.2.1

end Prospero
