import Prospero.Gateway.JsonGrammar

/-!
# Writing JSON

The writer of `gateway/json.c`: a growing buffer, the quoting of strings, and the serializer, which walks
the first-child and next-sibling links of a document.

`Writes m b` says what a writing computation amounts to: it appends `b` while the buffer stays within
`2^31` bytes, and beyond its capacity wraps to zero, so that the doubling loop does not end.  What is
serialized is the compact text of the document (`Json.compact`), and the compact text of a document
without numbers is a text of the grammar again.

### Outline

* the buffer, `paiJsonQuote` and `paiJsonSerialize`;
* `writes_quote` and `writes_serialize`, which read the pool back as the document it holds;
* `derives_compact`, which gives the compact text the derivation of the text that was parsed;
* the round trips, and an array whose text is too long to be written.
-/

namespace Prospero

open Rfc8259 Reader

/-! ## Accessors -/

/-- `pai_json_type`. -/
def paiJsonType (doc : JsonDoc) (node : ℕ) : JsonType :=
  match doc.nodes[node]? with
  | some n => n.type
  | none => .null

/-- The bytes of the C string at an offset of the arena. -/
def strAt (strs : List UInt8) (off : ℕ) : List UInt8 := (strs.drop off).takeWhile (· ≠ 0)

/-- `pai_json_str`; the C string is given by its bytes. -/
def paiJsonStr (doc : JsonDoc) (node : ℕ) : Option (List UInt8) :=
  match doc.nodes[node]? with
  | some n => if n.type = .string then n.str.map (strAt doc.strs) else none
  | none => none

/-- `pai_json_num`. -/
def paiJsonNum (doc : JsonDoc) (node : ℕ) : Float :=
  match doc.nodes[node]? with
  | some n => if n.type = .number then n.num else 0
  | none => 0

/-- `pai_json_bool`. -/
def paiJsonBool (doc : JsonDoc) (node : ℕ) : Bool :=
  match doc.nodes[node]? with
  | some n => if n.type = .bool then n.boolean else false
  | none => false

/-! ## The buffer -/

/-- `pai_json_wb_t`. -/
structure JsonWb where
  /-- Bytes written. -/
  bytes : List UInt8
  /-- Capacity. -/
  cap : ℕ

/-- `pai_json_wb_init`. -/
def paiJsonWbInit : JsonWb := ⟨[], 0⟩

/-- `pai_json_wb_reserve`. -/
def paiJsonWbReserve (wb : JsonWb) (extra : ℕ) : JsonRun JsonWb :=
  match growTo 256 wb.cap ((wb.bytes.length + extra) % 0x100000000) with
  | none => .error .hang
  | some cap => .ok { wb with cap := cap }

/-- `pai_json_wb_putc`. -/
def paiJsonWbPutc (wb : JsonWb) (c : UInt8) : JsonRun JsonWb := do
  let wb ← paiJsonWbReserve wb 1
  .ok { wb with bytes := wb.bytes ++ [c] }

/-- `pai_json_wb_putn`. -/
def paiJsonWbPutn (wb : JsonWb) (s : List UInt8) : JsonRun JsonWb := do
  let wb ← paiJsonWbReserve wb s.length
  .ok { wb with bytes := wb.bytes ++ s }

/-- A digit of `%x`. -/
def hexChar (v : ℕ) : UInt8 := if v < 10 then UInt8.ofNat (48 + v) else UInt8.ofNat (87 + v)

/-- `%04x` of a number below `2^16`. -/
def fmt04x (v : ℕ) : List UInt8 :=
  [hexChar (v / 0x1000 % 16), hexChar (v / 0x100 % 16), hexChar (v / 0x10 % 16), hexChar (v % 16)]

/-- What `pai_json_quote` writes for a byte. -/
def quoteByte (c : UInt8) : List UInt8 :=
  match c.toNat with
  | 34 => [92, 34]
  | 92 => [92, 92]
  | 8 => [92, 98]
  | 12 => [92, 102]
  | 10 => [92, 110]
  | 13 => [92, 114]
  | 9 => [92, 116]
  | _ => if c < 0x20 then 92 :: 117 :: fmt04x c.toNat else [c]

/-- `pai_json_quote`. -/
def paiJsonQuote (wb : JsonWb) (s : List UInt8) : JsonRun JsonWb := do
  let wb ← paiJsonWbPutc wb 34
  let wb ← s.foldlM (fun wb c => paiJsonWbPutn wb (quoteByte c)) wb
  paiJsonWbPutc wb 34

/-- The key of a member, quoted, and a colon; nothing in an array. -/
def serializeKey (isObject : Bool) (strs : List UInt8) (key : Option ℕ) (wb : JsonWb) :
    JsonRun JsonWb :=
  if isObject then do
    let wb ← paiJsonQuote wb (strAt strs (key.getD 0))
    paiJsonWbPutc wb 58
  else .ok wb

/-- The loop over the children; `ser` serializes a child. -/
def serializeKids (isObject : Bool) (doc : JsonDoc) (ser : ℕ → JsonWb → JsonRun JsonWb) :
    ℕ → Bool → Option ℕ → JsonWb → JsonRun JsonWb
  | 0, _, _, _ => .error .outOfFuel
  | _ + 1, _, none, wb => .ok wb
  | fuel + 1, first, some child, wb => do
    let wb ← if first then .ok wb else paiJsonWbPutc wb 44
    let wb ← serializeKey isObject doc.strs ((doc.nodes[child]?).bind JsonNode.key) wb
    let wb ← ser child wb
    serializeKids isObject doc ser fuel false ((doc.nodes[child]?).bind JsonNode.next) wb

section Serialize

/- The text of `%.7g`. -/
variable (fmt7g : Float → List UInt8)

/-- `pai_json_serialize`; the fuel bounds the depth, and the number of siblings. -/
def paiJsonSerialize (doc : JsonDoc) : ℕ → ℕ → JsonWb → JsonRun JsonWb
  | 0, _, _ => .error .outOfFuel
  | fuel + 1, node, wb =>
    match doc.nodes[node]? with
    | none => .error (.status paiErrInvalidArg)
    | some n =>
      match n.type with
      | .null => paiJsonWbPutn wb [110, 117, 108, 108]
      | .bool => paiJsonWbPutn wb
          (if paiJsonBool doc node then [116, 114, 117, 101] else [102, 97, 108, 115, 101])
      | .number => paiJsonWbPutn wb (fmt7g (paiJsonNum doc node))
      | .string => paiJsonQuote wb ((paiJsonStr doc node).getD [])
      | .array => do
        let wb ← paiJsonWbPutc wb 91
        let wb ← serializeKids false doc (paiJsonSerialize doc fuel) (fuel + 1) true n.firstChild wb
        paiJsonWbPutc wb 93
      | .object => do
        let wb ← paiJsonWbPutc wb 123
        let wb ← serializeKids true doc (paiJsonSerialize doc fuel) (fuel + 1) true n.firstChild wb
        paiJsonWbPutc wb 125

end Serialize

/-! ## What writing amounts to -/

/-- What the buffer operations keep. -/
structure WbOk (wb : JsonWb) : Prop where
  /-- The buffer is within its largest capacity. -/
  len_le : wb.bytes.length ≤ 0x80000000
  /-- Doubling has reached the capacity. -/
  cap : ReachedCap 8 wb.cap

lemma wbOk_init : WbOk paiJsonWbInit := ⟨Nat.zero_le _, Or.inl rfl⟩

/-- The computation appends `b` if the buffer stays within `2^31` bytes, and else does not end. -/
structure Writes (m : JsonWb → JsonRun JsonWb) (b : List UInt8) : Prop where
  /-- It appends. -/
  append : ∀ wb, WbOk wb → wb.bytes.length + b.length ≤ 0x80000000 →
    ∃ wb', m wb = .ok wb' ∧ wb'.bytes = wb.bytes ++ b ∧ WbOk wb'
  /-- It does not end. -/
  hang : ∀ wb, WbOk wb → 0x80000000 < wb.bytes.length + b.length → m wb = .error .hang

namespace Writes

variable {m m' : JsonWb → JsonRun JsonWb} {b b' : List UInt8}

lemma skip : Writes .ok [] where
  append wb hwb _ := ⟨wb, rfl, (List.append_nil _).symm, hwb⟩
  hang wb hwb hlong := by
    have := hwb.len_le
    rw [List.length_nil] at hlong
    omega

/-- One piece behind the other. -/
lemma bind (h : Writes m b) (h' : Writes m' b') : Writes (fun wb => m wb >>= m') (b ++ b') where
  append wb hwb hfits := by
    rw [List.length_append] at hfits
    obtain ⟨wb₁, hrun, hbytes, hwb₁⟩ := h.append wb hwb (by omega)
    have hlen : wb₁.bytes.length = wb.bytes.length + b.length := by
      rw [hbytes, List.length_append]
    obtain ⟨wb₂, hrun', hbytes', hwb₂⟩ := h'.append wb₁ hwb₁ (by omega)
    refine ⟨wb₂, ?_, by rw [hbytes', hbytes, List.append_assoc], hwb₂⟩
    rw [hrun, ok_bind, hrun']
  hang wb hwb hlong := by
    rw [List.length_append] at hlong
    by_cases hfirst : wb.bytes.length + b.length ≤ 0x80000000
    · obtain ⟨wb₁, hrun, hbytes, hwb₁⟩ := h.append wb hwb hfirst
      have hlen : wb₁.bytes.length = wb.bytes.length + b.length := by
        rw [hbytes, List.length_append]
      rw [hrun, ok_bind]
      exact h'.hang wb₁ hwb₁ (by omega)
    · rw [h.hang wb hwb (not_le.mp hfirst)]
      rfl

/-- The outcome on the empty buffer. -/
lemma run_init (h : Writes m b) :
    (∃ wb, m paiJsonWbInit = .ok wb ∧ wb.bytes = b ∧ b.length ≤ 0x80000000) ∨
      (m paiJsonWbInit = .error .hang ∧ 0x80000000 < b.length) := by
  have hlen : paiJsonWbInit.bytes.length + b.length = b.length := Nat.zero_add _
  by_cases hfits : b.length ≤ 0x80000000
  · obtain ⟨wb, hrun, hbytes, -⟩ := h.append _ wbOk_init (hlen.trans_le hfits)
    exact Or.inl ⟨wb, hrun, hbytes, hfits⟩
  · refine Or.inr ⟨h.hang _ wbOk_init ?_, not_le.mp hfits⟩
    rw [hlen]
    exact not_le.mp hfits

end Writes

/-- `pai_json_wb_reserve` makes room within `2^31` bytes. -/
lemma wbReserve_spec {wb : JsonWb} (hwb : WbOk wb) {extra : ℕ} (hpos : 0 < extra)
    (hextra : extra ≤ 0x40000000) :
    (wb.bytes.length + extra ≤ 0x80000000 →
      ∃ cap, paiJsonWbReserve wb extra = .ok { wb with cap := cap } ∧ ReachedCap 8 cap) ∧
    (0x80000000 < wb.bytes.length + extra → paiJsonWbReserve wb extra = .error .hang) := by
  have hlen := hwb.len_le
  have hmod : (wb.bytes.length + extra) % 0x100000000 = wb.bytes.length + extra :=
    Nat.mod_eq_of_lt (by omega)
  have hspec := @growTo_spec 8 wb.cap (wb.bytes.length + extra) (by decide) hwb.cap (by omega)
  unfold paiJsonWbReserve
  rw [hmod]
  constructor
  · intro hfits
    obtain ⟨cap, hcap⟩ : ∃ cap, growTo 256 wb.cap (wb.bytes.length + extra) = some cap :=
      hspec.2 hfits
    refine ⟨cap, ?_, (hspec.1 cap hcap).2.2⟩
    rw [hcap]
  · intro hlong
    have hnone : growTo 256 wb.cap (wb.bytes.length + extra) = none := by
      rw [Option.eq_none_iff_forall_ne_some]
      intro cap hcap
      have := (hspec.1 cap hcap).1
      omega
    rw [hnone]

lemma writes_putn {b : List UInt8} (hpos : 0 < b.length) (hlen : b.length ≤ 0x40000000) :
    Writes (paiJsonWbPutn · b) b where
  append wb hwb hfits := by
    obtain ⟨cap, hrun, hcap⟩ := (wbReserve_spec hwb hpos hlen).1 hfits
    refine ⟨{ bytes := wb.bytes ++ b, cap := cap }, ?_, rfl, ?_, hcap⟩
    · rw [paiJsonWbPutn, hrun, ok_bind]
    · rw [List.length_append]
      exact hfits
  hang wb hwb hlong := by
    rw [paiJsonWbPutn, (wbReserve_spec hwb hpos hlen).2 hlong]
    rfl

lemma writes_putc (c : UInt8) : Writes (paiJsonWbPutc · c) [c] :=
  writes_putn (b := [c]) Nat.one_pos (Nat.succ_le_of_lt (Nat.succ_pos _))

/-! ## Quoting -/

/-- The quoted string. -/
def quoted (s : List UInt8) : List UInt8 := 34 :: (s.flatMap quoteByte ++ [34])

lemma length_quoteByte (c : UInt8) : 0 < (quoteByte c).length ∧ (quoteByte c).length ≤ 6 := by
  unfold quoteByte
  split
  case h_8 => split_ifs <;> simp [fmt04x]
  all_goals simp

lemma length_quoted (s : List UInt8) : (quoted s).length ≤ 6 * s.length + 2 := by
  have hle : (s.flatMap quoteByte).length ≤ 6 * s.length := by
    induction s with
    | nil => exact Nat.zero_le _
    | cons c s ih =>
      have := (length_quoteByte c).2
      rw [List.flatMap_cons, List.length_append, List.length_cons]
      omega
  rw [quoted, List.length_cons, List.length_append, List.length_singleton]
  omega

lemma writes_quoteBytes (s : List UInt8) :
    Writes (fun wb => s.foldlM (fun wb c => paiJsonWbPutn wb (quoteByte c)) wb)
      (s.flatMap quoteByte) := by
  induction s with
  | nil => exact Writes.skip
  | cons c s ih =>
    obtain ⟨hpos, hle⟩ := length_quoteByte c
    exact (writes_putn hpos (by omega)).bind ih

/-- `pai_json_quote` writes the quoted string. -/
lemma writes_quote (s : List UInt8) : Writes (paiJsonQuote · s) (quoted s) :=
  (writes_putc 34).bind ((writes_quoteBytes s).bind (writes_putc 34))

/-- An escape of four hexadecimal digits. -/
lemma chars_unit {u : ℕ} (h : u < 0x10000) {t r : List UInt8} {us : List StringUnit} (ht : Chars t r us) :
    Chars (92 :: 117 :: (fmt04x u ++ t)) r (.unit u :: us) := by
  have hdigit : ∀ v < 16, HexDigit (hexChar v) v := by
    intro v hv
    rw [← hexVal_iff]
    revert hv
    revert v
    decide
  have hunit : ((u / 0x1000 % 16 * 16 + u / 0x100 % 16) * 16 + u / 0x10 % 16) * 16 + u % 16 = u := by omega
  have hchars := Chars.unicode (hdigit (u / 0x1000 % 16) (Nat.mod_lt _ (by decide)))
    (hdigit (u / 0x100 % 16) (Nat.mod_lt _ (by decide)))
    (hdigit (u / 0x10 % 16) (Nat.mod_lt _ (by decide)))
    (hdigit (u % 16) (Nat.mod_lt _ (by decide))) ht
  rwa [hunit] at hchars

/-- A quoted control character. -/
lemma chars_control {c : UInt8} (h : c < 0x20) {t r : List UInt8} {us : List StringUnit}
    (ht : Chars t r us) : Chars (92 :: 117 :: (fmt04x c.toNat ++ t)) r (.unit c.toNat :: us) := by
  have hlt : c.toNat < 32 := UInt8.lt_iff_toNat_lt.mp h
  exact chars_unit (by omega) ht

/-- The quoted bytes are characters that denote the bytes. -/
lemma chars_quoteByte (c : UInt8) {t r : List UInt8} {us : List StringUnit} (ht : Chars t r us) :
    ∃ us', Chars (quoteByte c ++ t) r us' ∧ decodeUnits us' = c :: decodeUnits us := by
  have hbyte : ∀ k, c.toNat = k → c = UInt8.ofNat k := by
    rintro k rfl
    exact UInt8.ofNat_toNat.symm
  unfold quoteByte
  split
  case h_8 hquote hback _ _ _ _ _ =>
    split_ifs with hcontrol
    · have hlt : c.toNat < 32 := UInt8.lt_iff_toNat_lt.mp hcontrol
      refine ⟨_, chars_control hcontrol ht, ?_⟩
      rw [decodeUnits_lone fun hhigh => by unfold isHigh at hhigh; omega, loneUnit, if_neg, utf8,
        if_pos (by omega), UInt8.ofNat_toNat]
      · rfl
      · rintro (h | h) <;> omega
    · refine ⟨_, .raw (UInt8.not_lt.mp hcontrol) ?_ ?_ ht, rfl⟩
      · rintro rfl
        exact hquote rfl
      · rintro rfl
        exact hback rfl
  all_goals
    next hc =>
      obtain rfl := hbyte _ hc
      exact ⟨_, .escape (by decide) ht, rfl⟩

/-- The quoted string is a string literal that denotes the string. -/
lemma stringLit_quoted {s : List UInt8} (hlen : s.length ≤ paiJsonMaxString) (r : List UInt8) :
    StringLit paiJsonMaxString (quoted s ++ r) r s := by
  have hchars : ∃ us, Chars (s.flatMap quoteByte ++ 34 :: r) (34 :: r) us ∧ decodeUnits us = s := by
    clear hlen
    induction s with
    | nil => exact ⟨[], .nil, rfl⟩
    | cons c s ih =>
      obtain ⟨us, hus, hdecode⟩ := ih
      obtain ⟨us', hus', hdecode'⟩ := chars_quoteByte c hus
      refine ⟨us', ?_, by rw [hdecode', hdecode]⟩
      rw [List.flatMap_cons, List.append_assoc]
      exact hus'
  obtain ⟨us, hus, rfl⟩ := hchars
  rw [quoted, List.cons_append, List.append_assoc, List.singleton_append]
  exact .mk hus hlen

/-! ## Compact texts -/

/-- The comma in front of a child that is not the first. -/
def separator (first : Bool) : List UInt8 := if first then [] else [44]

/-- The quoted key of a member, and a colon. -/
def keyText : Option (List UInt8) → List UInt8
  | some key => quoted key ++ [58]
  | none => []

mutual

/-- The text of a document without whitespace.  Documents with numbers are left out by `Plain`. -/
def compact : Json → List UInt8
  | .null => [110, 117, 108, 108]
  | .bool b => if b then [116, 114, 117, 101] else [102, 97, 108, 115, 101]
  | .number => []
  | .string s => quoted s
  | .container isObject kids => opening isObject :: (compactKids true kids ++ [closing isObject])

/-- The texts of children, with commas between them. -/
def compactKids (first : Bool) : List (Option (List UInt8) × Json) → List UInt8
  | [] => []
  | kid :: kids => separator first ++ (compactKid kid ++ compactKids false kids)

/-- The text of a child. -/
def compactKid : Option (List UInt8) × Json → List UInt8
  | (key, v) => keyText key ++ compact v

end

mutual

/-- The document has no numbers, and no NUL in its strings and keys. -/
def Plain : Json → Prop
  | .number => False
  | .string s => 0 ∉ s
  | .container _ kids => PlainKids kids
  | _ => True

/-- The children have no numbers, and no NUL in their strings and keys. -/
def PlainKids : List (Option (List UInt8) × Json) → Prop
  | [] => True
  | kid :: kids => PlainKid kid ∧ PlainKids kids

/-- The child has no numbers, and no NUL in its strings and keys. -/
def PlainKid : Option (List UInt8) × Json → Prop
  | (key, v) => (∀ k ∈ key, 0 ∉ k) ∧ Plain v

end

lemma strAt_eq {strs s : List UInt8} {off : ℕ} (h : HasString strs off s) (hs : 0 ∉ s) :
    strAt strs off = s := by
  obtain ⟨more, hmore⟩ := h
  have htake : s.takeWhile (· ≠ 0) = s := by
    rw [List.takeWhile_eq_self_iff]
    intro c hc
    rw [decide_eq_true_eq]
    rintro rfl
    exact hs hc
  rw [strAt, ← hmore, List.append_assoc, List.takeWhile_append, htake, if_pos rfl]
  simp

lemma paiJsonBool_eq {doc : JsonDoc} {n : JsonNode} {i : ℕ} {b : Bool}
    (hn : doc.nodes[i]? = some n) (h : HoldsValue doc n i (.bool b)) : paiJsonBool doc i = b := by
  rw [HoldsValue] at h
  rw [paiJsonBool, hn]
  dsimp only
  rw [if_pos h.1, h.2]

lemma paiJsonStr_eq {doc : JsonDoc} {n : JsonNode} {i : ℕ} {s : List UInt8}
    (hn : doc.nodes[i]? = some n) (h : HoldsValue doc n i (.string s)) (hs : 0 ∉ s) :
    paiJsonStr doc i = some s := by
  rw [HoldsValue] at h
  obtain ⟨htype, off, hoff, hhas⟩ := h
  rw [paiJsonStr, hn]
  dsimp only
  rw [if_pos htype, hoff, Option.map_some, strAt_eq hhas hs]

/-! ## The serializer writes the compact text -/

lemma writes_separator (first : Bool) :
    Writes (fun wb => if first then .ok wb else paiJsonWbPutc wb 44) (separator first) := by
  cases first with
  | true => exact Writes.skip
  | false => exact writes_putc 44

lemma writes_serializeKey {m : ℕ} {isObject : Bool} {t u strs : List UInt8}
    {key : Option (List UInt8)} (h : Key m isObject t u key) {off : Option ℕ}
    (hkey : HasKey strs off key) (hplain : ∀ k ∈ key, 0 ∉ k) :
    Writes (serializeKey isObject strs off) (keyText key) := by
  cases h with
  | absent => exact Writes.skip
  | @present _ _ _ _ key _ _ _ =>
    match off, hkey with
    | some off, hkey =>
      have hwrites := (writes_quote key).bind (writes_putc 58)
      rw [← strAt_eq hkey (hplain key rfl)] at hwrites ⊢
      exact hwrites

section Serialize

variable {fmt7g : Float → List UInt8}

/-- The serializer writes the text of a phrase that the pool holds. -/
def SerializesAt (fmt7g : Float → List UInt8) : (k : Phrase) → k.Out → Prop
  | .value, j => ∀ {doc : JsonDoc} {n : JsonNode} {i fuel : ℕ}, doc.nodes[i]? = some n →
      HoldsValue doc n i j → Plain j → doc.nodes.length < fuel + i →
      Writes (paiJsonSerialize fmt7g doc fuel i) (compact j)
  | .items isObject, kids => ∀ {doc : JsonDoc} {i fuel f : ℕ} (first : Bool), HoldsKids doc i kids →
      PlainKids kids → doc.nodes.length < fuel + i → doc.nodes.length < f + i →
      Writes (serializeKids isObject doc (paiJsonSerialize fmt7g doc fuel) f first (linkTo i kids))
        (compactKids first kids)

/-- One pass of the children loop. -/
lemma writes_serializeKid {m : ℕ} {isObject first : Bool} {t u : List UInt8}
    {key : Option (List UInt8)} {j : Json} (hkey : Key m isObject t u key)
    (hvalue : SerializesAt fmt7g .value j) {doc : JsonDoc} {i fuel f : ℕ} {next : Option ℕ}
    (hkid : HoldsKid doc i next (key, j)) (hplain : PlainKid (key, j))
    (hfuel : doc.nodes.length < fuel + i) {b : List UInt8}
    (hmore : Writes (serializeKids isObject doc (paiJsonSerialize fmt7g doc fuel) f false next) b) :
    Writes (serializeKids isObject doc (paiJsonSerialize fmt7g doc fuel) (f + 1) first (some i))
      (separator first ++ (compactKid (key, j) ++ b)) := by
  rw [HoldsKid] at hkid
  rw [PlainKid] at hplain
  obtain ⟨n, hn, hhas, hnext, hholds⟩ := hkid
  have hstep : serializeKids isObject doc (paiJsonSerialize fmt7g doc fuel) (f + 1) first (some i) =
      fun wb => (if first then .ok wb else paiJsonWbPutc wb 44) >>= fun wb =>
        serializeKey isObject doc.strs n.key wb >>= fun wb =>
        paiJsonSerialize fmt7g doc fuel i wb >>=
        serializeKids isObject doc (paiJsonSerialize fmt7g doc fuel) f false next := by
    funext wb
    rw [serializeKids, hn, Option.bind_some, Option.bind_some, hnext]
    cases first <;> rfl
  rw [hstep, compactKid, List.append_assoc]
  exact (writes_separator first).bind ((writes_serializeKey hkey hhas hplain.1).bind
    ((hvalue hn hholds hplain.2 hfuel).bind hmore))

lemma HoldsKids.lt_length {doc : JsonDoc} {i : ℕ} {kid : Option (List UInt8) × Json}
    {kids : List (Option (List UInt8) × Json)} (h : HoldsKids doc i (kid :: kids)) :
    i < doc.nodes.length := by
  obtain ⟨key, v⟩ := kid
  rw [HoldsKids, HoldsKid] at h
  obtain ⟨⟨n, hn, -⟩, -⟩ := h
  exact (List.getElem?_eq_some_iff.mp hn).1

lemma nodes_pos (j : Json) : 0 < j.nodes := by
  cases j <;> simp [Json.nodes]

/-- The brackets around children. -/
lemma writes_container {isObject : Bool} {doc : JsonDoc} {n : JsonNode} {i fuel : ℕ}
    {kids : List (Option (List UInt8) × Json)} (hn : doc.nodes[i]? = some n)
    (hholds : HoldsValue doc n i (.container isObject kids))
    (hkids : Writes (serializeKids isObject doc (paiJsonSerialize fmt7g doc fuel) (fuel + 1) true
      (linkTo (i + 1) kids)) (compactKids true kids)) :
    Writes (paiJsonSerialize fmt7g doc (fuel + 1) i) (compact (.container isObject kids)) := by
  rw [HoldsValue] at hholds
  obtain ⟨htype, hfirst, -⟩ := hholds
  have hstep : paiJsonSerialize fmt7g doc (fuel + 1) i = fun wb =>
      paiJsonWbPutc wb (opening isObject) >>= fun wb =>
        serializeKids isObject doc (paiJsonSerialize fmt7g doc fuel) (fuel + 1) true
          (linkTo (i + 1) kids) wb >>= fun wb =>
        paiJsonWbPutc wb (closing isObject) := by
    funext wb
    rw [paiJsonSerialize, hn]
    dsimp only
    rw [htype, hfirst]
    cases isObject <;> rfl
  rw [hstep, compact]
  exact (writes_putc (opening isObject)).bind (hkids.bind (writes_putc (closing isObject)))

/-- The serializer writes what was parsed. -/
lemma serializesAt_of_derives {d : Dialect} {k : Phrase} {n : ℕ} {t r : List UInt8} {out : k.Out}
    (h : Derives d k n t r out) : SerializesAt fmt7g k out := by
  have hfuel : ∀ {doc : JsonDoc} {n : JsonNode} {i fuel : ℕ}, doc.nodes[i]? = some n →
      doc.nodes.length < fuel + i → ∃ f, fuel = f + 1 := by
    intro doc n i fuel hn hlt
    have := (List.getElem?_eq_some_iff.mp hn).1
    exact ⟨fuel - 1, by omega⟩
  have hbool : ∀ b, SerializesAt fmt7g .value (Json.bool b) := by
    intro b doc n i fuel hn hholds _ hlt
    obtain ⟨fuel, rfl⟩ := hfuel hn hlt
    have hstep : paiJsonSerialize fmt7g doc (fuel + 1) i =
        (paiJsonWbPutn · (if b then [116, 114, 117, 101] else [102, 97, 108, 115, 101])) := by
      funext wb
      rw [paiJsonSerialize, paiJsonBool_eq hn hholds, hn]
      rw [HoldsValue] at hholds
      dsimp only
      rw [hholds.1]
    rw [hstep]
    cases b <;> exact writes_putn (Nat.succ_pos _) (by decide)
  induction h with
  | null =>
    intro doc n i fuel hn hholds _ hlt
    obtain ⟨fuel, rfl⟩ := hfuel hn hlt
    rw [HoldsValue] at hholds
    have hstep : paiJsonSerialize fmt7g doc (fuel + 1) i =
        (paiJsonWbPutn · [110, 117, 108, 108]) := by
      funext wb
      rw [paiJsonSerialize, hn]
      dsimp only
      rw [hholds]
    rw [hstep]
    exact writes_putn (Nat.succ_pos _) (by decide)
  | isTrue => exact hbool true
  | isFalse => exact hbool false
  | number _ =>
    intro doc n i fuel _ _ hplain _
    exact absurd hplain (by rw [Plain]; exact id)
  | @string _ _ _ s _ =>
    intro doc n i fuel hn hholds hplain hlt
    obtain ⟨fuel, rfl⟩ := hfuel hn hlt
    rw [Plain] at hplain
    have hstep : paiJsonSerialize fmt7g doc (fuel + 1) i = (paiJsonQuote · s) := by
      funext wb
      rw [paiJsonSerialize, paiJsonStr_eq hn hholds hplain, hn]
      rw [HoldsValue] at hholds
      dsimp only
      rw [hholds.1]
      rfl
    rw [hstep, compact]
    exact writes_quote s
  | empty _ =>
    intro doc n i fuel hn hholds _ hlt
    obtain ⟨fuel, rfl⟩ := hfuel hn hlt
    refine writes_container hn hholds ?_
    rw [compactKids]
    exact Writes.skip
  | container _ _ ih =>
    intro doc n i fuel hn hholds hplain hlt
    obtain ⟨fuel, rfl⟩ := hfuel hn hlt
    have hkids := hholds
    rw [HoldsValue] at hkids
    rw [Plain] at hplain
    exact writes_container hn hholds (ih true hkids.2.2 hplain (by omega) (by omega))
  | last hkey _ _ ih =>
    intro doc i fuel f first hkids hplain hlt hf
    have hi := hkids.lt_length
    rw [HoldsKids] at hkids
    rw [PlainKids] at hplain
    obtain ⟨f, rfl⟩ : ∃ g, f = g + 1 + 1 := ⟨f - 2, by omega⟩
    rw [compactKids, compactKids]
    exact writes_serializeKid hkey ih hkids.1 hplain.1 hlt Writes.skip
  | @more _ _ _ _ _ _ _ _ key j kids hkey _ _ _ _ hd ih ih' =>
    intro doc i fuel f first hkids hplain hlt hf
    have hi := hkids.lt_length
    have hpos := nodes_pos j
    rw [HoldsKids, nodesOfKid] at hkids
    rw [PlainKids] at hplain
    obtain ⟨f, rfl⟩ : ∃ g, f = g + 1 := ⟨f - 1, by omega⟩
    rw [compactKids]
    exact writes_serializeKid hkey ih hkids.1 hplain.1 hlt
      (ih' false hkids.2 hplain.2 (by omega) (by omega))

end Serialize

/-! ## The compact text is a text -/

lemma StringLit.length_le {m : ℕ} {t r s : List UInt8} (h : StringLit m t r s) : s.length ≤ m := by
  cases h with
  | mk _ hlen => exact hlen

lemma key_keyText {isObject : Bool} {t u : List UInt8} {key : Option (List UInt8)}
    (h : Key paiJsonMaxString isObject t u key) (r : List UInt8) :
    Key paiJsonMaxString isObject (keyText key ++ r) r key := by
  cases h with
  | absent => exact .absent
  | present hlit _ _ =>
    rw [keyText, List.append_assoc, List.singleton_append]
    exact .present (stringLit_quoted (StringLit.length_le hlit) _) .nil .nil

lemma items_ne_nil {d : Dialect} {n : ℕ} {isObject : Bool} {t r : List UInt8}
    {kids : List (Option (List UInt8) × Json)} (h : Derives d (.items isObject) n t r kids) :
    kids ≠ [] := by
  cases h <;> exact List.cons_ne_nil _ _

lemma compactKids_false {kids : List (Option (List UInt8) × Json)} (h : kids ≠ []) :
    compactKids false kids = 44 :: compactKids true kids := by
  match kids, h with
  | kid :: kids, _ =>
    rw [compactKids, compactKids]
    rfl

/-- The compact text of a phrase is the phrase again. -/
def CompactAt : (k : Phrase) → ℕ → k.Out → Prop
  | .value, n, j => Plain j → ∀ r, Derives tightDialect .value n (compact j ++ r) r j
  | .items isObject, n, kids => PlainKids kids → ∀ r,
      Derives tightDialect (.items isObject) n (compactKids true kids ++ closing isObject :: r) r kids

lemma compactAt_of_derives {k : Phrase} {n : ℕ} {t r : List UInt8} {out : k.Out}
    (h : Derives tightDialect k n t r out) : CompactAt k n out := by
  induction h with
  | null => exact fun _ _ => .null
  | isTrue => exact fun _ _ => .isTrue
  | isFalse => exact fun _ _ => .isFalse
  | number _ =>
    intro hplain
    rw [Plain] at hplain
    exact hplain.elim
  | string h =>
    intro _ r
    rw [compact]
    exact .string (stringLit_quoted (StringLit.length_le h) r)
  | @empty _ isObject _ _ _ =>
    intro _ r
    rw [compact, compactKids, List.nil_append]
    exact .empty .nil
  | @container _ isObject _ _ _ kids _ _ ih =>
    intro hplain r
    rw [Plain] at hplain
    rw [compact, List.cons_append, List.append_assoc, List.singleton_append]
    exact .container .nil (ih hplain r)
  | last hkey _ _ ih =>
    intro hplain r
    rw [PlainKids, PlainKid] at hplain
    rw [compactKids, compactKids, compactKid, List.append_nil, separator, if_pos rfl,
      List.nil_append, List.append_assoc]
    exact .last (key_keyText hkey _) (ih hplain.1.2 _) .nil
  | more hkey _ _ _ _ hd ih ih' =>
    intro hplain r
    rw [PlainKids, PlainKid] at hplain
    rw [compactKids, compactKid, compactKids_false (items_ne_nil hd), separator, if_pos rfl,
      List.nil_append, List.append_assoc, List.append_assoc]
    exact .more (key_keyText hkey _) (ih hplain.1.2 _) .nil .nil (Or.inr (Or.inr rfl))
      (ih' hplain.2 r)

/-- The compact text of a document that was parsed denotes the document. -/
lemma IsTightJson.compact_text {text : List UInt8} {j : Json} (h : IsTightJson text j) (hplain : Plain j) :
    IsTightJson (compact j) j := by
  obtain ⟨⟨t, u, -, hd, -⟩, hnodes, hbytes⟩ := h
  have hcompact := compactAt_of_derives hd hplain []
  rw [List.append_nil] at hcompact
  exact ⟨⟨_, [], .nil, hcompact, .nil⟩, hnodes, hbytes⟩

/-! ## Round trips -/

/-- What is quoted is parsed back as the string. -/
def QuoteRoundTrip (s : List UInt8) : Prop :=
  ∃ wb doc node, paiJsonQuote paiJsonWbInit s = .ok wb ∧ paiJsonParse wb.bytes = .ok doc ∧
    doc.root = some node ∧ paiJsonType doc node = .string ∧ paiJsonStr doc node = some s

/-- The text, which denotes `j`, is parsed, and what is serialized from its root is parsed back as the
same document. -/
def SerializeRoundTrip (fmt7g : Float → List UInt8) (text : List UInt8) (j : Json) : Prop :=
  ∃ doc node wb doc', paiJsonParse text = .ok doc ∧ Represents doc j ∧ doc.root = some node ∧
    paiJsonSerialize fmt7g doc (doc.nodes.length + 1) node paiJsonWbInit = .ok wb ∧
    paiJsonParse wb.bytes = .ok doc' ∧ Represents doc' j

lemma quoteRoundTrip {s : List UInt8} (hs : 0 ∉ s) (hlen : s.length ≤ paiJsonMaxString) :
    QuoteRoundTrip s := by
  have hmax : paiJsonMaxString = 0x100000 := rfl
  obtain ⟨wb, hrun, hbytes, -⟩ | ⟨-, hlong⟩ := (writes_quote s).run_init
  · have hd := Derives.string (d := tightDialect) (n := paiJsonMaxDepth) (stringLit_quoted hlen [])
    rw [List.append_nil] at hd
    have htight : IsTightJson (quoted s) (.string s) := by
      refine ⟨⟨_, [], .nil, hd, .nil⟩, by change 1 ≤ paiJsonMaxNodes; decide, ?_⟩
      rw [Json.stringBytes]
      omega
    obtain ⟨doc, hparse, node, n, hroot, hn, hholds⟩ := htight.parses
    refine ⟨wb, doc, node, hrun, by rw [hbytes, hparse], hroot, ?_, paiJsonStr_eq hn hholds hs⟩
    rw [HoldsValue] at hholds
    rw [paiJsonType, hn]
    exact hholds.1
  · have := length_quoted s
    omega

/-- Serializing a document that was parsed writes its compact text. -/
lemma IsTightJson.serializes {text : List UInt8} {j : Json} (h : IsTightJson text j)
    (hplain : Plain j) (fmt7g : Float → List UInt8) :
    ∃ doc node, paiJsonParse text = .ok doc ∧ Represents doc j ∧ doc.root = some node ∧
      Writes (paiJsonSerialize fmt7g doc (doc.nodes.length + 1) node) (compact j) := by
  obtain ⟨doc, hparse, hrep⟩ := h.parses
  obtain ⟨node, n, hroot, hn, hholds⟩ := hrep
  obtain ⟨⟨t, u, -, hd, -⟩, -⟩ := h
  exact ⟨doc, node, hparse, ⟨node, n, hroot, hn, hholds⟩, hroot,
    serializesAt_of_derives hd hn hholds hplain (by omega)⟩

lemma serializeRoundTrip_iff {text : List UInt8} {j : Json} (h : IsTightJson text j)
    (hplain : Plain j) (fmt7g : Float → List UInt8) :
    SerializeRoundTrip fmt7g text j ↔ (compact j).length ≤ 0x80000000 := by
  obtain ⟨doc, node, hparse, hrep, hroot, hwrites⟩ := h.serializes hplain fmt7g
  obtain ⟨doc', hparse', hrep'⟩ := (h.compact_text hplain).parses
  obtain ⟨wb, hrun, hbytes, hfits⟩ | ⟨hhang, hlong⟩ := hwrites.run_init
  · refine ⟨fun _ => hfits, fun _ => ⟨doc, node, wb, doc', hparse, hrep, hroot, hrun, ?_, hrep'⟩⟩
    rw [hbytes, hparse']
  · refine ⟨?_, fun hfits => absurd hfits (not_le.mpr hlong)⟩
    rintro ⟨doc₁, node₁, wb, _, hparse₁, -, hroot₁, hrun, -⟩
    rw [hparse] at hparse₁
    cases hparse₁
    rw [hroot] at hroot₁
    cases hroot₁
    rw [hhang] at hrun
    cases hrun

/-- **The writer and the parser are inverse**: a quoted string is parsed back, and what is serialized
from a parsed document without numbers is parsed back as long as its text fits into `2^31` bytes. -/
theorem paiJsonWriter_inverse_iff (fmt7g : Float → List UInt8) {text : List UInt8} {j : Json}
    (h : IsTightJson text j) (hplain : Plain j) :
    ((∀ s : List UInt8, 0 ∉ s → s.length ≤ paiJsonMaxString → QuoteRoundTrip s) ∧
      SerializeRoundTrip fmt7g text j) ↔ (compact j).length ≤ 0x80000000 := by
  rw [serializeRoundTrip_iff h hplain fmt7g]
  exact and_iff_right fun s hs hlen => quoteRoundTrip hs hlen

/-- `["a"]`. -/
theorem paiJsonWriter_inverse_iff_letter :
    ((∀ s : List UInt8, 0 ∉ s → s.length ≤ paiJsonMaxString → QuoteRoundTrip s) ∧
      SerializeRoundTrip (fun _ => []) [91, 34, 97, 34, 93] (.container false [(none, .string [97])])) ↔
      (compact (.container false [(none, .string [97])])).length ≤ 0x80000000 := by
  refine paiJsonWriter_inverse_iff (fun _ => []) ⟨⟨_, [], .nil, ?_, .nil⟩, by decide, by decide⟩ ?_
  · have hlit := stringLit_quoted (s := [97]) (by decide) [93]
    exact @Derives.container _ _ false _ _ _ _ .nil (.last .absent (.string hlit) .nil)
  · simp [Plain, PlainKids, PlainKid]

/-! ## A text that is too long to be written -/

/-- A string of `2^20` quotes. -/
def quoteRun : List UInt8 := List.replicate 0x100000 34

/-- An array of `1100` strings of `2^20` quotes. -/
def manyQuotes : Json := .container false (List.replicate 1100 (none, .string quoteRun))

lemma length_quoted_replicate (n : ℕ) : (quoted (List.replicate n 34)).length = 2 * n + 2 := by
  have hflat : ((List.replicate n 34).flatMap quoteByte).length = 2 * n := by
    induction n with
    | zero => rfl
    | succ n ih =>
      rw [List.replicate_succ, List.flatMap_cons, List.length_append, ih]
      change 2 + 2 * n = 2 * (n + 1)
      omega
  rw [quoted, List.length_cons, List.length_append, hflat]
  rfl

section Replicate

variable (kid : Option (List UInt8) × Json) (m : ℕ)

lemma length_compactKids_replicate :
    (compactKids false (List.replicate m kid)).length = m * (1 + (compactKid kid).length) := by
  induction m with
  | zero => rw [Nat.zero_mul]; rfl
  | succ m ih =>
    rw [List.replicate_succ, compactKids, List.length_append, List.length_append, ih, Nat.succ_mul]
    change 1 + _ = _
    omega

lemma nodesOfKids_replicate : nodesOfKids (List.replicate m kid) = m * nodesOfKid kid := by
  induction m with
  | zero => rw [Nat.zero_mul]; rfl
  | succ m ih =>
    rw [List.replicate_succ, nodesOfKids, ih, Nat.succ_mul]
    omega

lemma bytesOfKids_replicate : bytesOfKids (List.replicate m kid) = m * bytesOfKid kid := by
  induction m with
  | zero => rw [Nat.zero_mul]; rfl
  | succ m ih =>
    rw [List.replicate_succ, bytesOfKids, ih, Nat.succ_mul]
    omega

lemma plainKids_replicate (h : PlainKid kid) : PlainKids (List.replicate m kid) := by
  induction m with
  | zero => trivial
  | succ m ih =>
    rw [List.replicate_succ, PlainKids]
    exact ⟨h, ih⟩

end Replicate

lemma derives_strings {s : List UInt8} (hlen : s.length ≤ paiJsonMaxString) (n m : ℕ)
    (r : List UInt8) :
    Derives tightDialect (.items false) (n + 1)
      (compactKids true (List.replicate (m + 1) (none, .string s)) ++ 93 :: r) r
      (List.replicate (m + 1) (none, .string s)) := by
  induction m with
  | zero =>
    have hvalue := Derives.string (d := tightDialect) (n := n) (stringLit_quoted hlen (93 :: r))
    have hlast := @Derives.last tightDialect (n + 1) false _ _ _ r none _ .absent hvalue .nil
    rw [List.replicate_succ, List.replicate_zero, compactKids, compactKids, compactKid, keyText,
      List.append_nil, List.nil_append]
    exact hlast
  | succ m ih =>
    have hvalue := Derives.string (d := tightDialect) (n := n) (stringLit_quoted hlen
      (44 :: (compactKids true (List.replicate (m + 1) (none, .string s)) ++ 93 :: r)))
    have hmore := @Derives.more tightDialect (n + 1) false _ _ _ _ _ _ none _ _ .absent hvalue .nil
      .nil (Or.inr (Or.inl rfl)) ih
    rw [List.replicate_succ, compactKids, compactKids_false (by simp), compactKid, keyText, separator,
      if_pos rfl, List.nil_append, List.nil_append, compact, List.append_assoc, List.cons_append]
    exact hmore

/-- The text of `manyQuotes` is a text within the limits, but what is serialized from it does not end. -/
theorem manyQuotes_not_inverse :
    IsTightJson (compact manyQuotes) manyQuotes ∧ Plain manyQuotes ∧
      (compact manyQuotes).length < 0x100000000 ∧
      ¬ SerializeRoundTrip (fun _ => []) (compact manyQuotes) manyQuotes := by
  have hmax : paiJsonMaxString = 0x100000 := rfl
  have hlen : quoteRun.length = 0x100000 := List.length_replicate
  have hquoted : (quoted quoteRun).length = 0x200002 := length_quoted_replicate 0x100000
  have hkid : compactKid (none, .string quoteRun) = quoted quoteRun := by
    rw [compactKid, keyText, List.nil_append, compact]
  have htext : (compact manyQuotes).length = 2306870501 := by
    rw [manyQuotes, compact, List.replicate_succ, compactKids, List.length_cons, List.length_append,
      List.length_append, List.length_append, length_compactKids_replicate, hkid, hquoted]
    rfl
  have hplain : Plain manyQuotes := by
    refine plainKids_replicate _ _ ⟨fun _ h => (by cases h), ?_⟩
    rw [Plain, quoteRun, List.mem_replicate]
    exact fun h => absurd h.2 (by decide)
  have htight : IsTightJson (compact manyQuotes) manyQuotes := by
    have hd := @Derives.container tightDialect 32 false _ _ _ _ .nil
      (derives_strings (hlen.trans hmax.symm).le 31 1099 [])
    refine ⟨⟨_, [], .nil, ?_, .nil⟩, ?_, ?_⟩
    · rw [manyQuotes, compact]
      exact hd
    · rw [manyQuotes, Json.nodes, nodesOfKids_replicate]
      decide
    · rw [manyQuotes, Json.stringBytes, bytesOfKids_replicate, bytesOfKid, keyBytes, Json.stringBytes,
        hlen]
      decide
  refine ⟨htight, hplain, by rw [htext]; decide, ?_⟩
  rw [serializeRoundTrip_iff htight hplain, htext]
  decide

end Prospero
