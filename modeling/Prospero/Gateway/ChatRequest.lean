import Prospero.Gateway.ChatPrompt
import Prospero.Lib.NumberText

/-!
# Chat requests

The chat requests of `desktop/src/main/services/gateway.ts`, with the parameters that `samplingBody` puts
into them, their texts, and the checks of the parameters in `handle_completions` of `gateway/gateway.c`.

Strings of JavaScript are their UTF-16 code units, and numbers its finite numbers; a text is what
`JSON.stringify` makes of a value, in UTF-8, where the text of a number is a parameter.

### Outline

* the values of a request, `samplingBody` and `chatBody`;
* their texts;
* the checks of the sampling parameters, of the stop sequences and of the seed;
* the documents of the texts, and that strings are decoded to the UTF-8 of their code units.
-/

namespace Prospero

open NumberText (Number)
open Rfc8259

/-! ## Requests -/

/-- A string of JavaScript. -/
abbrev JsString := List UInt16

/-- A value of JavaScript. -/
inductive JsValue where
  | bool (b : Bool)
  | number (x : Number)
  | string (s : JsString)
  | array (items : List JsValue)
  | object (members : List (JsString × JsValue))

/-- `ChatRequestParams`; `none` stands for a field that is missing. -/
structure ChatRequestParams where
  /-- Temperature. -/
  temperature : Option Number
  /-- Limit on the tokens. -/
  maxTokens : Option Number
  /-- Probability mass. -/
  topP : Option Number
  /-- Number of candidates. -/
  topK : Option Number
  /-- Seed. -/
  seed : Option Number
  /-- Stop sequences. -/
  stop : Option (List JsString)

/-- `"temperature"` -/
def temperatureName : JsString := [116, 101, 109, 112, 101, 114, 97, 116, 117, 114, 101]
/-- `"max_tokens"` -/
def maxTokensName : JsString := [109, 97, 120, 95, 116, 111, 107, 101, 110, 115]
/-- `"top_p"` -/
def topPName : JsString := [116, 111, 112, 95, 112]
/-- `"top_k"` -/
def topKName : JsString := [116, 111, 112, 95, 107]
/-- `"seed"` -/
def seedName : JsString := [115, 101, 101, 100]
/-- `"stop"` -/
def stopName : JsString := [115, 116, 111, 112]

/-- A small integer. -/
def smallNumber (n : ℕ) (h : n ≤ 2048) : Number :=
  Number.literal n ⟨Nat.cast_nonneg n, by
    have hcast : (n : ℚ) ≤ 2 ^ 11 := by exact_mod_cast h
    exact hcast.trans (pow_le_pow_right₀ one_le_two (by norm_num))⟩

/-- `0.05` -/
def twentieth : Number :=
  Number.literal (5 / 100) ⟨by norm_num, le_trans (by norm_num) (one_le_pow₀ one_le_two)⟩

/-- `Math.max(lo, Math.min(hi, x))`. -/
def clamp (lo hi x : Number) : Number := Number.max lo (Number.min hi x)

/-- The stop sequences that are sent: the first 64 units of each, without empty ones, and four of them. -/
def keptStops (stop : List JsString) : List JsString :=
  ((stop.map (·.take 64)).filter (· ≠ [])).take 4

/-- The temperature that is sent. -/
def sentTemperature (x : Number) : Number :=
  clamp (smallNumber 0 (by norm_num)) (smallNumber 2 (by norm_num)) x

/-- The limit on the tokens that is sent. -/
def sentMaxTokens (x : Number) : Number :=
  clamp (smallNumber 1 (by norm_num)) (smallNumber 2048 (by norm_num)) x.floor

/-- The probability mass that is sent. -/
def sentTopP (x : Number) : Number := clamp twentieth (smallNumber 1 (by norm_num)) x

/-- The number of candidates that is sent. -/
def sentTopK (x : Number) : Number := (Number.min (smallNumber 200 (by norm_num)) x).floor

/-- `samplingBody`. -/
def samplingBody (params : ChatRequestParams) : List (JsString × JsValue) :=
  [(temperatureName, params.temperature.map fun x => .number (sentTemperature x)),
    (maxTokensName, params.maxTokens.map fun x => .number (sentMaxTokens x)),
    (topPName, params.topP.map fun x => .number (sentTopP x)),
    (topKName, (params.topK.filter fun x => 0 < x.val).map fun x => .number (sentTopK x)),
    (seedName, (params.seed.filter fun x => 0 ≤ x.val).map fun x => .number x.floor),
    (stopName, (params.stop.filter fun stop => keptStops stop ≠ []).map fun stop =>
      .array ((keptStops stop).map .string))].filterMap
    fun (name, value) => value.map (name, ·)

/-- `ChatMessage['role']`. -/
inductive ChatRole where
  | system
  | user
  | assistant

/-- The text of a role. -/
def ChatRole.text : ChatRole → JsString
  | .system => [115, 121, 115, 116, 101, 109]
  | .user => [117, 115, 101, 114]
  | .assistant => [97, 115, 115, 105, 115, 116, 97, 110, 116]

/-- `ChatMessage`. -/
structure ChatMessage where
  /-- Role. -/
  role : ChatRole
  /-- Content. -/
  content : JsString

/-- `validateMessages`. -/
def validateMessages (messages : List ChatMessage) : Option (List ChatMessage) :=
  if messages = [] ∨ 100 < messages.length then none
  else some (messages.map fun m => { m with content := m.content.take 32000 })

/-- `"role"` -/
def roleName : JsString := [114, 111, 108, 101]
/-- `"content"` -/
def contentName : JsString := [99, 111, 110, 116, 101, 110, 116]
/-- `"model"` -/
def modelName : JsString := [109, 111, 100, 101, 108]
/-- `"messages"` -/
def messagesName : JsString := [109, 101, 115, 115, 97, 103, 101, 115]
/-- `"stream"` -/
def streamName : JsString := [115, 116, 114, 101, 97, 109]

/-- A message as a value. -/
def ChatMessage.value (m : ChatMessage) : JsValue :=
  .object [(roleName, .string m.role.text), (contentName, .string m.content)]

/-- The members of a body in front of the parameters. -/
def baseMembers (model : JsString) (messages : List ChatMessage) (stream : Bool) :
    List (JsString × JsValue) :=
  [(modelName, .string model), (messagesName, .array (messages.map ChatMessage.value)),
    (streamName, .bool stream)]

/-- The body of `completeChat` and `streamChat`, as its members. -/
def chatBody (model : JsString) (messages : List ChatMessage) (stream : Bool)
    (params : ChatRequestParams) :
    Option (List (JsString × JsValue)) :=
  if model = [] ∨ 256 < model.length then none
  else (validateMessages messages).map fun messages =>
    baseMembers model messages stream ++ samplingBody params

/-! ## Texts -/

/-- A code unit in a quoted string that is no part of a surrogate pair. -/
def quoteUnit (u : ℕ) : List UInt8 :=
  match u with
  | 8 => [92, 98]
  | 9 => [92, 116]
  | 10 => [92, 110]
  | 12 => [92, 102]
  | 13 => [92, 114]
  | 34 => [92, 34]
  | 92 => [92, 92]
  | u => if u < 32 ∨ isHigh u ∨ isLow u then 92 :: 117 :: fmt04x u else utf8 u

/-- The code units in a quoted string. -/
def quoteUnits : JsString → List UInt8
  | [] => []
  | [u] => quoteUnit u.toNat
  | u :: v :: s =>
    if isHigh u.toNat ∧ isLow v.toNat then utf8 (pairPoint u.toNat v.toNat) ++ quoteUnits s
    else quoteUnit u.toNat ++ quoteUnits (v :: s)

/-- `QuoteJSONString`, in UTF-8. -/
def quoteJson (s : JsString) : List UInt8 := 34 :: (quoteUnits s ++ [34])

section Texts

variable (numberText : Number → List UInt8)

mutual

/-- `JSON.stringify`, in UTF-8. -/
def stringify : JsValue → List UInt8
  | .bool b => if b then [116, 114, 117, 101] else [102, 97, 108, 115, 101]
  | .number x => numberText x
  | .string s => quoteJson s
  | .array items => 91 :: (List.intercalate [44] (stringifyItems items) ++ [93])
  | .object members => 123 :: (List.intercalate [44] (stringifyMembers members) ++ [125])

/-- The texts of the items of an array. -/
def stringifyItems : List JsValue → List (List UInt8)
  | [] => []
  | v :: items => stringify v :: stringifyItems items

/-- The texts of the members of an object. -/
def stringifyMembers : List (JsString × JsValue) → List (List UInt8)
  | [] => []
  | member :: members => stringifyMember member :: stringifyMembers members

/-- The text of a member. -/
def stringifyMember : JsString × JsValue → List UInt8
  | (name, v) => quoteJson name ++ 58 :: stringify v

end

end Texts

/-! ## Checks -/

/-- The texts of the refusals. -/
inductive Refusal where
  | sampling
  | stopText
  | stopCount
  | stopKind
  | stopItem
  | seed
deriving DecidableEq

/-- What `send_error` is given. -/
def Refusal.message : Refusal → String
  | .sampling => "invalid sampling parameters"
  | .stopText => "stop must be a non-empty string of at most 64 chars"
  | .stopCount => "stop must contain 1..4 strings"
  | .stopKind => "stop must be a string or array of strings"
  | .stopItem => "stop must be non-empty strings of at most 64 chars"
  | .seed => "seed out of range"

/-- `"temperature"` -/
def temperatureKey : List UInt8 := [116, 101, 109, 112, 101, 114, 97, 116, 117, 114, 101]
/-- `"max_tokens"` -/
def maxTokensKey : List UInt8 := [109, 97, 120, 95, 116, 111, 107, 101, 110, 115]
/-- `"top_p"` -/
def topPKey : List UInt8 := [116, 111, 112, 95, 112]
/-- `"top_k"` -/
def topKKey : List UInt8 := [116, 111, 112, 95, 107]
/-- `"seed"` -/
def seedKey : List UInt8 := [115, 101, 101, 100]
/-- `"stop"` -/
def stopKey : List UInt8 := [115, 116, 111, 112]

/-- `num_member`. -/
def numMember (doc : JsonDoc) (obj : ℕ) (key : List UInt8) (default : Float) : Float :=
  match paiJsonMember doc obj key with
  | none => default
  | some m => if paiJsonType doc m ≠ .number then default else paiJsonNum doc m

/-- The check of the sampling parameters. -/
def checkSampling (doc : JsonDoc) (root : ℕ) : Option Refusal :=
  let temp := numMember doc root temperatureKey 0.0
  let topP := numMember doc root topPKey 1.0
  let topK := numMember doc root topKKey 0.0
  let mt := numMember doc root maxTokensKey 16.0
  if temp < 0.0 ∨ topP ≤ 0.0 ∨ topP > 1.0 ∨ topK < 0.0 ∨ mt < 1.0 then some .sampling else none

/-- `GW_STOP_MAX`. -/
abbrev gwStopMax : ℕ := 4
/-- `GW_STOP_MAX_LEN`. -/
abbrev gwStopMaxLen : ℕ := 64

/-- A stop sequence that is neither empty nor too long. -/
def stopFits (s : List UInt8) : Bool := s ≠ [] ∧ s.length ≤ gwStopMaxLen

/-- The check of an element of the stop sequences. -/
def checkStopItem (doc : JsonDoc) (node i : ℕ) : Option Refusal :=
  match paiJsonArrayAt doc node i with
  | none => some .stopKind
  | some e =>
    if paiJsonType doc e ≠ .string then some .stopKind
    else if stopFits ((paiJsonStr doc e).getD []) then none else some .stopItem

/-- The check of the stop sequences. -/
def checkStop (doc : JsonDoc) (root : ℕ) : Option Refusal :=
  match paiJsonMember doc root stopKey with
  | none => none
  | some node =>
    if paiJsonType doc node = .string then
      if stopFits ((paiJsonStr doc node).getD []) then none else some .stopText
    else if paiJsonType doc node = .array then
      match paiJsonArrayLen doc node with
      | none => some .stopCount
      | some n =>
        if n ≤ 0 ∨ gwStopMax < n then some .stopCount
        else (List.range n).findSome? (checkStopItem doc node)
    else some .stopKind

/-- The check of the seed. -/
def checkSeed (doc : JsonDoc) (root : ℕ) : Option Refusal :=
  let seed := numMember doc root seedKey (-1.0)
  if seed < -1.0 ∨ seed > 18446744073709551615.0 then some .seed else none

/-- A body that is parsed to an object whose parameters pass the checks. -/
def Served (body : List UInt8) : Prop :=
  ∃ doc root, paiJsonParse body = .ok doc ∧ doc.root = some root ∧ paiJsonType doc root = .object ∧
    checkSampling doc root = none ∧ checkStop doc root = none ∧ checkSeed doc root = none

/-! ## Documents -/

/-- The UTF-8 of a string; a surrogate without a partner is replaced. -/
def utf8Of (s : JsString) : List UInt8 := decodeUnits (s.map fun u => .unit u.toNat)

mutual

/-- The document of a value. -/
def toJson : JsValue → Json
  | .bool b => .bool b
  | .number _ => .number
  | .string s => .string (utf8Of s)
  | .array items => .container false (toItems items)
  | .object members => .container true (toMembers members)

/-- The children of an array. -/
def toItems : List JsValue → List (Option (List UInt8) × Json)
  | [] => []
  | v :: items => (none, toJson v) :: toItems items

/-- The children of an object. -/
def toMembers : List (JsString × JsValue) → List (Option (List UInt8) × Json)
  | [] => []
  | member :: members => toMember member :: toMembers members

/-- A member of an object. -/
def toMember : JsString × JsValue → Option (List UInt8) × Json
  | (name, v) => (some (utf8Of name), toJson v)

end

lemma toMembers_eq (members : List (JsString × JsValue)) : toMembers members = members.map toMember := by
  induction members with
  | nil => rfl
  | cons member members ih => rw [toMembers, ih, List.map_cons]

lemma toItems_eq (items : List JsValue) : toItems items = items.map fun v => (none, toJson v) := by
  induction items with
  | nil => rfl
  | cons v items ih => rw [toItems, ih, List.map_cons]

/-! ## Strings -/

lemma le_of_mem_utf8 {u : ℕ} (hlo : 0x80 ≤ u) (hhi : u < 0x110000) :
    ∀ b ∈ utf8 u, (0x80 : UInt8) ≤ b := by
  have hbyte : ∀ k, 0x80 ≤ k → k < 0x100 → (0x80 : UInt8) ≤ UInt8.ofNat k := by
    intro k hk hk'
    rw [UInt8.le_iff_toNat_le, UInt8.toNat_ofNat_of_lt' hk']
    exact hk
  have hcons : ∀ k bytes, 0x80 ≤ k → k < 0x100 → (∀ b ∈ bytes, (0x80 : UInt8) ≤ b) →
      ∀ b ∈ UInt8.ofNat k :: bytes, (0x80 : UInt8) ≤ b :=
    fun k bytes hk hk' hmore => List.forall_mem_cons.mpr ⟨hbyte k hk hk', hmore⟩
  have hnil : ∀ b ∈ ([] : List UInt8), (0x80 : UInt8) ≤ b := fun b hb => absurd hb List.not_mem_nil
  unfold utf8
  rw [if_neg (by omega)]
  split_ifs with h2 h3
  · exact hcons _ _ (by omega) (by omega) (hcons _ _ (by omega) (by omega) hnil)
  · exact hcons _ _ (by omega) (by omega) (hcons _ _ (by omega) (by omega)
      (hcons _ _ (by omega) (by omega) hnil))
  · exact hcons _ _ (by omega) (by omega) (hcons _ _ (by omega) (by omega)
      (hcons _ _ (by omega) (by omega) (hcons _ _ (by omega) (by omega) hnil)))

lemma length_utf8_le (u : ℕ) : (utf8 u).length ≤ 4 := by
  unfold utf8
  split_ifs <;> simp

lemma length_loneUnit_le {u : ℕ} (h : u < 0x10000) : (loneUnit u).length ≤ 3 := by
  unfold loneUnit utf8
  split_ifs <;> first | (simp; done) | (simp; omega)

lemma utf8Of_pair {u v : UInt16} {s : JsString} (h : isHigh u.toNat ∧ isLow v.toNat) :
    utf8Of (u :: v :: s) = utf8 (pairPoint u.toNat v.toNat) ++ utf8Of s := decodeUnits_pair h.1 h.2

lemma utf8Of_lone {u v : UInt16} {s : JsString} (h : ¬ (isHigh u.toNat ∧ isLow v.toNat)) :
    utf8Of (u :: v :: s) = loneUnit u.toNat ++ utf8Of (v :: s) := by
  rw [utf8Of, List.map_cons, List.map_cons, decodeUnits, if_neg h]
  rfl

lemma utf8Of_singleton (u : UInt16) : utf8Of [u] = loneUnit u.toNat := by
  rw [utf8Of, List.map_cons, List.map_nil, decodeUnits, decodeUnits, List.append_nil]
  intros
  simp_all

/-- A string has at most three bytes for each code unit. -/
lemma length_utf8Of_le (s : JsString) : (utf8Of s).length ≤ 3 * s.length := by
  induction s using quoteUnits.induct with
  | case1 => exact Nat.le_refl 0
  | case2 u =>
    rw [utf8Of_singleton]
    exact length_loneUnit_le u.toNat_lt
  | case3 u v s h ih =>
    have hpair := length_utf8_le (pairPoint u.toNat v.toNat)
    rw [utf8Of_pair h, List.length_append, List.length_cons, List.length_cons]
    omega
  | case4 u v s h ih =>
    have hlone := length_loneUnit_le u.toNat_lt
    rw [utf8Of_lone h, List.length_append, List.length_cons]
    omega

/-- Bytes that stand for themselves. -/
lemma chars_bytes {bytes t r : List UInt8} {us : List StringUnit}
    (h : ∀ b ∈ bytes, 32 ≤ b ∧ b ≠ 34 ∧ b ≠ 92) (ht : Chars t r us) :
    ∃ us', Chars (bytes ++ t) r us' ∧ decodeUnits us' = bytes ++ decodeUnits us ∧
      (bytes ≠ [] → Unpaired us') := by
  induction bytes with
  | nil => exact ⟨us, ht, rfl, fun h => absurd rfl h⟩
  | cons b bytes ih =>
    obtain ⟨⟨hlo, hquote, hback⟩, hmore⟩ := List.forall_mem_cons.mp h
    obtain ⟨us', hchars, hdecode, -⟩ := ih hmore
    refine ⟨.byte b :: us', .raw hlo hquote hback hchars, ?_, fun _ v us'' heq => by cases heq⟩
    rw [decodeUnits, hdecode]
    rfl

/-- The bytes of a code point from `0x80` on stand for themselves. -/
lemma chars_utf8 {u : ℕ} (hlo : 0x80 ≤ u) (hhi : u < 0x110000) {t r : List UInt8} {us : List StringUnit}
    (ht : Chars t r us) :
    ∃ us', Chars (utf8 u ++ t) r us' ∧ decodeUnits us' = utf8 u ++ decodeUnits us ∧ Unpaired us' := by
  have hbytes : ∀ b ∈ utf8 u, 32 ≤ b ∧ b ≠ 34 ∧ b ≠ 92 := by
    intro b hb
    have hle := UInt8.le_iff_toNat_le.mp (le_of_mem_utf8 hlo hhi b hb)
    rw [show (0x80 : UInt8).toNat = 128 from rfl] at hle
    refine ⟨UInt8.le_iff_toNat_le.mpr (by rw [show (32 : UInt8).toNat = 32 from rfl]; omega), ?_, ?_⟩
    · rintro rfl
      exact absurd hle (by decide)
    · rintro rfl
      exact absurd hle (by decide)
  obtain ⟨us', hchars, hdecode, hunpaired⟩ := chars_bytes hbytes ht
  refine ⟨us', hchars, hdecode, hunpaired ?_⟩
  unfold utf8
  split_ifs <;> exact List.cons_ne_nil _ _

/-- What follows a code unit is not the low surrogate that it lacks. -/
def FollowsUnit (u : ℕ) (us : List StringUnit) : Prop := isHigh u → Unpaired us

/-- A code unit is written as characters that denote it; a unit that is written as an escape is that
unit. -/
lemma chars_quoteUnit {u : ℕ} (hu : u < 0x10000) {t r : List UInt8} {us : List StringUnit}
    (ht : Chars t r us) (hfollows : FollowsUnit u us) :
    ∃ us', Chars (quoteUnit u ++ t) r us' ∧ decodeUnits us' = loneUnit u ++ decodeUnits us ∧
      (¬ isLow u → Unpaired us') := by
  have hescape : ∀ c b : UInt8, (c, b) ∈ escapes → loneUnit u = [b] →
      ∃ us', Chars (92 :: c :: t) r us' ∧ decodeUnits us' = loneUnit u ++ decodeUnits us ∧
        (¬ isLow u → Unpaired us') := by
    intro c b hmem hlone
    exact ⟨.byte b :: us, .escape hmem ht, by rw [hlone]; rfl, fun _ v us'' heq => by cases heq⟩
  unfold quoteUnit
  split
  case h_8 hne8 hne9 hne10 hne12 hne13 hne34 hne92 =>
    split_ifs with hspecial
    · refine ⟨.unit u :: us, chars_unit hu ht, decodeUnits_lone hfollows, ?_⟩
      rintro hlow v us'' ⟨⟩
      exact hlow
    · have hnot : ¬ (isHigh u ∨ isLow u) := fun h => hspecial (Or.inr h)
      have hlone : loneUnit u = utf8 u := by rw [loneUnit, if_neg hnot]
      rw [hlone]
      rcases Nat.lt_or_ge u 0x80 with hascii | hlarge
      · have hutf8 : utf8 u = [UInt8.ofNat u] := if_pos hascii
        have hnat : (UInt8.ofNat u).toNat = u := UInt8.toNat_ofNat_of_lt' (show u < 256 by omega)
        have hraw : ∀ b ∈ utf8 u, 32 ≤ b ∧ b ≠ 34 ∧ b ≠ 92 := by
          rw [hutf8, List.forall_mem_singleton]
          refine ⟨UInt8.le_iff_toNat_le.mpr ?_, fun h => ?_, fun h => ?_⟩
          · rw [hnat]
            exact not_lt.mp fun h => hspecial (Or.inl h)
          · rw [h] at hnat
            exact hne34 hnat.symm
          · rw [h] at hnat
            exact hne92 hnat.symm
        obtain ⟨us', hchars, hdecode, hunpaired⟩ := chars_bytes hraw ht
        exact ⟨us', hchars, hdecode, fun _ => hunpaired (by rw [hutf8]; exact List.cons_ne_nil _ _)⟩
      · obtain ⟨us', hchars, hdecode, hunpaired⟩ := chars_utf8 hlarge (by omega) ht
        exact ⟨us', hchars, hdecode, fun _ => hunpaired⟩
  all_goals exact hescape _ _ (by decide) rfl

/-- A quoted string denotes the UTF-8 of its code units. -/
lemma chars_quoteUnits (s : JsString) (r : List UInt8) :
    ∃ us, Chars (quoteUnits s ++ r) r us ∧ decodeUnits us = utf8Of s ∧
      ∀ u, (∀ v ∈ s.head?, ¬ (isHigh u ∧ isLow v.toNat)) → FollowsUnit u us := by
  induction s using quoteUnits.induct with
  | case1 => exact ⟨[], .nil, rfl, fun u _ _ v us h => by cases h⟩
  | case2 u =>
    obtain ⟨us, hchars, hdecode, hunpaired⟩ := chars_quoteUnit u.toNat_lt (@Chars.nil r)
      (show FollowsUnit u.toNat [] from fun _ v us h => by cases h)
    refine ⟨us, hchars, ?_, fun w hw hhigh => hunpaired fun hlow => hw u rfl ⟨hhigh, hlow⟩⟩
    rw [hdecode, utf8Of_singleton]
    exact List.append_nil _
  | case3 u v s h ih =>
    obtain ⟨us, hchars, hdecode, -⟩ := ih
    have hpoint : 0x80 ≤ pairPoint u.toNat v.toNat ∧ pairPoint u.toNat v.toNat < 0x110000 := by
      obtain ⟨⟨h1, h2⟩, h3, h4⟩ := h
      unfold pairPoint
      omega
    obtain ⟨us', hchars', hdecode', hunpaired⟩ := chars_utf8 hpoint.1 hpoint.2 hchars
    refine ⟨us', ?_, ?_, fun _ _ _ => hunpaired⟩
    · rw [quoteUnits, if_pos h, List.append_assoc]
      exact hchars'
    · rw [hdecode', hdecode, utf8Of_pair h]
  | case4 u v s h ih =>
    obtain ⟨us, hchars, hdecode, hfollows⟩ := ih
    obtain ⟨us', hchars', hdecode', hunpaired⟩ := chars_quoteUnit u.toNat_lt hchars
      (hfollows u.toNat fun w hw => by cases hw; exact h)
    refine ⟨us', ?_, ?_, fun w hw hhigh => hunpaired fun hlow => hw u rfl ⟨hhigh, hlow⟩⟩
    · rw [quoteUnits, if_neg h, List.append_assoc]
      exact hchars'
    · rw [hdecode', hdecode, utf8Of_lone h]

/-- A quoted string is a string literal. -/
lemma stringLit_quoteJson {m : ℕ} (s : JsString) (h : 3 * s.length ≤ m) (r : List UInt8) :
    StringLit m (quoteJson s ++ r) r (utf8Of s) := by
  obtain ⟨us, hchars, hdecode, -⟩ := chars_quoteUnits s (34 :: r)
  rw [← hdecode, show quoteJson s ++ r = 34 :: (quoteUnits s ++ 34 :: r) by simp [quoteJson]]
  exact .mk hchars (by rw [hdecode]; exact (length_utf8Of_le s).trans h)

end Prospero
