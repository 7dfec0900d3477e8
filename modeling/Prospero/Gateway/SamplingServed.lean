import Prospero.Gateway.SamplingChecks

/-!
# The parameters of the desktop at the gateway

Whether the request that the desktop makes of sampling parameters is served: `pai_json_parse` accepts its
text, and the parameters pass the checks.

### Outline

* the text of a request: its derivation, its size, and where its members are found;
* `ReadParams`, what the parameters are read as, and the checks of the seed and of the stop sequences;
* `samplingBody_served_iff`, and a stop sequence of 64 letters that is refused.
-/

namespace Prospero

open NumberText (Number Prints Decimal Shortest)
open Binary64 Rfc8259 Reader

/-! ## The text of a request -/

section Bodies

variable {numberText : Number → List UInt8}

lemma derives_string {n : ℕ} {s : JsString} (h : 3 * s.length ≤ paiJsonMaxString) (r : List UInt8) :
    Derives tightDialect .value (n + 1) (stringify numberText (.string s) ++ r) r
    (toJson (.string s)) := by
  rw [stringify, toJson]
  exact .string (stringLit_quoteJson s h r)

/-- The items of an array. -/
lemma derives_items {n : ℕ} {items : List JsValue} (hne : items ≠ [])
    (h : ∀ v ∈ items, ∀ r, Derives tightDialect .value n (stringify numberText v ++ r) r (toJson v))
    (r : List UInt8) :
    Derives tightDialect (.items false) n
      (List.intercalate [44] (stringifyItems numberText items) ++ 93 :: r) r (toItems items) := by
  induction items with
  | nil => exact absurd rfl hne
  | cons v items ih =>
    obtain ⟨hv, hitems⟩ := List.forall_mem_cons.mp h
    rw [stringifyItems, toItems]
    by_cases hlast : items = []
    · subst hlast
      rw [stringifyItems, toItems, List.intercalate_singleton]
      exact .last .absent (hv _) .nil
    · have hne' : stringifyItems numberText items ≠ [] := by
        obtain ⟨w, ws, rfl⟩ := List.exists_cons_of_ne_nil hlast
        exact List.cons_ne_nil _ _
      rw [List.intercalate_cons_of_ne_nil hne', List.append_assoc, List.append_assoc]
      exact .more .absent (hv _) .nil .nil (Or.inr (Or.inl rfl)) (ih hlast hitems)

lemma derives_array {n : ℕ} {items : List JsValue} (hne : items ≠ [])
    (h : ∀ v ∈ items, ∀ r, Derives tightDialect .value n (stringify numberText v ++ r) r (toJson v))
    (r : List UInt8) :
    Derives tightDialect .value (n + 1) (stringify numberText (.array items) ++ r) r
      (toJson (.array items)) := by
  rw [stringify, toJson, List.cons_append, List.append_assoc]
  exact @Derives.container _ _ false _ _ _ _ .nil (derives_items hne h r)

lemma key_name {name : JsString} (h : 3 * name.length ≤ paiJsonMaxString) (t : List UInt8) :
    Key paiJsonMaxString true (quoteJson name ++ 58 :: t) t (some (utf8Of name)) :=
  .present (stringLit_quoteJson name h _) .nil .nil

lemma length_role (role : ChatRole) : role.text.length ≤ 9 := by
  cases role <;> decide

/-- A message. -/
lemma derives_message {n : ℕ} {m : ChatMessage} (h : m.content.length ≤ 32000) (r : List UInt8) :
    Derives tightDialect .value (n + 2) (stringify numberText m.value ++ r) r (toJson m.value) := by
  have hrole := length_role m.role
  have hmax : paiJsonMaxString = 1048576 := rfl
  rw [ChatMessage.value, stringify, toJson, stringifyMembers, stringifyMembers, stringifyMembers,
    List.intercalate_cons_of_ne_nil (List.cons_ne_nil _ _), List.intercalate_singleton, stringifyMember,
    stringifyMember, List.cons_append]
  simp only [List.append_assoc, List.cons_append, List.nil_append]
  refine @Derives.container _ _ true _ _ _ _ .nil ?_
  refine .more (key_name (by decide) _) (derives_string (by omega) _) .nil .nil (Or.inr (Or.inr rfl)) ?_
  exact .last (key_name (by decide) _) (derives_string (by omega) _) .nil

/-! ## Sizes -/

lemma nodesOfKids_le {kids : List (Option (List UInt8) × Json)} {b : ℕ}
    (h : ∀ kid ∈ kids, nodesOfKid kid ≤ b) :
    nodesOfKids kids ≤ kids.length * b := by
  induction kids with
  | nil => exact Nat.zero_le _
  | cons kid kids ih =>
    obtain ⟨hkid, hkids⟩ := List.forall_mem_cons.mp h
    have hmore := ih hkids
    rw [nodesOfKids, List.length_cons, Nat.add_mul, Nat.one_mul]
    omega

lemma bytesOfKids_le {kids : List (Option (List UInt8) × Json)} {b : ℕ}
    (h : ∀ kid ∈ kids, bytesOfKid kid ≤ b) :
    bytesOfKids kids ≤ kids.length * b := by
  induction kids with
  | nil => exact Nat.zero_le _
  | cons kid kids ih =>
    obtain ⟨hkid, hkids⟩ := List.forall_mem_cons.mp h
    have hmore := ih hkids
    rw [bytesOfKids, List.length_cons, Nat.add_mul, Nat.one_mul]
    omega

/-- The nodes and the bytes of an array of strings. -/
lemma size_strings {strings : List JsString} {b : ℕ} (h : ∀ s ∈ strings, s.length ≤ b) :
    (toJson (.array (strings.map .string))).nodes ≤ 1 + strings.length ∧
      (toJson (.array (strings.map .string))).stringBytes ≤ strings.length * (3 * b + 1) := by
  have hlen : ((strings.map JsValue.string).map fun v =>
      ((none : Option (List UInt8)), toJson v)).length = strings.length := by
    rw [List.length_map, List.length_map]
  rw [toJson, toItems_eq, Json.nodes, Json.stringBytes]
  constructor
  · have hnodes := @nodesOfKids_le ((strings.map JsValue.string).map fun v => (none, toJson v)) 1 (by
      simp only [List.forall_mem_map]
      intro s _
      exact Nat.le_refl 1)
    omega
  · have hbytes := @bytesOfKids_le ((strings.map JsValue.string).map fun v => (none, toJson v))
      (3 * b + 1) (by
      simp only [List.forall_mem_map]
      intro s hs
      have hs' := h s hs
      have hutf8 := length_utf8Of_le s
      rw [bytesOfKid, keyBytes, toJson, Json.stringBytes]
      omega)
    rwa [hlen] at hbytes

/-- The nodes and the bytes of the messages. -/
lemma size_messages {messages : List ChatMessage} (h : ∀ m ∈ messages, m.content.length ≤ 32000) :
    (toJson (.array (messages.map ChatMessage.value))).nodes ≤ 1 + messages.length * 3 ∧
      (toJson (.array (messages.map ChatMessage.value))).stringBytes ≤ messages.length * 96100 := by
  have hlen : ((messages.map ChatMessage.value).map fun v =>
      ((none : Option (List UInt8)), toJson v)).length = messages.length := by
    rw [List.length_map, List.length_map]
  rw [toJson, toItems_eq, Json.nodes, Json.stringBytes]
  constructor
  · have hnodes := @nodesOfKids_le ((messages.map ChatMessage.value).map fun v => (none, toJson v)) 3 (by
      simp only [List.forall_mem_map]
      intro m _
      exact Nat.le_refl 3)
    omega
  · have hbytes := @bytesOfKids_le ((messages.map ChatMessage.value).map fun v => (none, toJson v)) 96100
      (by
      simp only [List.forall_mem_map]
      intro m hm
      have hm' := h m hm
      have hrole := length_role m.role
      have hutf8 := length_utf8Of_le m.content
      have hutf8' := length_utf8Of_le m.role.text
      have hroleName : (utf8Of roleName).length = 4 := rfl
      have hcontentName : (utf8Of contentName).length = 7 := rfl
      rw [bytesOfKid, keyBytes, ChatMessage.value, toJson, Json.stringBytes, toMembers, toMembers,
          toMembers,
        bytesOfKids, bytesOfKids, bytesOfKids, toMember, toMember, bytesOfKid, bytesOfKid, keyBytes,
            keyBytes,
        toJson, toJson, Json.stringBytes, Json.stringBytes]
      omega)
    rwa [hlen] at hbytes

/-- What `chatBody` has checked. -/
lemma chatBody_eq_some {model : JsString} {messages : List ChatMessage} {stream : Bool}
    {params : ChatRequestParams} {members : List (JsString × JsValue)}
    (h : chatBody model messages stream params = some members) :
    ∃ kept : List ChatMessage, model.length ≤ 256 ∧ kept ≠ [] ∧ kept.length ≤ 100 ∧
      (∀ m ∈ kept, m.content.length ≤ 32000) ∧ members =
      baseMembers model kept stream ++ samplingBody params := by
  unfold chatBody validateMessages at h
  split_ifs at h with hmodel hmessages
  · cases h
  · rw [not_or] at hmodel hmessages
    cases h
    refine ⟨_, not_lt.mp hmodel.2, ?_, ?_, fun m hm => ?_, rfl⟩
    · rw [ne_eq, List.map_eq_nil_iff]
      exact hmessages.1
    · rw [List.length_map]
      exact not_lt.mp hmessages.2
    · obtain ⟨m', -, rfl⟩ := List.mem_map.mp hm
      exact List.length_take_le _ _

/-- What the parser needs of a member. -/
structure MemberOk (numberText : Number → List UInt8) (m : JsString × JsValue) : Prop where
  /-- Its name is short. -/
  name : 3 * m.1.length ≤ paiJsonMaxString
  /-- Its value is consumed. -/
  value : Consumed numberText paiJsonMaxDepth m.2
  /-- Its nodes. -/
  nodes : nodesOfKid (toMember m) ≤ 301
  /-- Its strings. -/
  bytes : bytesOfKid (toMember m) ≤ 10000000

lemma MemberOk.number {name : JsString} {x : Number} (hname : name.length ≤ 100)
    (h : ReadsText numberText x) : MemberOk numberText (name, .number x) := by
  have hmax : paiJsonMaxString = 1048576 := rfl
  have hutf8 := length_utf8Of_le name
  refine ⟨?_, consumed_number h, Nat.le_of_ble_eq_true rfl, ?_⟩
  · change 3 * name.length ≤ paiJsonMaxString
    omega
  · change (utf8Of name).length + 1 + 0 ≤ 10000000
    omega

lemma memberOk_base {model : JsString} {kept : List ChatMessage} {stream : Bool}
    (hmodel : model.length ≤ 256)
    (hne : kept ≠ []) (hlen : kept.length ≤ 100) (hkept : ∀ m ∈ kept, m.content.length ≤ 32000) :
    ∀ m ∈ baseMembers model kept stream, MemberOk numberText m := by
  have hmax : paiJsonMaxString = 1048576 := rfl
  rw [baseMembers, List.forall_mem_cons, List.forall_mem_cons, List.forall_mem_singleton]
  refine ⟨⟨Nat.le_of_ble_eq_true rfl, @consumed_of_derives _ (31 + 1) (.string model)
      (fun x h => by cases h)
      fun r => derives_string (by omega) r, Nat.le_of_ble_eq_true rfl, ?_⟩,
    ⟨Nat.le_of_ble_eq_true rfl, @consumed_of_derives _ (31 + 1) (.array (kept.map ChatMessage.value))
      (fun x h => by cases h) fun r => derives_array ?_ ?_ r, ?_, ?_⟩,
    ⟨Nat.le_of_ble_eq_true rfl, @consumed_of_derives _ (31 + 1) (.bool stream) (fun x h => by cases h)
        fun r => ?_,
      Nat.le_of_ble_eq_true rfl, Nat.le_of_ble_eq_true rfl⟩⟩
  · have hutf8 := length_utf8Of_le model
    change 5 + 1 + ((utf8Of model).length + 1) ≤ 10000000
    omega
  · rwa [ne_eq, List.map_eq_nil_iff]
  · intro v hv r
    obtain ⟨m, hm, rfl⟩ := List.mem_map.mp hv
    exact @derives_message _ 29 m (hkept m hm) r
  · have hsize := (@size_messages kept hkept).1
    change (toJson (.array (kept.map ChatMessage.value))).nodes ≤ 301
    omega
  · have hsize := (@size_messages kept hkept).2
    change 8 + 1 + (toJson (.array (kept.map ChatMessage.value))).stringBytes ≤ 10000000
    omega
  · rw [stringify, toJson]
    cases stream
    · exact .isFalse
    · exact .isTrue

lemma memberOk_sampling {params : ChatRequestParams}
    (hreads : ∀ name x, (name, JsValue.number x) ∈ samplingBody params → ReadsText numberText x) :
    ∀ m ∈ samplingBody params, MemberOk numberText m := by
  rintro ⟨name, v⟩ hm
  obtain ⟨rfl, x, -, rfl⟩ | ⟨rfl, x, -, rfl⟩ | ⟨rfl, x, -, rfl⟩ | ⟨rfl, x, -, -, rfl⟩ |
      ⟨rfl, x, -, -, rfl⟩ |
    ⟨rfl, stop, -, hne, rfl⟩ := mem_samplingBody hm
  · exact .number (by decide) (hreads _ _ hm)
  · exact .number (by decide) (hreads _ _ hm)
  · exact .number (by decide) (hreads _ _ hm)
  · exact .number (by decide) (hreads _ _ hm)
  · exact .number (by decide) (hreads _ _ hm)
  · obtain ⟨hfour, hstops⟩ := keptStops_spec stop
    obtain ⟨hnodes, hbytes⟩ := @size_strings (keptStops stop) 64 fun s hs => (hstops s hs).2
    have hmax : paiJsonMaxString = 1048576 := rfl
    refine ⟨Nat.le_of_ble_eq_true rfl, @consumed_of_derives _ (31 + 1)
        (.array ((keptStops stop).map .string))
      (fun x h => by cases h) fun r => derives_array ?_ ?_ r, ?_, ?_⟩
    · rwa [ne_eq, List.map_eq_nil_iff]
    · intro v hv r
      obtain ⟨s, hs, rfl⟩ := List.mem_map.mp hv
      have hlen := (hstops s hs).2
      exact @derives_string _ 30 s (by omega) r
    · change (toJson (.array ((keptStops stop).map .string))).nodes ≤ 301
      omega
    · change 4 + 1 + (toJson (.array ((keptStops stop).map .string))).stringBytes ≤ 10000000
      omega

end Bodies

/-! ## The members of a request -/

section Find

variable (model : JsString) (kept : List ChatMessage) (stream : Bool) (params : ChatRequestParams)

/-- A member that `samplingBody` assigns is found behind the other members. -/
lemma find?_body {pre post : List (JsString × Option JsValue)} {name : JsString} {value : Option JsValue}
    {key : List UInt8} {fields : List (JsString × Option JsValue)}
    (hsampling : samplingBody params = fields.filterMap fun (name, value) => value.map (name, ·))
    (hfields : fields = pre ++ (name, value) :: post)
    (hbase : [modelName, messagesName, streamName].all (fun n => !isKey key n) = true)
    (hpre : (pre.map Prod.fst).all (fun n => !isKey key n) = true) (hname : isKey key name = true)
    (hpost : (post.map Prod.fst).all (fun n => !isKey key n) = true) :
    (baseMembers model kept stream ++ samplingBody params).find? (fun m => isKey key m.1) =
      value.map (name, ·) := by
  have hnone : (baseMembers model kept stream).find? (fun m => isKey key m.1) = none := by
    rw [List.find?_eq_none]
    intro m hm
    have hmem : m.1 ∈ [modelName, messagesName, streamName] := List.mem_map_of_mem hm
    have hall := List.all_eq_true.mp hbase m.1 hmem
    rw [Bool.not_eq_true'] at hall
    rw [hall]
    exact Bool.false_ne_true
  rw [List.find?_append, hnone, Option.none_or, hsampling]
  exact find?_fields (isKey key) hfields hpre hname hpost

lemma find?_temperature : (baseMembers model kept stream ++ samplingBody params).find?
      (fun m => isKey temperatureKey m.1) =
    ((params.temperature.map sentTemperature).map JsValue.number).map (temperatureName, ·) :=
  (@find?_body model kept stream params [] _ _ _ temperatureKey _ rfl rfl rfl rfl rfl rfl).trans
    (congrArg (Option.map _) (Option.map_map _ _ _).symm)

lemma find?_maxTokens : (baseMembers model kept stream ++ samplingBody params).find?
      (fun m => isKey maxTokensKey m.1) =
    ((params.maxTokens.map sentMaxTokens).map JsValue.number).map (maxTokensName, ·) :=
  (@find?_body model kept stream params [_] _ _ _ maxTokensKey _ rfl rfl rfl rfl rfl rfl).trans
    (congrArg (Option.map _) (Option.map_map _ _ _).symm)

lemma find?_topP : (baseMembers model kept stream ++ samplingBody params).find?
      (fun m => isKey topPKey m.1) =
    ((params.topP.map sentTopP).map JsValue.number).map (topPName, ·) :=
  (@find?_body model kept stream params [_, _] _ _ _ topPKey _ rfl rfl rfl rfl rfl rfl).trans
    (congrArg (Option.map _) (Option.map_map _ _ _).symm)

lemma find?_topK : (baseMembers model kept stream ++ samplingBody params).find?
      (fun m => isKey topKKey m.1) =
    (((params.topK.filter fun x => 0 < x.val).map sentTopK).map JsValue.number).map (topKName, ·) :=
  (@find?_body model kept stream params [_, _, _] _ _ _ topKKey _ rfl rfl rfl rfl rfl rfl).trans
    (congrArg (Option.map _) (Option.map_map _ _ _).symm)

lemma find?_seed : (baseMembers model kept stream ++ samplingBody params).find?
      (fun m => isKey seedKey m.1) =
    (((params.seed.filter fun x => 0 ≤ x.val).map Number.floor).map JsValue.number).map (seedName, ·) :=
  (@find?_body model kept stream params [_, _, _, _] _ _ _ seedKey _ rfl rfl rfl rfl rfl rfl).trans
    (congrArg (Option.map _) (Option.map_map _ _ _).symm)

lemma find?_stop : (baseMembers model kept stream ++ samplingBody params).find?
      (fun m => isKey stopKey m.1) =
    ((params.stop.filter fun stop => keptStops stop ≠ []).map fun stop =>
      .array ((keptStops stop).map .string)).map (stopName, ·) :=
  @find?_body _ _ _ params [_, _, _, _, _] [] _ _ _ _ rfl rfl rfl rfl rfl rfl

end Find

/-! ## Requests that are served -/

/-- The parameters whose request is served: the temperature that is sent is zero or not below `1e-300`,
the seed that is sent is at most `2 ^ 64`, and the stop sequences that are sent are accepted. -/
structure Servable (params : ChatRequestParams) : Prop where
  /-- The temperature. -/
  temperature : ∀ x, params.temperature = some x → x.val ≤ 0 ∨ rnd (10 ^ (-300 : ℤ)) ≤ x.val
  /-- The seed. -/
  seed : ∀ x, params.seed = some x → ⌊x.val⌋ ≤ 18446744073709551616
  /-- The first four stop sequences that are not empty. -/
  stop : ∀ stop, params.stop = some stop → ∀ s ∈ (stop.filter (· ≠ [])).take 4, StopServable (s.take 64)

/-- The factors of exponents are powers of ten, up to a factor of two. -/
def PowsAccurate : Prop := ∀ neg, ∀ exp ≤ 300, PowAccurate neg exp

/-- The text of a number, with an exponent only if the factors are known. -/
structure TextOk (numberText : Number → List UInt8) (x : Number) : Prop where
  /-- It is the text of the number. -/
  prints : Prints x.val (numberText x)
  /-- The factors. -/
  pows : 101 ∈ numberText x → PowsAccurate

lemma sentTemperature_cases (x : Number) :
    ((sentTemperature x).val = 0 ∨ rnd (10 ^ (-300 : ℤ)) ≤ (sentTemperature x).val) ↔
      (x.val ≤ 0 ∨ rnd (10 ^ (-300 : ℤ)) ≤ x.val) := by
  have hsmall : rnd (10 ^ (-300 : ℤ)) ≤ 1 :=
    rnd_le (zpow_pos (by norm_num) _).le (zpow_le_one_of_nonpos₀ (by norm_num) (by norm_num))
      NumberText.representable_one
  have hpos : 0 < rnd (10 ^ (-300 : ℤ)) := lt_of_le_of_lt (rnd_nonneg (by positivity)) gap_tiny
  rw [sentTemperature, val_clamp, val_smallNumber, val_smallNumber, Nat.cast_zero, Nat.cast_ofNat]
  rcases le_or_gt x.val 0 with hneg | hx
  · have hzero : max 0 (min 2 x.val) = 0 := max_eq_left ((min_le_right _ _).trans hneg)
    rw [hzero]
    exact ⟨fun _ => Or.inl hneg, fun _ => Or.inl rfl⟩
  · have hclamp : max 0 (min 2 x.val) = min 2 x.val := max_eq_right (le_min (by norm_num) hx.le)
    have hmin : min 2 x.val ≠ 0 := (lt_min (by norm_num) hx).ne'
    rw [hclamp, le_min_iff]
    constructor
    · rintro (hzero | ⟨-, hle⟩)
      · exact absurd hzero hmin
      · exact Or.inr hle
    · rintro (hle | hle)
      · exact absurd hle (not_le.mpr hx)
      · exact Or.inr ⟨hsmall.trans (by norm_num), hle⟩

section Served

variable {numberText : Number → List UInt8} {model : JsString} {kept : List ChatMessage} {stream : Bool}
  {params : ChatRequestParams} {doc : JsonDoc} {root : ℕ} {children : List ℕ}

/-- What a numeric member is read as. -/
lemma numMember_cases (hchildren : childrenOf doc .object root = some children)
    (hrel : List.Forall₂ (NodeFor numberText doc) children
    (baseMembers model kept stream ++ samplingBody params))
    {key : List UInt8} {name : JsString} {value : Option Number} (default : Float)
    (hfind : (baseMembers model kept stream ++ samplingBody params).find? (fun m => isKey key m.1) =
      (value.map JsValue.number).map (name, ·)) :
    (value = none ∧ numMember doc root key default = default) ∨
      ∃ x r, value = some x ∧ (name, .number x) ∈ baseMembers model kept stream ++ samplingBody params ∧
        NumberEnd r ∧ parseNumber (numberText x ++ r) = some (numMember doc root key default, r) := by
  have hmember := paiJsonMember_nodeFor hchildren hrel key
  cases value with
  | none =>
    rw [hfind] at hmember
    exact Or.inl ⟨rfl, numMember_none hmember⟩
  | some x =>
    have hmem : (name, JsValue.number x) ∈ baseMembers model kept stream ++ samplingBody params :=
      List.mem_of_find?_eq_some hfind
    rw [hfind] at hmember
    obtain ⟨r, hr, hparse⟩ := numMember_some hmember
    exact Or.inr ⟨x, r, rfl, hmem, hr, hparse⟩


/-- What the parameters of a request are read as. -/
structure ReadParams (doc : JsonDoc) (root : ℕ) : Prop where
  /-- The temperature is not negative. -/
  temperature : ∃ q, Is (numMember doc root temperatureKey 0.0) q
  /-- The probability mass is a share. -/
  topP : ∃ q, Is (numMember doc root topPKey 1.0) q ∧ 0 < q ∧ q ≤ 1
  /-- The number of candidates is not negative. -/
  topK : ∃ q, Is (numMember doc root topKKey 0.0) q
  /-- The limit on the tokens is positive. -/
  maxTokens : ∃ q, Is (numMember doc root maxTokensKey 16.0) q ∧ 1 ≤ q

lemma is_zero_point : Is 0.0 0 := Or.inl ⟨rfl, rfl⟩

lemma is_one_point : Is 1.0 1 := @is_of_unpack _ (2 ^ 52) (-52) (by norm_num) _ rfl (by norm_num)

lemma is_sixteen_point : Is 16.0 16 :=
    @is_of_unpack _ (2 ^ 48 * 16) (-48) (by norm_num) _ rfl (by norm_num)

lemma is_pow64_point : Is 18446744073709551615.0 (2 ^ 64) :=
  @is_of_unpack _ (2 ^ 52) 12 (by norm_num) _ rfl (by norm_num)

lemma readParams (hchildren : childrenOf doc .object root = some children)
    (hrel : List.Forall₂ (NodeFor numberText doc) children
    (baseMembers model kept stream ++ samplingBody params))
    (htext : ∀ name x, (name, JsValue.number x) ∈ baseMembers model kept stream ++ samplingBody params →
      TextOk numberText x) : ReadParams doc root := by
  refine ⟨?_, ?_, ?_, ?_⟩
  · rcases numMember_cases hchildren hrel 0.0 (find?_temperature model kept stream params) with
      ⟨-, hdefault⟩ | ⟨x', r, hx, hmem, hr, hparse⟩
    · rw [hdefault]
      exact ⟨0, is_zero_point⟩
    · obtain ⟨x, -, rfl⟩ := Option.map_eq_some_iff.mp hx
      obtain ⟨hlo, hhi⟩ := sentTemperature_bounds x
      have hok := htext _ _ hmem
      obtain ⟨hread, hrefused⟩ := read_temperature hok.prints hlo hhi hr fun h => hok.pows h true
      by_cases hcases : (sentTemperature x).val = 0 ∨ rnd (10 ^ (-300 : ℤ)) ≤ (sentTemperature x).val
      · obtain ⟨v, q, hparse', hv⟩ := hread hcases
        rw [hparse'] at hparse
        cases hparse
        exact ⟨q, hv⟩
      · rw [hrefused hcases] at hparse
        cases hparse
  · rcases numMember_cases hchildren hrel 1.0 (find?_topP model kept stream params) with
      ⟨-, hdefault⟩ | ⟨x', r, hx, hmem, hr, hparse⟩
    · rw [hdefault]
      exact ⟨1, is_one_point, one_pos, le_rfl⟩
    · obtain ⟨x, -, rfl⟩ := Option.map_eq_some_iff.mp hx
      obtain ⟨hlo, hhi⟩ := sentTopP_bounds x
      obtain ⟨v, q, hparse', hv, hpos, hone⟩ := read_share (htext _ _ hmem).prints hlo hhi hr
      rw [hparse'] at hparse
      cases hparse
      exact ⟨q, hv, hpos, hone⟩
  · rcases numMember_cases hchildren hrel 0.0 (find?_topK model kept stream params) with
      ⟨-, hdefault⟩ | ⟨x', r, hx, hmem, hr, hparse⟩
    · rw [hdefault]
      exact ⟨0, is_zero_point⟩
    · obtain ⟨x, hfilter, rfl⟩ := Option.map_eq_some_iff.mp hx
      have hpos : 0 < x.val := of_decide_eq_true (Option.filter_eq_some_iff.mp hfilter).2
      obtain ⟨hcases, hhi⟩ := sentTopK_bounds hpos
      have hprints := (htext _ _ hmem).prints
      obtain ⟨v, q, hparse', hv⟩ : ∃ v q, parseNumber (numberText (sentTopK x) ++ r) = some (v, r) ∧
          Is v q := by
        rcases hcases with hzero | hone
        · rw [hzero] at hprints
          obtain ⟨v, hparse', hv⟩ := parse_zero hprints hr
          exact ⟨v, 0, hparse', hv⟩
        · obtain ⟨v, q, hparse', hv, -⟩ := read_count hprints hone hhi hr
          exact ⟨v, q, hparse', hv⟩
      rw [hparse'] at hparse
      cases hparse
      exact ⟨q, hv⟩
  · rcases numMember_cases hchildren hrel 16.0 (find?_maxTokens model kept stream params) with
      ⟨-, hdefault⟩ | ⟨x', r, hx, hmem, hr, hparse⟩
    · rw [hdefault]
      exact ⟨16, is_sixteen_point, by norm_num⟩
    · obtain ⟨x, -, rfl⟩ := Option.map_eq_some_iff.mp hx
      obtain ⟨hlo, hhi⟩ := sentMaxTokens_bounds x
      obtain ⟨v, q, hparse', hv, hone⟩ := read_count (htext _ _ hmem).prints hlo hhi hr
      rw [hparse'] at hparse
      cases hparse
      exact ⟨q, hv, hone⟩

/-- The sampling parameters of a request are never refused. -/
lemma ReadParams.checkSampling (h : ReadParams doc root) : checkSampling doc root = none := by
  obtain ⟨q₁, htemp⟩ := h.temperature
  obtain ⟨q₂, htopP, hpos, hone⟩ := h.topP
  obtain ⟨q₃, htopK⟩ := h.topK
  obtain ⟨q₄, hmax, hmaxOne⟩ := h.maxTokens
  refine if_neg ?_
  rintro (hlt | hle | hgt | hlt | hlt)
  · exact absurd ((htemp.lt_iff is_zero_point).mp hlt) (not_lt.mpr htemp.nonneg)
  · exact absurd ((htopP.le_iff is_zero_point).mp hle) (not_le.mpr hpos)
  · exact absurd ((is_one_point.lt_iff htopP).mp hgt) (not_lt.mpr hone)
  · exact absurd ((htopK.lt_iff is_zero_point).mp hlt) (not_lt.mpr htopK.nonneg)
  · exact absurd ((hmax.lt_iff is_one_point).mp hlt) (not_lt.mpr hmaxOne)

/-- The seed passes its check exactly when it is at most `2 ^ 64`. -/
lemma checkSeed_eq_none_iff (hchildren : childrenOf doc .object root = some children)
    (hrel : List.Forall₂ (NodeFor numberText doc) children
    (baseMembers model kept stream ++ samplingBody params))
    (htext : ∀ name x, (name, JsValue.number x) ∈ baseMembers model kept stream ++ samplingBody params →
      TextOk numberText x) :
    checkSeed doc root = none ↔ ∀ x, params.seed = some x → ⌊x.val⌋ ≤ 18446744073709551616 := by
  rcases numMember_cases hchildren hrel (-1.0) (find?_seed model kept stream params) with
    ⟨hnone, hdefault⟩ | ⟨x', r, hx, hmem, hr, hparse⟩
  · have hcheck : checkSeed doc root = none := by
      rw [checkSeed, hdefault]
      exact if_neg (by decide +kernel)
    refine ⟨fun _ x hx => ?_, fun _ => hcheck⟩
    rw [Option.map_eq_none_iff, Option.filter_eq_none_iff] at hnone
    have hneg := hnone x hx
    rw [decide_eq_true_eq, not_le] at hneg
    have hfloor : ⌊x.val⌋ < 0 := Int.floor_lt.mpr (by exact_mod_cast hneg)
    omega
  · obtain ⟨x, hfilter, rfl⟩ := Option.map_eq_some_iff.mp hx
    obtain ⟨hseed, hpos⟩ := Option.filter_eq_some_iff.mp hfilter
    have hfloor : x.floor.val = (⌊x.val⌋ : ℤ) := rfl
    have hok := htext _ _ hmem
    by_cases hle : ⌊x.val⌋ ≤ 18446744073709551616
    · have hval : x.floor.val ≤ 2 ^ 64 := by
        rw [hfloor]
        exact_mod_cast hle
      obtain ⟨v, q, hparse', hv, hq⟩ :=
        read_seed_le hok.prints (floor_cases_nonneg (of_decide_eq_true hpos)) hval hr
      rw [hparse'] at hparse
      have hnum := congrArg Prod.fst (Option.some.inj hparse)
      dsimp only at hnum
      refine ⟨fun _ y hy => ?_, fun _ => if_neg ?_⟩
      · rw [hseed] at hy
        cases hy
        exact hle
      · rw [← hnum]
        rintro (hlt | hgt)
        · exact not_lt_neg_one hv hlt
        · exact absurd ((is_pow64_point.lt_iff hv).mp hgt) (not_lt.mpr hq)
    · have hval : 2 ^ 64 < x.floor.val := by
        rw [hfloor]
        exact_mod_cast not_le.mp hle
      rcases read_seed_gt hok.prints hval hr fun h => hok.pows h false with hnone |
          ⟨v, q, hparse', hv, hq⟩
      · rw [hnone] at hparse
        cases hparse
      · rw [hparse'] at hparse
        have hnum := congrArg Prod.fst (Option.some.inj hparse)
        dsimp only at hnum
        refine ⟨fun hcheck => ?_, fun hall => absurd (hall x hseed) hle⟩
        have hrefused : checkSeed doc root = some .seed := by
          refine if_pos (Or.inr ?_)
          rw [← hnum]
          exact (is_pow64_point.lt_iff hv).mpr hq
        rw [hrefused] at hcheck
        cases hcheck

/-- The stop sequences pass their check exactly when all that are sent are accepted. -/
lemma checkStop_iff (hchildren : childrenOf doc .object root = some children)
    (hrel : List.Forall₂ (NodeFor numberText doc) children
    (baseMembers model kept stream ++ samplingBody params)) :
    checkStop doc root = none ↔ ∀ stop, params.stop = some stop →
      ∀ s ∈ (stop.filter (· ≠ [])).take 4, StopServable (s.take 64) := by
  have hmember := paiJsonMember_nodeFor hchildren hrel stopKey
  rw [find?_stop model kept stream params] at hmember
  have hkept : ∀ stop : List JsString, (∀ s ∈ keptStops stop, StopServable s) ↔
      ∀ s ∈ (stop.filter (· ≠ [])).take 4, StopServable (s.take 64) := fun stop => by
    rw [keptStops_eq, List.forall_mem_map]
  cases hstop : params.stop with
  | none =>
    rw [hstop] at hmember
    exact ⟨fun _ stop h => (nomatch h), fun _ => checkStop_none hmember⟩
  | some stop =>
    rw [hstop] at hmember
    have hall : (∀ stop', some stop = some stop' → ∀ s ∈ (stop'.filter (· ≠ [])).take 4,
        StopServable (s.take 64)) ↔ ∀ s ∈ keptStops stop, StopServable s := by
      rw [hkept]
      exact ⟨fun h => h stop rfl, fun h stop' heq => by cases heq; exact h⟩
    rw [hall]
    by_cases hne : keptStops stop = []
    · have hfilter : (some stop).filter (fun stop => keptStops stop ≠ []) = none := by simp [hne]
      rw [hfilter] at hmember
      rw [checkStop_none hmember, hne]
      exact ⟨fun _ s hs => absurd hs List.not_mem_nil, fun _ => rfl⟩
    · have hfilter : (some stop).filter (fun stop => keptStops stop ≠ []) = some stop := by simp [hne]
      rw [hfilter] at hmember
      obtain ⟨hfour, hspec⟩ := keptStops_spec stop
      exact checkStop_eq_none_iff hmember (fun s hs => (hspec s hs).1) hne hfour

/-- No number of a request that is servable is refused. -/
lemma Servable.not_refused (h : Servable params)
    (htext : ∀ name x, (name, JsValue.number x) ∈ baseMembers model kept stream ++ samplingBody params →
      TextOk numberText x) :
    ∀ m ∈ baseMembers model kept stream ++ samplingBody params, ¬ RefusedNumber numberText m.2 := by
  rintro ⟨name, v⟩ hm ⟨x, r, hx, hr, hnone⟩
  dsimp only at hx
  subst hx
  have hok := htext name x hm
  rcases List.mem_append.mp hm with hbase | hsampling
  · simp only [baseMembers, List.mem_cons, Prod.mk.injEq, reduceCtorEq, and_false, List.not_mem_nil,
      or_false] at hbase
  · obtain ⟨-, y, hy, heq⟩ | ⟨-, y, -, heq⟩ | ⟨-, y, -, heq⟩ | ⟨-, y, -, hpos, heq⟩ |
      ⟨-, y, hy, hpos, heq⟩ |
      ⟨-, stop, -, -, heq⟩ := mem_samplingBody hsampling
    · cases heq
      obtain ⟨hlo, hhi⟩ := sentTemperature_bounds y
      obtain ⟨v, q, hparse, -⟩ := (read_temperature hok.prints hlo hhi hr fun h => hok.pows h true).1
        ((sentTemperature_cases y).mpr (h.temperature y hy))
      rw [hparse] at hnone
      cases hnone
    · cases heq
      obtain ⟨hlo, hhi⟩ := sentMaxTokens_bounds y
      obtain ⟨v, q, hparse, -⟩ := read_count hok.prints hlo hhi hr
      rw [hparse] at hnone
      cases hnone
    · cases heq
      obtain ⟨hlo, hhi⟩ := sentTopP_bounds y
      obtain ⟨v, q, hparse, -⟩ := read_share hok.prints hlo hhi hr
      rw [hparse] at hnone
      cases hnone
    · cases heq
      obtain ⟨hzero | hone, hhi⟩ := sentTopK_bounds hpos
      · have hprints := hok.prints
        rw [hzero] at hprints
        obtain ⟨v, hparse, -⟩ := parse_zero hprints hr
        rw [hparse] at hnone
        cases hnone
      · obtain ⟨v, q, hparse, -⟩ := read_count hok.prints hone hhi hr
        rw [hparse] at hnone
        cases hnone
    · cases heq
      have hval : y.floor.val ≤ 2 ^ 64 := by
        change ((⌊y.val⌋ : ℤ) : ℚ) ≤ 2 ^ 64
        exact_mod_cast h.seed y hy
      obtain ⟨v, q, hparse, -⟩ := read_seed_le hok.prints (floor_cases_nonneg hpos) hval hr
      rw [hparse] at hnone
      cases hnone
    · cases heq

/-- The temperature of a request that is parsed is zero or not below `1e-300`. -/
lemma temperature_of_parsed (hchildren : childrenOf doc .object root = some children)
    (hrel : List.Forall₂ (NodeFor numberText doc) children
    (baseMembers model kept stream ++ samplingBody params))
    (htext : ∀ name x, (name, JsValue.number x) ∈ baseMembers model kept stream ++ samplingBody params →
      TextOk numberText x) :
    ∀ x, params.temperature = some x → x.val ≤ 0 ∨ rnd (10 ^ (-300 : ℤ)) ≤ x.val := by
  intro x hx
  rcases numMember_cases hchildren hrel 0.0 (find?_temperature model kept stream params) with
    ⟨hnone, -⟩ | ⟨x', r, hx', hmem, hr, hparse⟩
  · rw [hx] at hnone
    cases hnone
  · rw [hx] at hx'
    cases hx'
    have hok := htext _ _ hmem
    obtain ⟨hlo, hhi⟩ := sentTemperature_bounds x
    rw [← sentTemperature_cases]
    by_contra hcases
    have hrefused := (read_temperature hok.prints hlo hhi hr fun h => hok.pows h true).2 hcases
    rw [hrefused] at hparse
    cases hparse

/-- The members of a request are what the parser needs. -/
lemma sizes_of_memberOk (h : ∀ m ∈ baseMembers model kept stream ++ samplingBody params,
    MemberOk numberText m) :
    nodesOfKids (toMembers (baseMembers model kept stream ++ samplingBody params)) < paiJsonMaxNodes ∧
      bytesOfKids (toMembers (baseMembers model kept stream ++ samplingBody params)) ≤ 0x80000000 := by
  have hlen : (baseMembers model kept stream ++ samplingBody params).length ≤ 9 := by
    have hsampling : (samplingBody params).length ≤ 6 := List.length_filterMap_le _ _
    rw [List.length_append]
    change 3 + _ ≤ 9
    omega
  have hmax : paiJsonMaxNodes = 8192 := rfl
  rw [toMembers_eq]
  have hnodes := @nodesOfKids_le ((baseMembers model kept stream ++ samplingBody params).map toMember) 301
    (List.forall_mem_map.mpr fun m hm => (h m hm).nodes)
  have hbytes := @bytesOfKids_le ((baseMembers model kept stream ++ samplingBody params).map toMember)
      10000000
    (List.forall_mem_map.mpr fun m hm => (h m hm).bytes)
  rw [List.length_map] at hnodes hbytes
  omega

end Served

/-- **The request of the desktop is served exactly for servable parameters**: what `samplingBody` makes
of any numbers and stop sequences is accepted by the parser of the gateway and passes its checks, but for
temperatures that are positive and below `1e-300`, seeds above `2 ^ 64`, and stop sequences that start
with a zero unit or have more than 64 bytes. -/
theorem samplingBody_served_iff (numberText : Number → List UInt8) {model : JsString}
    {messages : List ChatMessage} {stream : Bool} {params : ChatRequestParams}
    {members : List (JsString × JsValue)} (hbody : chatBody model messages stream params = some members)
    (htext : ∀ name x, (name, JsValue.number x) ∈ members → TextOk numberText x) :
    Served (stringify numberText (.object members)) ↔ Servable params := by
  obtain ⟨kept, hmodel, hne, hlen, hkept, rfl⟩ := chatBody_eq_some hbody
  have hreads : ∀ name x, (name, JsValue.number x) ∈ samplingBody params → ReadsText numberText x :=
    fun name x hmem => readsText_of_prints (htext name x (List.mem_append_right _ hmem)).prints
      (nonneg_of_mem_samplingBody hmem)
  have hok : ∀ m ∈ baseMembers model kept stream ++ samplingBody params, MemberOk numberText m :=
    List.forall_mem_append.mpr ⟨memberOk_base hmodel hne hlen hkept, memberOk_sampling hreads⟩
  obtain ⟨hnodes, hbytes⟩ := sizes_of_memberOk hok
  have hsome : baseMembers model kept stream ++ samplingBody params ≠ [] :=
    List.append_ne_nil_of_left_ne_nil (List.cons_ne_nil _ _) _
  rcases paiJsonParse_object hsome (fun m hm => (hok m hm).name) (fun m hm => (hok m hm).value) hnodes
      hbytes
    with ⟨hbad, m, hm, hrefused⟩ | ⟨doc, root, children, hparse, hroot, htype, hchildren, hrel⟩
  · constructor
    · rintro ⟨doc, root, hparse, -⟩
      rw [hbad] at hparse
      cases hparse
    · exact fun hservable => absurd hrefused (hservable.not_refused htext m hm)
  · have hread := readParams hchildren hrel htext
    have hseed := checkSeed_eq_none_iff hchildren hrel htext
    have hstop := checkStop_iff hchildren hrel
    constructor
    · rintro ⟨doc', root', hparse', hroot', -, -, hstop', hseed'⟩
      rw [hparse] at hparse'
      cases hparse'
      rw [hroot] at hroot'
      cases hroot'
      exact ⟨temperature_of_parsed hchildren hrel htext, hseed.mp hseed', hstop.mp hstop'⟩
    · intro hservable
      exact ⟨doc, root, hparse, hroot, htype, hread.checkSampling, hstop.mpr hservable.stop,
        hseed.mpr hservable.seed⟩

lemma one_le_smallNumber : 1 ≤ 2048 := by norm_num

/-- A temperature of one. -/
def warmParams : ChatRequestParams := ⟨some (smallNumber 1 one_le_smallNumber), none, none, none, none, none⟩

/-- One is printed as the digit one. -/
lemma prints_one : Prints 1 [49] := by
  refine Or.inr (Or.inl ⟨one_pos, ⟨1, 1, 1, le_rfl, by norm_num, by norm_num⟩,
      ⟨?_, fun d' _ => d'.k_pos, ?_⟩, rfl⟩)
  · have hvalue : (⟨1, 1, 1, le_rfl, by norm_num, by norm_num⟩ : Decimal).value = 1 := by
      rw [Decimal.value]
      norm_num
    rw [hvalue]
    exact rnd_of_representable NumberText.representable_one
  · intro d' _ _
    have hvalue : (⟨1, 1, 1, le_rfl, by norm_num, by norm_num⟩ : Decimal).value = 1 := by
      rw [Decimal.value]
      norm_num
    rw [hvalue, sub_self, abs_zero]
    exact abs_nonneg _

/-- The request with a temperature of one is served. -/
theorem samplingBody_served_iff_warm :
    Served (stringify (fun _ => [49]) (.object (baseMembers [109] [⟨.user, [104, 105]⟩] false ++
      samplingBody warmParams))) := by
  refine (@samplingBody_served_iff (fun _ => [49]) [109] [⟨.user, [104, 105]⟩] false warmParams _ rfl
      ?_).mpr ?_
  · intro name x hmem
    rcases List.mem_append.mp hmem with hbase | hsampling
    · simp only [baseMembers, List.mem_cons, Prod.mk.injEq, reduceCtorEq, and_false, List.not_mem_nil,
        or_false] at hbase
    · obtain ⟨-, y, hy, heq⟩ | ⟨-, y, hy, -⟩ | ⟨-, y, hy, -⟩ | ⟨-, y, hy, -⟩ | ⟨-, y, hy, -⟩ |
        ⟨-, stop, hstop, -⟩ := mem_samplingBody hsampling
      · cases heq
        cases hy
        refine ⟨?_, fun h => absurd h (by decide)⟩
        have hval : (sentTemperature (smallNumber 1 (by norm_num))).val = 1 := by
          rw [sentTemperature, val_clamp, val_smallNumber, val_smallNumber, val_smallNumber]
          norm_num
        rw [hval]
        exact prints_one
      · cases hy
      · cases hy
      · cases hy
      · cases hy
      · cases hstop
  · refine ⟨fun x hx => ?_, fun x hx => (by cases hx), fun stop hstop => (by cases hstop)⟩
    cases hx
    rw [val_smallNumber]
    refine Or.inr (rnd_le (zpow_pos (by norm_num) _).le ?_ (by
      rw [Nat.cast_one]
      exact NumberText.representable_one))
    rw [Nat.cast_one]
    exact zpow_le_one_of_nonpos₀ (by norm_num) (by norm_num)

/-- A stop sequence of 64 accented letters. -/
def accentedParams : ChatRequestParams := ⟨none, none, none, none, none, some [List.replicate 64 0xE9]⟩

/-- A stop sequence of 64 accented letters has 128 bytes and is refused. -/
theorem samplingBody_accented_refused :
    chatBody [109] [⟨.user, [104, 105]⟩] false accentedParams =
        some (baseMembers [109] [⟨.user, [104, 105]⟩] false ++ samplingBody accentedParams) ∧
      ¬ Served (stringify (fun _ => [48]) (.object (baseMembers [109] [⟨.user, [104, 105]⟩] false ++
        samplingBody accentedParams))) := by
  refine ⟨rfl, ?_⟩
  have hrefused : (paiJsonParse (stringify (fun _ => [48])
      (.object (baseMembers [109] [⟨.user, [104, 105]⟩] false ++
      samplingBody accentedParams)))).toOption.bind
        (fun doc => doc.root.bind fun root => checkStop doc root) = some .stopItem := by
    decide +kernel
  rintro ⟨doc, root, hparse, hroot, -, -, hstop, -⟩
  rw [hparse] at hrefused
  simp only [Except.toOption, Option.bind_some, hroot, hstop] at hrefused
  cases hrefused

end Prospero
