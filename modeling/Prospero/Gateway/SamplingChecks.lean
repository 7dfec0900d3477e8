import Prospero.Gateway.ObjectRun
import Prospero.Gateway.NumberReading

/-!
# What the checks of the parameters find

The numbers and the stop sequences that `samplingBody` sends, and what the checks of `handle_completions`
find of them in the document of a request.

### Outline

* bounds for the numbers that are sent, and the members that carry them;
* the lookup of a member, and the number that is read for it;
* the check of the stop sequences, which counts the bytes in front of the first zero.
-/

namespace Prospero

open NumberText (Number Prints Decimal Shortest)
open Binary64 Rfc8259 Reader

/-! ## The numbers of a request -/

lemma val_smallNumber {n : ℕ} (h : n ≤ 2048) : (smallNumber n h).val = n :=
  rnd_of_representable (representable_natCast (by omega))

lemma val_clamp (lo hi x : Number) : (clamp lo hi x).val = max lo.val (min hi.val x.val) := by
  rw [clamp, Number.val_max, Number.val_min]

lemma sentTemperature_bounds (x : Number) : 0 ≤ (sentTemperature x).val ∧
    (sentTemperature x).val < 10 := by
  rw [sentTemperature, val_clamp, val_smallNumber, val_smallNumber]
  refine ⟨le_max_of_le_left (by norm_num), max_lt (by norm_num) (min_lt_of_left_lt (by norm_num))⟩

lemma sentMaxTokens_bounds (x : Number) : 1 ≤ (sentMaxTokens x).val ∧ (sentMaxTokens x).val < 10 ^ 4 := by
  rw [sentMaxTokens, val_clamp, val_smallNumber, val_smallNumber]
  refine ⟨le_max_of_le_left (by norm_num), max_lt (by norm_num) (min_lt_of_left_lt (by norm_num))⟩

lemma sentTopP_bounds (x : Number) : rnd (5 / 100) ≤ (sentTopP x).val ∧ (sentTopP x).val ≤ 1 := by
  rw [sentTopP, val_clamp, val_smallNumber]
  have hone : rnd (5 / 100) ≤ 1 := rnd_le (by norm_num) (by norm_num) NumberText.representable_one
  refine ⟨le_max_left _ _, max_le hone (min_le_of_left_le (by norm_num))⟩

/-- An integer is zero or at least one. -/
lemma floor_cases_nonneg {x : Number} (h : 0 ≤ x.val) : x.floor.val = 0 ∨ 1 ≤ x.floor.val := by
  have hfloor : 0 ≤ ⌊x.val⌋ := Int.floor_nonneg.mpr h
  rcases hfloor.eq_or_lt with hzero | hpos
  · left
    change ((⌊x.val⌋ : ℤ) : ℚ) = 0
    exact_mod_cast hzero.symm
  · right
    have hone : (1 : ℤ) ≤ ⌊x.val⌋ := hpos
    change (1 : ℚ) ≤ (⌊x.val⌋ : ℤ)
    exact_mod_cast hone

lemma sentTopK_bounds {x : Number} (h : 0 < x.val) :
    ((sentTopK x).val = 0 ∨ 1 ≤ (sentTopK x).val) ∧ (sentTopK x).val < 10 ^ 4 := by
  have hmin : 0 ≤ (Number.min (smallNumber 200 (by norm_num)) x).val := by
    rw [Number.val_min, val_smallNumber]
    exact le_min (by norm_num) h.le
  refine ⟨floor_cases_nonneg hmin, ?_⟩
  have hfloor : (sentTopK x).val ≤ (Number.min (smallNumber 200 (by norm_num)) x).val := Int.floor_le _
  rw [Number.val_min, val_smallNumber] at hfloor
  exact (hfloor.trans (min_le_left _ _)).trans_lt (by norm_num)

/-- The members that `samplingBody` assigns. -/
lemma mem_samplingBody {params : ChatRequestParams} {name : JsString} {v : JsValue}
    (h : (name, v) ∈ samplingBody params) :
    (name = temperatureName ∧ ∃ x, params.temperature = some x ∧ v = .number (sentTemperature x)) ∨
    (name = maxTokensName ∧ ∃ x, params.maxTokens = some x ∧ v = .number (sentMaxTokens x)) ∨
    (name = topPName ∧ ∃ x, params.topP = some x ∧ v = .number (sentTopP x)) ∨
    (name = topKName ∧ ∃ x, params.topK = some x ∧ 0 < x.val ∧ v = .number (sentTopK x)) ∨
    (name = seedName ∧ ∃ x, params.seed = some x ∧ 0 ≤ x.val ∧ v = .number x.floor) ∨
    (name = stopName ∧ ∃ stop, params.stop = some stop ∧ keptStops stop ≠ [] ∧
      v = .array ((keptStops stop).map .string)) := by
  rw [samplingBody, List.mem_filterMap] at h
  obtain ⟨⟨name', value⟩, hmem, hmap⟩ := h
  obtain ⟨v', hvalue, heq⟩ := Option.map_eq_some_iff.mp hmap
  obtain ⟨rfl, rfl⟩ := Prod.mk.inj heq
  simp only [List.mem_cons, List.not_mem_nil, or_false, Prod.mk.injEq] at hmem
  obtain ⟨rfl, rfl⟩ | ⟨rfl, rfl⟩ | ⟨rfl, rfl⟩ | ⟨rfl, rfl⟩ | ⟨rfl, rfl⟩ | ⟨rfl, rfl⟩ := hmem
  · obtain ⟨x, hx, rfl⟩ := Option.map_eq_some_iff.mp hvalue
    exact Or.inl ⟨rfl, x, hx, rfl⟩
  · obtain ⟨x, hx, rfl⟩ := Option.map_eq_some_iff.mp hvalue
    exact Or.inr (Or.inl ⟨rfl, x, hx, rfl⟩)
  · obtain ⟨x, hx, rfl⟩ := Option.map_eq_some_iff.mp hvalue
    exact Or.inr (Or.inr (Or.inl ⟨rfl, x, hx, rfl⟩))
  · obtain ⟨x, hx, rfl⟩ := Option.map_eq_some_iff.mp hvalue
    obtain ⟨hx, hpos⟩ := Option.filter_eq_some_iff.mp hx
    exact Or.inr (Or.inr (Or.inr (Or.inl ⟨rfl, x, hx, of_decide_eq_true hpos, rfl⟩)))
  · obtain ⟨x, hx, rfl⟩ := Option.map_eq_some_iff.mp hvalue
    obtain ⟨hx, hpos⟩ := Option.filter_eq_some_iff.mp hx
    exact Or.inr (Or.inr (Or.inr (Or.inr (Or.inl ⟨rfl, x, hx, of_decide_eq_true hpos, rfl⟩))))
  · obtain ⟨stop, hstop, rfl⟩ := Option.map_eq_some_iff.mp hvalue
    obtain ⟨hstop, hne⟩ := Option.filter_eq_some_iff.mp hstop
    exact Or.inr (Or.inr (Or.inr (Or.inr (Or.inr ⟨rfl, stop, hstop, of_decide_eq_true hne, rfl⟩))))

/-- All numbers of a request are nonnegative. -/
lemma nonneg_of_mem_samplingBody {params : ChatRequestParams} {name : JsString} {x : Number}
    (h : (name, .number x) ∈ samplingBody params) : 0 ≤ x.val := by
  obtain ⟨-, y, -, heq⟩ | ⟨-, y, -, heq⟩ | ⟨-, y, -, heq⟩ | ⟨-, y, -, hpos, heq⟩ | ⟨-, y, -, hpos, heq⟩ |
    ⟨-, stop, -, -, heq⟩ := mem_samplingBody h
  · cases heq
    exact (sentTemperature_bounds y).1
  · cases heq
    exact zero_le_one.trans (sentMaxTokens_bounds y).1
  · cases heq
    exact (rnd_nonneg (by norm_num)).trans (sentTopP_bounds y).1
  · cases heq
    rcases (sentTopK_bounds hpos).1 with hzero | hone
    · exact hzero.ge
    · exact zero_le_one.trans hone
  · cases heq
    rcases floor_cases_nonneg hpos with hzero | hone
    · exact hzero.ge
    · exact zero_le_one.trans hone
  · cases heq

/-- The text of a decimal starts with a digit. -/
lemma head_text (d : Decimal) : ∃ c t, d.text = c :: t ∧ isDigit c := by
  by_cases hn : -5 ≤ d.n ∧ d.n ≤ 21
  · obtain ⟨int, frac, hplain⟩ := NumberText.exists_plain d hn.1 hn.2
    rw [hplain.text]
    obtain rfl | ⟨c, more, rfl, -⟩ := hplain.head
    · exact ⟨48, _, rfl, by decide⟩
    · exact ⟨c, _, rfl, hplain.int_digits c List.mem_cons_self⟩
  · obtain ⟨c, frac, hc, -, -, htext⟩ := NumberText.text_exponent d hn
    exact ⟨c, _, htext, hc⟩

/-- The text of a nonnegative number is read up to its end, or refused. -/
lemma readsText_of_prints {numberText : Number → List UInt8} {x : Number}
    (h : Prints x.val (numberText x)) (hx : 0 ≤ x.val) : ReadsText numberText x := by
  rcases hx.eq_or_lt with hzero | hpos
  · rw [← hzero] at h
    refine ⟨?_, fun r hr => ?_⟩
    · obtain ⟨-, htext⟩ | ⟨hpos, -⟩ | ⟨hneg, -⟩ := h
      · exact ⟨48, [], htext, Or.inr (by decide)⟩
      · exact absurd hpos (lt_irrefl _)
      · exact absurd hneg (lt_irrefl _)
    · obtain ⟨v, hparse, -⟩ := parse_zero h hr
      exact Or.inr ⟨v, hparse⟩
  · obtain ⟨d, -, htext⟩ := h.exists_decimal hpos
    refine ⟨?_, fun r hr => ?_⟩
    · obtain ⟨c, t, hd, hc⟩ := head_text d
      exact ⟨c, t, htext.trans hd, Or.inr hc⟩
    · rw [htext]
      obtain ⟨-, -, int, frac, v, -, hparse, -⟩ | ⟨-, -, v, q, -, -, -, hparse⟩ := parse_decimal d hr
      · exact Or.inr ⟨v, hparse⟩
      · rw [hparse]
        split_ifs with hexp
        · exact Or.inr ⟨_, rfl⟩
        · exact Or.inl rfl


/-! ## What the checks find -/

/-- A C string ends at the first zero byte. -/
lemma strAt_eq_takeWhile {strs s : List UInt8} {off : ℕ} (h : HasString strs off s) :
    strAt strs off = s.takeWhile (· ≠ 0) := by
  obtain ⟨more, hmore⟩ := h
  rw [strAt, ← hmore, List.append_assoc, List.singleton_append, takeWhile_terminated]

/-- The members of a list of optional members. -/
lemma find?_fields {fields pre post : List (JsString × Option JsValue)} {name : JsString}
    {value : Option JsValue} (q : JsString → Bool) (hfields : fields = pre ++ (name, value) :: post)
    (hpre : (pre.map Prod.fst).all (fun n => !q n) = true) (hq : q name = true)
    (hpost : (post.map Prod.fst).all (fun n => !q n) = true) :
    (fields.filterMap fun (name, value) => value.map (name, ·)).find? (fun m => q m.1) =
      value.map (name, ·) := by
  have hnone : ∀ l : List (JsString × Option JsValue), (l.map Prod.fst).all (fun n => !q n) = true →
      (l.filterMap fun (name, value) => value.map (name, ·)).find? (fun m => q m.1) = none := by
    intro l hl
    rw [List.find?_eq_none]
    rintro ⟨n, v⟩ hmem
    obtain ⟨⟨n', w⟩, hmem', hmap⟩ := List.mem_filterMap.mp hmem
    obtain ⟨v', -, heq⟩ := Option.map_eq_some_iff.mp hmap
    obtain ⟨rfl, rfl⟩ := Prod.mk.inj heq
    have hqn := List.all_eq_true.mp hl n' (List.mem_map_of_mem hmem')
    rw [Bool.not_eq_true'] at hqn
    rw [hqn]
    exact Bool.false_ne_true
  rw [hfields, List.filterMap_append, List.find?_append, hnone pre hpre, Option.none_or]
  cases value with
  | none => exact hnone post hpost
  | some v =>
    rw [List.filterMap_cons]
    exact List.find?_cons_of_pos hq

/-- The key that a name is sent as. -/
def isKey (key : List UInt8) (name : JsString) : Bool := decide ((utf8Of name).takeWhile (· ≠ 0) = key)

section Lookup

variable {numberText : Number → List UInt8} {doc : JsonDoc} {root : ℕ} {children : List ℕ}
  {members : List (JsString × JsValue)}

/-- `pai_json_member` finds the node of a member. -/
lemma paiJsonMember_nodeFor (hchildren : childrenOf doc .object root = some children)
    (hrel : List.Forall₂ (NodeFor numberText doc) children members) (key : List UInt8) :
    Option.Rel (NodeFor numberText doc) (paiJsonMember doc root key)
      (members.find? fun m => isKey key m.1) := by
  rw [paiJsonMember, hchildren, Option.bind_some]
  refine find?_rel hrel fun k m hk => ?_
  rw [hasKeyText_eq hk.kid, isKey]
  exact decide_eq_decide.mpr (by rw [toMember, Option.map_some, Option.some_inj])

/-- A member that is missing. -/
lemma numMember_none {key : List UInt8} {default : Float}
    (h : Option.Rel (NodeFor numberText doc) (paiJsonMember doc root key) none) :
    numMember doc root key default = default := by
  rw [numMember]
  cases hmember : paiJsonMember doc root key with
  | none => rfl
  | some k =>
    rw [hmember] at h
    cases h

/-- A member that is a number. -/
lemma numMember_some {key : List UInt8} {default : Float} {name : JsString} {x : Number}
    (h : Option.Rel (NodeFor numberText doc) (paiJsonMember doc root key) (some (name, .number x))) :
    ∃ r, NumberEnd r ∧ parseNumber (numberText x ++ r) = some (numMember doc root key default, r) := by
  rw [numMember]
  cases hmember : paiJsonMember doc root key with
  | none =>
    rw [hmember] at h
    cases h
  | some k =>
    rw [hmember] at h
    cases h with
    | some hk =>
      obtain ⟨n, hn, -, hvalue⟩ := hk.kid
      obtain ⟨w, r, hw, hr, hparse⟩ := hk.num x rfl
      rw [hn, Option.map_some, Option.some_inj] at hw
      have htype : n.type = .number := hvalue
      refine ⟨r, hr, ?_⟩
      rw [hparse, ← hw]
      simp only [paiJsonType, paiJsonNum, hn, htype, ne_eq, not_true_eq_false, if_false, if_true]

end Lookup

/-! ## Stop sequences -/

lemma ne_zero_of_mem_utf8 {u : ℕ} (hpos : 0 < u) (hu : u < 0x110000) : ∀ b ∈ utf8 u, b ≠ 0 := by
  rcases Nat.lt_or_ge u 0x80 with hascii | hlarge
  · rw [show utf8 u = [UInt8.ofNat u] from if_pos hascii, List.forall_mem_singleton]
    intro hzero
    have hnat : (UInt8.ofNat u).toNat = u := UInt8.toNat_ofNat_of_lt' (show u < 256 by omega)
    rw [hzero] at hnat
    exact hpos.ne hnat
  · rintro b hb rfl
    exact absurd (le_of_mem_utf8 hlarge hu 0 hb) (by decide)

/-- The bytes of a code unit that is not zero. -/
lemma takeWhile_loneUnit {u : UInt16} (hu : u ≠ 0) (r : List UInt8) :
    (loneUnit u.toNat ++ r).takeWhile (· ≠ 0) = loneUnit u.toNat ++ r.takeWhile (· ≠ 0) := by
  have hpos : 0 < u.toNat := Nat.pos_of_ne_zero fun h => hu (UInt16.toNat_inj.mp h)
  have hlt := u.toNat_lt
  refine List.takeWhile_append_of_pos fun b hb => decide_eq_true ?_
  unfold loneUnit at hb
  split_ifs at hb
  · exact ne_zero_of_mem_utf8 (by decide) (by decide) b hb
  · exact ne_zero_of_mem_utf8 hpos (by omega) b hb

lemma takeWhile_unit {u : UInt16} (hu : u ≠ 0) (s : JsString) :
    (u :: s).takeWhile (· ≠ 0) = u :: s.takeWhile (· ≠ 0) :=
  List.takeWhile_cons_of_pos (by rwa [decide_eq_true_eq])

/-- A string ends at its first zero unit, and so do its bytes. -/
lemma takeWhile_utf8Of (s : JsString) : (utf8Of s).takeWhile (· ≠ 0) = utf8Of (s.takeWhile (· ≠ 0)) := by
  induction s using quoteUnits.induct with
  | case1 => rfl
  | case2 u =>
    rw [utf8Of_singleton]
    by_cases hu : u = 0
    · rw [hu]
      rfl
    · have htake := takeWhile_loneUnit hu []
      rw [List.append_nil, List.takeWhile_nil, List.append_nil] at htake
      rw [htake, takeWhile_unit hu, List.takeWhile_nil, utf8Of_singleton]
  | case3 u v s h ih =>
    obtain ⟨⟨h1, h2⟩, h3, h4⟩ := h
    have hu : u ≠ 0 := by
      rintro rfl
      exact absurd h1 (by decide)
    have hv : v ≠ 0 := by
      rintro rfl
      exact absurd h3 (by decide)
    rw [utf8Of_pair ⟨⟨h1, h2⟩, h3, h4⟩, List.takeWhile_append_of_pos, ih,
      takeWhile_unit hu, takeWhile_unit hv,
      utf8Of_pair ⟨⟨h1, h2⟩, h3, h4⟩]
    intro b hb
    exact decide_eq_true (ne_zero_of_mem_utf8 (by unfold pairPoint; omega) (by unfold pairPoint; omega) b
        hb)
  | case4 u v s h ih =>
    rw [utf8Of_lone h]
    by_cases hu : u = 0
    · rw [hu]
      rfl
    · rw [takeWhile_loneUnit hu, ih, takeWhile_unit hu]
      by_cases hv : v = 0
      · rw [hv, List.takeWhile_cons_of_neg (by decide), utf8Of_singleton]
        exact List.append_nil _
      · rw [takeWhile_unit hv, utf8Of_lone h]

lemma utf8_ne_nil (u : ℕ) : utf8 u ≠ [] := by
  unfold utf8
  split_ifs <;> exact List.cons_ne_nil _ _

lemma utf8Of_eq_nil_iff (s : JsString) : utf8Of s = [] ↔ s = [] := by
  refine ⟨fun h => ?_, fun h => by rw [h]; rfl⟩
  match s with
  | [] => rfl
  | [u] =>
    rw [utf8Of_singleton] at h
    exact absurd h (utf8_ne_nil _)
  | u :: v :: s =>
    by_cases hpair : isHigh u.toNat ∧ isLow v.toNat
    · rw [utf8Of_pair hpair, List.append_eq_nil_iff] at h
      exact absurd h.1 (utf8_ne_nil _)
    · rw [utf8Of_lone hpair, List.append_eq_nil_iff] at h
      exact absurd h.1 (utf8_ne_nil _)

/-- A stop sequence that the gateway accepts: it does not start with a zero unit, and its units in front
of the first zero unit are at most 64 bytes. -/
def StopServable (s : JsString) : Prop :=
  s.head? ≠ some 0 ∧ (utf8Of (s.takeWhile (· ≠ 0))).length ≤ 64

lemma stopFits_iff {s : JsString} (hne : s ≠ []) :
    stopFits ((utf8Of s).takeWhile (· ≠ 0)) = true ↔ StopServable s := by
  rw [takeWhile_utf8Of, stopFits, StopServable, decide_eq_true_eq, ne_eq, utf8Of_eq_nil_iff]
  refine and_congr_left' (not_congr ?_)
  obtain ⟨u, t, rfl⟩ := List.exists_cons_of_ne_nil hne
  by_cases hu : u = 0
  · rw [hu, List.takeWhile_cons_of_neg (by decide)]
    exact ⟨fun _ => rfl, fun _ => rfl⟩
  · rw [takeWhile_unit hu, List.head?_cons, Option.some_inj]
    exact ⟨fun h => absurd h (List.cons_ne_nil _ _), fun h => absurd h hu⟩

/-- The kept stop sequences are the first four that are not empty. -/
lemma keptStops_eq (stop : List JsString) :
    keptStops stop = ((stop.filter (· ≠ [])).take 4).map (·.take 64) := by
  rw [keptStops, List.filter_map, List.map_take]
  congr 3
  funext s
  cases s with
  | nil => rfl
  | cons u s => rfl

lemma keptStops_spec (stop : List JsString) :
    (keptStops stop).length ≤ 4 ∧ ∀ s ∈ keptStops stop, s ≠ [] ∧ s.length ≤ 64 := by
  refine ⟨List.length_take_le _ _, fun s hs => ?_⟩
  obtain ⟨hmem, hne⟩ := List.mem_filter.mp (List.mem_of_mem_take hs)
  obtain ⟨t, -, rfl⟩ := List.mem_map.mp hmem
  exact ⟨of_decide_eq_true hne, List.length_take_le _ _⟩

section Stops

variable {numberText : Number → List UInt8} {doc : JsonDoc} {root : ℕ}

/-- A string that the pool holds. -/
lemma paiJsonStr_of_heldAt {k : ℕ} {s : List UInt8} (h : HeldAt doc k (.string s)) :
    paiJsonType doc k = .string ∧ paiJsonStr doc k = some (s.takeWhile (· ≠ 0)) := by
  obtain ⟨n, hn, htype, off, hoff, hstr⟩ := h
  rw [paiJsonType, paiJsonStr, hn]
  dsimp only
  rw [if_pos htype, hoff, Option.map_some, strAt_eq_takeWhile hstr]
  exact ⟨htype, rfl⟩

/-- The check of an element. -/
lemma checkStopItem_eq_none_iff {node : ℕ} {stops : List JsString}
    (h : HeldAt doc node (toJson (.array (stops.map .string)))) {i : ℕ} (hi : i < stops.length)
    (hne : ∀ s ∈ stops, s ≠ []) : checkStopItem doc node i = none ↔ StopServable stops[i] := by
  rw [toJson, toItems_eq] at h
  obtain ⟨children, hchildren, hrel⟩ := childrenOf_eq h
  have hlen : i < ((stops.map JsValue.string).map fun v =>
      ((none : Option (List UInt8)), toJson v)).length := by
    rw [List.length_map, List.length_map]
    exact hi
  have hlen' : i < children.length := by
    rw [hrel.length_eq]
    exact hlen
  have hheld : HeldAt doc children[i] (.string (utf8Of stops[i])) := by
    have hkid := (hrel.get hlen' hlen).heldAt
    simp only [List.get_eq_getElem, List.getElem_map, toJson] at hkid
    exact hkid
  obtain ⟨htype, hstr⟩ := paiJsonStr_of_heldAt hheld
  rw [checkStopItem, paiJsonArrayAt, show JsonType.array = containerType false from rfl, hchildren,
    Option.bind_some, List.getElem?_eq_getElem hlen']
  dsimp only
  rw [htype, hstr, Option.getD_some, if_neg (not_not_intro rfl)]
  rw [← stopFits_iff (hne _ (List.getElem_mem hi))]
  by_cases hfits : stopFits ((utf8Of stops[i]).takeWhile (· ≠ 0)) = true
  · rw [if_pos hfits]
    exact ⟨fun _ => hfits, fun _ => rfl⟩
  · rw [if_neg hfits]
    exact ⟨fun h => (by cases h), fun h => absurd h hfits⟩

/-- The check of the stop sequences of a request. -/
lemma checkStop_eq_none_iff {stops : List JsString} {name : JsString}
    (h : Option.Rel (NodeFor numberText doc) (paiJsonMember doc root stopKey)
      (some (name, .array (stops.map .string))))
    (hne : ∀ s ∈ stops, s ≠ []) (hpos : stops ≠ []) (hfour : stops.length ≤ 4) :
    checkStop doc root = none ↔ ∀ s ∈ stops, StopServable s := by
  rw [checkStop]
  cases hmember : paiJsonMember doc root stopKey with
  | none =>
    rw [hmember] at h
    cases h
  | some k =>
    rw [hmember] at h
    cases h with
    | some hk =>
      have hheld : HeldAt doc k (toJson (.array (stops.map .string))) := hk.kid.heldAt
      have htype : paiJsonType doc k = .array := by
        obtain ⟨n, hn, hv⟩ := hheld
        rw [paiJsonType, hn]
        rw [toJson] at hv
        exact hv.1
      have hlen : paiJsonArrayLen doc k = some stops.length := by
        have hheld' := hheld
        rw [toJson, toItems_eq] at hheld'
        obtain ⟨children, hchildren, hrel⟩ := childrenOf_eq hheld'
        rw [paiJsonArrayLen, show JsonType.array =
            containerType false from rfl, hchildren, Option.map_some,
          hrel.length_eq, List.length_map, List.length_map]
      have hcount : ¬ (stops.length ≤ 0 ∨ gwStopMax < stops.length) := by
        have := List.length_pos_iff.mpr hpos
        unfold gwStopMax
        omega
      dsimp only
      rw [htype, if_neg (by decide), if_pos rfl, hlen]
      dsimp only
      rw [if_neg hcount, List.findSome?_eq_none_iff]
      constructor
      · intro hall s hs
        obtain ⟨i, hi, rfl⟩ := List.getElem_of_mem hs
        exact (checkStopItem_eq_none_iff hheld hi hne).mp (hall i (List.mem_range.mpr hi))
      · intro hall i hi
        have hi := List.mem_range.mp hi
        exact (checkStopItem_eq_none_iff hheld hi hne).mpr (hall _ (List.getElem_mem hi))

/-- No stop sequences are accepted. -/
lemma checkStop_none (h : Option.Rel (NodeFor numberText doc) (paiJsonMember doc root stopKey) none) :
    checkStop doc root = none := by
  rw [checkStop]
  cases hmember : paiJsonMember doc root stopKey with
  | none => rfl
  | some k =>
    rw [hmember] at h
    cases h

end Stops

end Prospero
