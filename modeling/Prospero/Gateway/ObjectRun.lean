import Prospero.Gateway.ChatRequest

/-!
# Runs of the parser over a printed object

What `pai_json_parse` makes of the text of an object: the document of its members, where the node of a
number holds what `parse_number` returned, or a refusal because of one of the numbers.

### Outline

* `Consumed`, the run over a value, and `itemLoop_members`, the run over the members;
* `paiJsonParse_object`, the run over the text.
-/

namespace Prospero

open NumberText (Number)
open Rfc8259 Reader

/-! ## Objects and their numbers -/

section Members

variable (numberText : Number → List UInt8)

/-- The parser reads the text of a number up to its end, or refuses it. -/
structure ReadsText (x : Number) : Prop where
  /-- The first byte. -/
  head : ∃ c t, numberText x = c :: t ∧ (c = 45 ∨ isDigit c)
  /-- Nothing more is consumed. -/
  parse : ∀ r, NumberEnd r → parseNumber (numberText x ++ r) = none ∨
    ∃ v, parseNumber (numberText x ++ r) = some (v, r)

/-- The node of a number holds what `parse_number` returned. -/
def NumAt (doc : JsonDoc) (i : ℕ) (v : JsValue) : Prop :=
  ∀ x, v = .number x → ∃ w r, (doc.nodes[i]?).map JsonNode.num = some w ∧ NumberEnd r ∧
    parseNumber (numberText x ++ r) = some (w, r)

/-- A value is a number that `parse_number` refuses in front of some bytes. -/
def RefusedNumber (v : JsValue) : Prop :=
  ∃ x r, v = .number x ∧ NumberEnd r ∧ parseNumber (numberText x ++ r) = none

/-- The parser consumes the text of a value, or refuses it for its number. -/
def Consumed (n : ℕ) (v : JsValue) : Prop :=
  ∀ {doc : JsonDoc} {rest r : List UInt8}, PoolOk doc → Ws rest (stringify numberText v ++ r) →
      NumberEnd r →
    Fits doc (toJson v).nodes (toJson v).stringBytes →
    (parseValue n doc rest = malformed ∧ RefusedNumber numberText v) ∨
      ∃ doc', parseValue n doc rest = .ok (doc.nodes.length, doc', r) ∧
        ValueBuilt doc doc' doc.nodes.length (toJson v) ∧ NumAt numberText doc' doc.nodes.length v

variable {numberText}

lemma NumAt.congr {doc doc' : JsonDoc} {i : ℕ} {v : JsValue} (h : NumAt numberText doc i v)
    (hnum : (doc'.nodes[i]?).map JsonNode.num = (doc.nodes[i]?).map JsonNode.num) :
    NumAt numberText doc' i v := by
  intro x hx
  obtain ⟨w, r, hw, hr, hparse⟩ := h x hx
  exact ⟨w, r, hnum.trans hw, hr, hparse⟩

/-- A value without a number. -/
lemma consumed_of_derives {n : ℕ} {v : JsValue} (hv : ∀ x, v ≠ .number x)
    (h : ∀ r, Derives tightDialect .value n (stringify numberText v ++ r) r (toJson v)) :
    Consumed numberText n v := by
  intro doc rest r hpool hws hr hfits
  obtain ⟨doc', hrun, hbuilt⟩ := completeAt_of_derives (h r) hpool hws hr hfits
  exact Or.inr ⟨doc', hrun, hbuilt, fun x hx => absurd hx (hv x)⟩

/-- A value that starts as no other kind does is a number. -/
lemma parseValue_number {n : ℕ} {doc : JsonDoc} {rest t : List UInt8} {c : UInt8} (hws : Ws rest (c :: t))
    (hc : c = 45 ∨ isDigit c) :
    parseValue (n + 1) doc rest = match parseNumber (c :: t) with
      | none => malformed
      | some (v, rest) => (newNode doc .number).bind fun p =>
        .ok (p.1, p.2.modify p.1 fun n => { n with num := v }, rest) := by
  obtain ⟨h1, h2, h3, h4, h5, h6, hnoWs⟩ := number_head_ne hc
  rw [parseValue, skipWs_eq hws (noWs_cons hnoWs)]
  dsimp only
  rw [if_neg h1, if_neg h2, if_neg h3, if_neg h4, if_neg h5, if_neg h6]
  rfl

/-- A number. -/
lemma consumed_number {n : ℕ} {x : Number} (h : ReadsText numberText x) :
    Consumed numberText (n + 1) (.number x) := by
  intro doc rest r hpool hws hr hfits
  have hroom : doc.nodes.length < paiJsonMaxNodes := hfits.nodes_le
  obtain ⟨c, t, htext, hc⟩ := h.head
  rw [stringify, htext, List.cons_append] at hws
  have hrun := @parseValue_number n doc rest (t ++ r) c hws hc
  have happend : c :: (t ++ r) = numberText x ++ r := by
    rw [htext]
    rfl
  rw [hrun, happend]
  rcases h.parse r hr with hnone | ⟨v, hsome⟩
  · rw [hnone]
    exact Or.inl ⟨rfl, x, r, rfl, hr, hnone⟩
  · rw [hsome]
    dsimp only
    rw [newNode_eq _ hroom, Except.bind]
    dsimp only
    rw [modify_addNode]
    refine Or.inr ⟨_, rfl, hpool.leaf hroom rfl rfl rfl rfl rfl, ?_⟩
    rintro y ⟨⟩
    refine ⟨v, r, ?_, hr, hsome⟩
    rw [nodes_addNode, List.getElem?_concat_length]
    rfl

/-- A change that keeps the numbers. -/
lemma num_modify (doc : JsonDoc) (i k : ℕ) {f : JsonNode → JsonNode} (hf : ∀ n, (f n).num = n.num) :
    ((doc.modify i f).nodes[k]?).map JsonNode.num = (doc.nodes[k]?).map JsonNode.num := by
  by_cases hk : k = i
  · subst hk
    rw [getElem?_modify_self, Option.map_map]
    congr 1
    exact funext hf
  · rw [getElem?_modify_of_ne _ _ _ hk]

lemma num_appendChild (doc : JsonDoc) (parent child k : ℕ) :
    ((appendChild doc parent child).nodes[k]?).map JsonNode.num = (doc.nodes[k]?).map JsonNode.num := by
  unfold appendChild
  split
  · exact num_modify _ _ _ fun n => rfl
  · exact num_modify _ _ _ fun n => rfl

/-- One pass through the children loop consumes a member. -/
lemma itemLoop_member (fuel : ℕ) {n : ℕ} {name : JsString} {v : JsValue}
    (hname : 3 * name.length ≤ paiJsonMaxString) (hv : Consumed numberText n v) {doc : JsonDoc} {node : ℕ}
    {tail : Option ℕ} {r : List UInt8} (hpool : PoolOk doc) (htail : Tail doc node tail)
    (hr : NumberEnd r)
    (hfits : Fits doc (nodesOfKid (toMember (name, v))) (bytesOfKid (toMember (name, v)))) :
    (itemLoop true (parseValue n) (fuel + 1) node doc (stringifyMember numberText (name, v) ++ r) =
    malformed ∧
        RefusedNumber numberText v) ∨
      ∃ doc', ItemsBuilt doc doc' node tail [toMember (name, v)] ∧
          Tail doc' node (some doc.nodes.length) ∧
        NumAt numberText doc' doc.nodes.length v ∧
        itemLoop true (parseValue n) (fuel + 1) node doc (stringifyMember numberText (name, v) ++ r) =
          match skipWs r with
          | [] => malformed
          | c :: rest =>
            if c = 44 then itemLoop true (parseValue n) fuel node doc' rest
            else if c = closing true then .ok (doc', rest)
            else malformed := by
  obtain ⟨hnodes, hbytes⟩ := hfits
  rw [toMember, nodesOfKid] at hnodes
  rw [toMember, bytesOfKid] at hbytes
  have hkey : Key paiJsonMaxString true (stringifyMember numberText (name, v) ++ r)
      (stringify numberText v ++ r) (some (utf8Of name)) := by
    rw [stringifyMember, List.append_assoc, List.cons_append]
    exact .present (stringLit_quoteJson name hname _) .nil .nil
  obtain ⟨off, doc₀, w, hkeyRun, hw, hstored, hoff⟩ :=
    parseKey_of_key hpool .nil (fun _ => rfl) hkey (by omega)
  rw [itemLoop, hkeyRun, ok_bind]
  dsimp only
  rcases hv hstored.pool hw hr ⟨by rw [hstored.nodes]; exact hnodes, by rw [hstored.bytes]; omega⟩ with
    ⟨hbad, hrefused⟩ | ⟨doc₁, hvalueRun, hbuilt, hnum⟩
  · rw [hbad]
    exact Or.inl ⟨rfl, hrefused⟩
  · have hitem := hbuilt.item htail hstored.nodes hstored.strs_grow hstored.bytes hstored.hasKey hoff rfl
    rw [hstored.nodes] at hitem hvalueRun hnum
    refine Or.inr ⟨_, hitem.1, hitem.2, hnum.congr ?_, ?_⟩
    · rw [num_appendChild, if_pos rfl]
      exact num_modify _ _ _ fun n => rfl
    · rw [hvalueRun]
      exact ok_bind _ _

lemma numberEnd_cons {c : UInt8} {r : List UInt8} (hc : c = 44 ∨ c = 125) : NumberEnd (c :: r) :=
  numberEnd_of_ws .nil (by rcases hc with h | h; exacts [Or.inl h, Or.inr (Or.inr h)])

/-- The text of the members, with the closing brace. -/
def membersText (numberText : Number → List UInt8) (members : List (JsString × JsValue))
    (r : List UInt8) :
    List UInt8 := List.intercalate [44] (stringifyMembers numberText members) ++ 125 :: r

lemma membersText_singleton (member : JsString × JsValue) (r : List UInt8) :
    membersText numberText [member] r = stringifyMember numberText member ++ 125 :: r := by
  rw [membersText, stringifyMembers, stringifyMembers, List.intercalate_singleton]

lemma membersText_cons (member : JsString × JsValue) {members : List (JsString × JsValue)}
    (h : members ≠ []) (r : List UInt8) :
    membersText numberText (member :: members) r =
      stringifyMember numberText member ++ 44 :: membersText numberText members r := by
  have hne : stringifyMembers numberText members ≠ [] := by
    obtain ⟨m, ms, rfl⟩ := List.exists_cons_of_ne_nil h
    exact List.cons_ne_nil _ _
  rw [membersText, stringifyMembers, List.intercalate_cons_of_ne_nil hne, membersText, List.append_assoc,
    List.append_assoc]
  rfl

/-- The children loop consumes the members, or refuses one for its number. -/
lemma itemLoop_members {n : ℕ} {members : List (JsString × JsValue)} (hne : members ≠ [])
    (hnames : ∀ m ∈ members, 3 * m.1.length ≤ paiJsonMaxString)
    (hvalues : ∀ m ∈ members, Consumed numberText n m.2) {doc : JsonDoc} {node fuel : ℕ} {tail : Option ℕ}
    {r : List UInt8} (hpool : PoolOk doc) (htail : Tail doc node tail) (hfuel : members.length ≤ fuel)
    (hfits : Fits doc (nodesOfKids (toMembers members)) (bytesOfKids (toMembers members))) :
    (itemLoop true (parseValue n) fuel node doc (membersText numberText members r) = malformed ∧
        ∃ m ∈ members, RefusedNumber numberText m.2) ∨
      ∃ doc', itemLoop true (parseValue n) fuel node doc (membersText numberText members r) =
          .ok (doc', r) ∧
        ItemsBuilt doc doc' node tail (toMembers members) ∧
        List.Forall₂ (fun i m => NumAt numberText doc' i m.2)
        (kidIndices doc.nodes.length (toMembers members))
          members := by
  induction members generalizing doc fuel tail with
  | nil => exact absurd rfl hne
  | cons member members ih =>
    obtain ⟨name, v⟩ := member
    obtain ⟨hname, hnames⟩ := List.forall_mem_cons.mp hnames
    obtain ⟨hv, hvalues⟩ := List.forall_mem_cons.mp hvalues
    rw [List.length_cons] at hfuel
    obtain ⟨fuel, rfl⟩ : ∃ f, fuel = f + 1 := ⟨fuel - 1, by omega⟩
    obtain ⟨hnodes, hbytes⟩ := hfits
    rw [toMembers, nodesOfKids] at hnodes
    rw [toMembers, bytesOfKids] at hbytes
    have hfits : Fits doc (nodesOfKid (toMember (name, v))) (bytesOfKid (toMember (name, v))) :=
      ⟨by omega, by omega⟩
    by_cases hlast : members = []
    · subst hlast
      rw [membersText_singleton, toMembers, toMembers]
      rcases itemLoop_member fuel hname hv hpool htail (@numberEnd_cons 125 r (Or.inr rfl)) hfits with
        ⟨hbad, hrefused⟩ | ⟨doc', hbuilt, -, hnum, hrun⟩
      · exact Or.inl ⟨hbad, _, List.mem_cons_self, hrefused⟩
      · refine Or.inr ⟨doc', ?_, hbuilt, .cons hnum .nil⟩
        rw [hrun, skipWs_eq .nil (noWs_cons (by decide))]
        rfl
    · rw [membersText_cons _ hlast]
      rcases itemLoop_member fuel hname hv hpool htail (@numberEnd_cons 44 _ (Or.inl rfl)) hfits with
        ⟨hbad, hrefused⟩ | ⟨doc₁, hbuilt, htail₁, hnum, hrun⟩
      · exact Or.inl ⟨hbad, _, List.mem_cons_self, hrefused⟩
      · have hcount : doc₁.nodes.length = doc.nodes.length + nodesOfKid (toMember (name, v)) := by
          rw [hbuilt.count, nodesOfKids, nodesOfKids, Nat.add_zero]
        have hsize : doc₁.strs.length = doc.strs.length + bytesOfKid (toMember (name, v)) := by
          rw [hbuilt.bytes, bytesOfKids, bytesOfKids, Nat.add_zero]
        have hnext : itemLoop true (parseValue n) (fuel + 1) node doc
            (stringifyMember numberText (name, v) ++ 44 :: membersText numberText members r) =
              itemLoop true (parseValue n) fuel node doc₁ (membersText numberText members r) := by
          rw [hrun, skipWs_eq .nil (noWs_cons (by decide))]
          rfl
        rw [hnext]
        have hfuel' : members.length ≤ fuel := by omega
        rcases ih hlast hnames hvalues hbuilt.pool htail₁ hfuel' ⟨by omega, by omega⟩ with
          ⟨hbad, m, hm, hrefused⟩ | ⟨doc', hrun', hmore, hnums⟩
        · exact Or.inl ⟨hbad, m, List.mem_cons_of_mem _ hm, hrefused⟩
        · refine Or.inr ⟨doc', hrun', hbuilt.cons hmore, ?_⟩
          rw [toMembers, kidIndices, ← hcount]
          refine .cons (hnum.congr ?_) hnums
          have hlt : doc.nodes.length < doc₁.nodes.length := by
            have hpos : 0 < nodesOfKid (toMember (name, v)) := nodes_pos _
            omega
          rw [hmore.old _ hlt, Option.getD_some, if_pos rfl, Option.map_map]
          rfl

/-- A node of the document of an object, and its member. -/
structure NodeFor (numberText : Number → List UInt8) (doc : JsonDoc) (i : ℕ) (m : JsString × JsValue) :
    Prop where
  /-- The member, with its key. -/
  kid : KidAt doc i (toMember m)
  /-- Its number. -/
  num : NumAt numberText doc i m.2

/-- The parser accepts an object and builds its document, or refuses one of its numbers. -/
lemma paiJsonParse_object {members : List (JsString × JsValue)} (hne : members ≠ [])
    (hnames : ∀ m ∈ members, 3 * m.1.length ≤ paiJsonMaxString)
    (hvalues : ∀ m ∈ members, Consumed numberText paiJsonMaxDepth m.2)
    (hnodes : nodesOfKids (toMembers members) < paiJsonMaxNodes)
    (hbytes : bytesOfKids (toMembers members) ≤ 0x80000000) :
    (paiJsonParse (stringify numberText (.object members)) = malformed ∧
        ∃ m ∈ members, RefusedNumber numberText m.2) ∨
      ∃ doc root children, paiJsonParse (stringify numberText (.object members)) = .ok doc ∧
        doc.root = some root ∧ paiJsonType doc root = .object ∧
        childrenOf doc .object root = some children ∧
        List.Forall₂ (NodeFor numberText doc) children members := by
  have hroom : emptyDoc.nodes.length < paiJsonMaxNodes := by decide
  have hpool := poolOk_empty.addNode hroom (JsonNode.blank .object)
  have htext : stringify numberText (.object members) =
      opening true :: membersText numberText members [] := by
    rw [stringify]
    rfl
  have hhead : ∃ t, membersText numberText members [] = 34 :: t := by
    obtain ⟨⟨name, v⟩, more, rfl⟩ := List.exists_cons_of_ne_nil hne
    by_cases hmore : more = []
    · subst hmore
      exact ⟨_, by rw [membersText_singleton, stringifyMember, quoteJson]; rfl⟩
    · exact ⟨_, by rw [membersText_cons _ hmore, stringifyMember, quoteJson]; rfl⟩
  have hskip : skipWs (membersText numberText members []) = membersText numberText members [] := by
    obtain ⟨t, ht⟩ := hhead
    rw [ht]
    exact skipWs_eq .nil (noWs_cons (by decide))
  have hfirst : (membersText numberText members []).head? ≠ some (closing true) := by
    obtain ⟨t, ht⟩ := hhead
    rw [ht, List.head?_cons]
    rintro ⟨⟩
  have hfuel : members.length ≤ (membersText numberText members []).length + 1 := by
    have hlen : ∀ ms : List (JsString × JsValue), ms.length ≤ (membersText numberText ms []).length := by
      intro ms
      induction ms with
      | nil => exact Nat.zero_le _
      | cons m ms ih =>
        by_cases hms : ms = []
        · subst hms
          rw [membersText_singleton, List.length_append, List.length_cons]
          simp
        · rw [membersText_cons _ hms, List.length_append, List.length_cons, List.length_cons]
          omega
    exact (hlen members).trans (Nat.le_succ _)
  have hcontainer : parseValue (paiJsonMaxDepth + 1) emptyDoc (stringify numberText (.object members)) =
      (itemLoop true (parseValue paiJsonMaxDepth) ((membersText numberText members []).length + 1) 0
        (emptyDoc.addNode (JsonNode.blank .object)) (membersText numberText members [])).bind
          fun p => .ok (0, p.1, p.2) := by
    rw [htext, parseValue_open .nil, parseContainer, newNode_eq _ hroom, ok_bind]
    dsimp only
    rw [hskip, if_neg hfirst]
    rfl
  rcases @itemLoop_members numberText paiJsonMaxDepth members hne hnames hvalues _ 0 _ none [] hpool
    (tail_addNode emptyDoc .object) hfuel
    ⟨by rw [length_addNode, show emptyDoc.nodes.length = 0 from rfl]; omega, by
      rw [show (emptyDoc.addNode (JsonNode.blank .object)).strs.length = 0 from rfl]
      omega⟩ with ⟨hbad, hrefused⟩ | ⟨doc, hrun, hbuilt, hnums⟩
  · refine Or.inl ⟨?_, hrefused⟩
    rw [paiJsonParse, hcontainer, hbad]
    rfl
  · obtain ⟨n, hn, -, -, hvalue⟩ := (@ItemsBuilt.container emptyDoc doc true _ hbuilt).value
    have hheld : HeldAt { doc with root := some 0 } 0 (.container true (toMembers members)) :=
      ⟨n, hn, hvalue.frame (fun _ _ _ => rfl) (List.prefix_refl _)⟩
    have htype : n.type = .object := hvalue.1
    have hkids : HoldsKids { doc with root := some 0 } 1 (toMembers members) := by
      obtain ⟨n', hn', hv⟩ := hheld
      exact hv.2.2
    have hchildren : childrenOf { doc with root := some 0 } .object 0 =
        some (kidIndices 1 (toMembers members)) := by
      rw [childrenOf, show ({ doc with root := some 0 } : JsonDoc).nodes[0]? = some n from hn]
      dsimp only
      rw [if_pos htype, hvalue.2.1]
      exact congrArg some (siblings_eq hkids (Nat.le_add_right _ _))
    refine Or.inr ⟨{ doc with root := some 0 }, 0, _, ?_, rfl, ?_, hchildren, ?_⟩
    · rw [paiJsonParse, hcontainer, hrun]
      rfl
    · rw [paiJsonType, show ({ doc with root := some 0 } : JsonDoc).nodes[0]? = some n from hn]
      exact htype
    · have hkidAt := kidAt_kidIndices hkids
      rw [toMembers_eq, List.forall₂_map_right_iff] at hkidAt
      rw [toMembers_eq]
      rw [toMembers_eq] at hnums
      exact List.forall₂_iff_get.mpr ⟨hkidAt.length_eq, fun i h1 h2 =>
        ⟨hkidAt.get h1 h2, hnums.get h1 h2⟩⟩

end Members

end Prospero
