import Prospero.Gateway.JsonPool

/-!
# The parser and the grammar

`parse_value` against the phrases of the grammar.  It is sound: what it consumes is a value, within the
limits, and the pool holds the document that the value denotes.  It is complete for the grammar without
the gap between a comma of an object and the next key: it consumes such a value whenever the pool has
room and what follows does not extend it.  Both follow the recursion of `parse_value`, one pass of the
children loop at a time.
-/

namespace Prospero

open Rfc8259 Reader

/-- The grammar that `pai_json_parse` implements. -/
def tightDialect : Dialect := ⟨false, paiJsonMaxString, 300⟩

/-- The grammar of the RFC, within the limits of `pai_json_parse`. -/
def rfcDialect : Dialect := ⟨true, paiJsonMaxString, 300⟩

/-! ## Leaves -/

lemma modify_addNode (doc : JsonDoc) (n : JsonNode) (f : JsonNode → JsonNode) :
    (doc.addNode n).modify doc.nodes.length f = doc.addNode (f n) := by
  have hconcat : ∀ l : List JsonNode, (l ++ [n]).modify l.length f = l ++ [f n] := by
    intro l
    induction l with
    | nil => rfl
    | cons a l ih =>
      rw [List.cons_append, List.length_cons, List.modify_succ_cons, ih]
      rfl
  rw [JsonDoc.modify, nodes_addNode, hconcat]
  rfl

/-- A value that needs no string. -/
lemma PoolOk.leaf {doc : JsonDoc} {n : JsonNode} {j : Json} (hpool : PoolOk doc)
    (hroom : doc.nodes.length < paiJsonMaxNodes) (hcount : j.nodes = 1) (hbytes : j.stringBytes = 0)
    (hkey : n.key = none) (hnext : n.next = none)
    (hvalue : HoldsValue (doc.addNode n) n doc.nodes.length j) :
    ValueBuilt doc (doc.addNode n) doc.nodes.length j :=
  valueBuilt_leaf rfl hcount (List.prefix_refl _) (by rw [hbytes, Nat.add_zero]; rfl)
    (hpool.addNode hroom n) hkey hnext hvalue

/-- A literal name is its bytes. -/
lemma parseLiteral_eq_ok {doc doc' : JsonDoc} {t name r : List UInt8} {type : JsonType} {b : Bool}
    {i : ℕ} :
    parseLiteral doc t name type b = .ok (i, doc', r) ↔
      t = name ++ r ∧ doc.nodes.length < paiJsonMaxNodes ∧ i = doc.nodes.length ∧
        doc' = doc.addNode { JsonNode.blank type with boolean := b } := by
  unfold parseLiteral
  constructor
  · intro h
    split_ifs at h with hname
    · obtain ⟨⟨node, doc₁⟩, hnew, h⟩ := bind_eq_ok h
      obtain ⟨hroom, rfl, rfl⟩ := eq_of_newNode hnew
      dsimp only at h
      rw [modify_addNode] at h
      cases h
      refine ⟨?_, hroom, rfl, rfl⟩
      rw [← List.take_append_drop name.length t, hname, List.drop_left]
    · cases h
  · rintro ⟨rfl, hroom, rfl, rfl⟩
    rw [if_pos List.take_left, newNode_eq type hroom, ok_bind]
    dsimp only
    rw [modify_addNode, List.drop_left]

/-- A string value is its node and its string. -/
lemma Stored.value {doc doc₁ : JsonDoc} {s : List UInt8}
    (h : Stored (doc.addNode (JsonNode.blank .string)) s doc₁) :
    ValueBuilt doc (doc₁.modify doc.nodes.length fun n => { n with str := some doc.strs.length })
      doc.nodes.length (.string s) := by
  have hnodes : (doc₁.modify doc.nodes.length fun n => { n with str := some doc.strs.length }).nodes =
      doc.nodes ++ [{ JsonNode.blank .string with str := some doc.strs.length }] := by
    rw [← nodes_addNode, ← modify_addNode doc (JsonNode.blank .string)
      fun n => { n with str := some doc.strs.length }, JsonDoc.modify, h.nodes]
    rfl
  refine valueBuilt_leaf hnodes rfl h.strs_grow h.length_strs (h.pool.modify _ _) rfl rfl ?_
  exact ⟨rfl, _, rfl, h.hasString⟩

/-! ## Keys -/

/-- Parsing what stands in front of a child took the pool from `doc` to `doc'`. -/
structure KeyStored (doc doc' : JsonDoc) (off : Option ℕ) (key : Option (List UInt8)) : Prop where
  /-- The nodes stay. -/
  nodes : doc'.nodes = doc.nodes
  /-- The strings that were there stay. -/
  strs_grow : doc.strs <+: doc'.strs
  /-- Size of the arena. -/
  bytes : doc'.strs.length = doc.strs.length + keyBytes key
  /-- The key is stored. -/
  hasKey : HasKey doc'.strs off key
  /-- The pool stays well formed. -/
  pool : PoolOk doc'

lemma PoolOk.noKey {doc : JsonDoc} (h : PoolOk doc) : KeyStored doc doc none none :=
  ⟨rfl, List.prefix_refl _, rfl, trivial, h⟩

lemma Stored.key {doc doc' : JsonDoc} {s : List UInt8} (h : Stored doc s doc') :
    KeyStored doc doc' (some doc.strs.length) (some s) :=
  ⟨h.nodes, h.strs_grow, h.length_strs, h.hasString, h.pool⟩

/-- What is parsed in front of a child is a key of the grammar; whitespace behind the comma is left to
the child in an array. -/
lemma keyStored_of_parseKey {isObject : Bool} {doc doc' : JsonDoc} {rest r : List UInt8}
    {off : Option ℕ} (hpool : PoolOk doc) (h : parseKey isObject doc rest = .ok (off, doc', r)) :
    ∃ key, KeyStored doc doc' off key ∧ (isObject = false → off = none) ∧
      ∀ u, Ws r u → ∃ x, Ws rest x ∧ (isObject = true → x = rest) ∧
        Key paiJsonMaxString isObject x u key := by
  unfold parseKey at h
  cases isObject with
  | false =>
    cases h
    exact ⟨none, hpool.noKey, fun _ => rfl, fun u hu => ⟨u, hu, nofun, Key.absent⟩⟩
  | true =>
    rw [if_pos rfl] at h
    split at h
    · next rest =>
      obtain ⟨⟨idx, doc₁, u⟩, hstring, h⟩ := bind_eq_ok h
      dsimp only at h
      split at h
      · next v hcolon =>
        cases h
        obtain ⟨key, hlit, rfl, hstored⟩ := stored_of_parseString hpool hstring
        have hbefore := ws_skipWs u
        rw [hcolon] at hbefore
        exact ⟨some key, hstored.key, nofun,
          fun w hw => ⟨34 :: rest, .nil, fun _ => rfl, .present hlit hbefore hw⟩⟩
      · cases h
    · cases h

/-! ## Soundness -/

/-- What a parser of values consumes is a value, and the pool holds it. -/
def SoundAt (levels : ℕ) (parse : JsonDoc → List UInt8 → JsonRun Parsed) : Prop :=
  ∀ {doc doc' : JsonDoc} {rest r : List UInt8} {i : ℕ}, PoolOk doc →
    parse doc rest = .ok (i, doc', r) →
      ∃ t j, Ws rest t ∧ Derives tightDialect .value levels t r j ∧ ValueBuilt doc doc' i j

lemma items_of_itemLoop {isObject : Bool} {levels : ℕ} {parse : JsonDoc → List UInt8 → JsonRun Parsed}
    (hparse : SoundAt levels parse) {fuel node : ℕ} {doc doc' : JsonDoc} {rest r : List UInt8}
    {tail : Option ℕ} (hpool : PoolOk doc) (htail : Tail doc node tail)
    (h : itemLoop isObject parse fuel node doc rest = .ok (doc', r)) :
    ∃ x kids, Ws rest x ∧ (isObject = true → x = rest) ∧
      Derives tightDialect (.items isObject) levels x r kids ∧ ItemsBuilt doc doc' node tail kids := by
  induction fuel generalizing doc rest tail with
  | zero => cases h
  | succ fuel ih =>
    rw [itemLoop] at h
    obtain ⟨⟨off, doc₀, u⟩, hkey, h⟩ := bind_eq_ok h
    obtain ⟨⟨val, doc₁, v⟩, hval, h⟩ := bind_eq_ok h
    obtain ⟨key, hstored, hoff, hderives⟩ := keyStored_of_parseKey hpool hkey
    obtain ⟨w, j, hws, hj, hbuilt⟩ := hparse hstored.pool hval
    obtain ⟨x, hx, hxrest, hk⟩ := hderives w hws
    have hitem := hbuilt.item htail hstored.nodes hstored.strs_grow hstored.bytes hstored.hasKey hoff rfl
    have hafter := ws_skipWs v
    dsimp only at h
    split at h
    · cases h
    · next c r₁ hskip =>
      rw [hskip] at hafter
      by_cases hcomma : c = 44
      · rw [if_pos hcomma] at h
        subst hcomma
        have hval : val = doc.nodes.length := by rw [hbuilt.index, hstored.nodes]
        obtain ⟨y, kids, hy, hyrest, hkids, hmore⟩ := ih hitem.1.pool hitem.2 h
        rw [hval] at hitem hmore
        refine ⟨x, (key, j) :: kids, hx, hxrest, .more hk hj hafter hy ?_ hkids, hitem.1.cons hmore⟩
        cases isObject with
        | false => exact Or.inr (Or.inl rfl)
        | true => exact Or.inr (Or.inr (hyrest rfl))
      · rw [if_neg hcomma] at h
        by_cases hclose : c = closing isObject
        · rw [if_pos hclose] at h
          cases h
          rw [hclose] at hafter
          exact ⟨x, [(key, j)], hx, hxrest, .last hk hj hafter, hitem.1⟩
        · rw [if_neg hclose] at h
          cases h

lemma tail_addNode (doc : JsonDoc) (type : JsonType) :
    Tail (doc.addNode (JsonNode.blank type)) doc.nodes.length none :=
  ⟨JsonNode.blank type, List.getElem?_concat_length, rfl⟩

/-- An empty container. -/
lemma PoolOk.emptyContainer {doc : JsonDoc} (hpool : PoolOk doc)
    (hroom : doc.nodes.length < paiJsonMaxNodes) (isObject : Bool) :
    ValueBuilt doc (doc.addNode (JsonNode.blank (containerType isObject))) doc.nodes.length
      (.container isObject []) :=
  hpool.leaf hroom rfl rfl rfl rfl ⟨rfl, rfl, trivial⟩

lemma container_of_parseContainer {isObject : Bool} {levels : ℕ}
    {parse : JsonDoc → List UInt8 → JsonRun Parsed} (hparse : SoundAt levels parse)
    {doc doc' : JsonDoc} {t r : List UInt8} {i : ℕ} (hpool : PoolOk doc)
    (h : parseContainer isObject parse doc t = .ok (i, doc', r)) :
    ∃ j, Derives tightDialect .value (levels + 1) (opening isObject :: t) r j ∧
      ValueBuilt doc doc' i j := by
  unfold parseContainer at h
  obtain ⟨⟨node, doc₀⟩, hnew, h⟩ := bind_eq_ok h
  obtain ⟨hroom, rfl, rfl⟩ := eq_of_newNode hnew
  have hafter := ws_skipWs t
  dsimp only at h
  by_cases hclose : (skipWs t).head? = some (closing isObject)
  · rw [if_pos hclose] at h
    cases h
    obtain ⟨rest, hrest⟩ : ∃ rest, skipWs t = closing isObject :: rest := by
      cases hskip : skipWs t with
      | nil => rw [hskip] at hclose; cases hclose
      | cons c rest => rw [hskip] at hclose; cases hclose; exact ⟨rest, rfl⟩
    rw [hrest] at hafter ⊢
    exact ⟨_, .empty hafter, hpool.emptyContainer hroom isObject⟩
  · rw [if_neg hclose] at h
    obtain ⟨⟨doc₁, r₁⟩, hloop, h⟩ := bind_eq_ok h
    cases h
    obtain ⟨x, kids, hx, -, hkids, hbuilt⟩ :=
      items_of_itemLoop hparse (hpool.addNode hroom _) (tail_addNode doc _) hloop
    exact ⟨_, .container (hafter.trans hx) hkids, hbuilt.container⟩

/-- `parse_value` is sound. -/
lemma soundAt_parseValue (levels : ℕ) : SoundAt levels (parseValue levels) := by
  induction levels with
  | zero =>
    intro doc doc' rest r i _ h
    cases h
  | succ levels ih =>
    intro doc doc' rest r i hpool h
    rw [parseValue] at h
    have hws := ws_skipWs rest
    split at h
    · cases h
    · next c t hskip =>
      rw [hskip] at hws
      split_ifs at h with h1 h2 h3 h4 h5 h6
      · obtain ⟨j, hj, hbuilt⟩ := container_of_parseContainer ih hpool h
        subst h1
        exact ⟨_, j, hws, hj, hbuilt⟩
      · obtain ⟨j, hj, hbuilt⟩ := container_of_parseContainer ih hpool h
        subst h2
        exact ⟨_, j, hws, hj, hbuilt⟩
      · subst h3
        obtain ⟨⟨node, doc₀⟩, hnew, h⟩ := bind_eq_ok h
        obtain ⟨hroom, rfl, rfl⟩ := eq_of_newNode hnew
        obtain ⟨⟨idx, doc₁, r₁⟩, hstring, h⟩ := bind_eq_ok h
        obtain ⟨s, hlit, rfl, hstored⟩ := stored_of_parseString (hpool.addNode hroom _) hstring
        cases h
        exact ⟨_, _, hws, .string hlit, hstored.value⟩
      · obtain ⟨ht, hroom, rfl, rfl⟩ := parseLiteral_eq_ok.mp h
        rw [ht] at hws
        exact ⟨_, _, hws, .isTrue, hpool.leaf hroom rfl rfl rfl rfl ⟨rfl, rfl⟩⟩
      · obtain ⟨ht, hroom, rfl, rfl⟩ := parseLiteral_eq_ok.mp h
        rw [ht] at hws
        exact ⟨_, _, hws, .isFalse, hpool.leaf hroom rfl rfl rfl rfl ⟨rfl, rfl⟩⟩
      · obtain ⟨ht, hroom, rfl, rfl⟩ := parseLiteral_eq_ok.mp h
        rw [ht] at hws
        exact ⟨_, _, hws, .null, hpool.leaf hroom rfl rfl rfl rfl rfl⟩
      · split at h
        · cases h
        · next v r₁ hnumber =>
          obtain ⟨⟨node, doc₀⟩, hnew, h⟩ := bind_eq_ok h
          obtain ⟨hroom, rfl, rfl⟩ := eq_of_newNode hnew
          dsimp only at h
          rw [modify_addNode] at h
          cases h
          exact ⟨_, _, hws, .number (number_of_parseNumber hnumber),
            hpool.leaf hroom rfl rfl rfl rfl rfl⟩

/-! ## Fuel -/

/-- The computation does not run out of fuel. -/
def Fueled {α : Type} (m : JsonRun α) : Prop := m ≠ .error .outOfFuel

lemma fueled_ok {α : Type} (a : α) : Fueled (.ok a : JsonRun α) := nofun

lemma fueled_malformed {α : Type} : Fueled (malformed : JsonRun α) := nofun

lemma fueled_tooLarge {α : Type} : Fueled (tooLarge : JsonRun α) := nofun

lemma Fueled.bind {α β : Type} {m : JsonRun α} {f : α → JsonRun β} (hm : Fueled m)
    (hf : ∀ a, m = .ok a → Fueled (f a)) : Fueled (m >>= f) := by
  cases m with
  | ok a => exact hf a rfl
  | error e => exact fun h => hm (congrArg Except.error (Except.error.inj h))

lemma fueled_newNode (doc : JsonDoc) (type : JsonType) : Fueled (newNode doc type) := by
  unfold newNode
  split_ifs
  · exact fueled_tooLarge
  · exact fueled_ok _

lemma fueled_stringLoop {fuel : ℕ} {rest : List UInt8} (out : List UInt8) (hfuel : rest.length < fuel) :
    Fueled (stringLoop fuel rest out) := by
  induction fuel generalizing rest out with
  | zero => omega
  | succ fuel ih =>
    cases rest with
    | nil => exact fueled_malformed
    | cons c rest =>
      rw [List.length_cons] at hfuel
      rw [stringLoop.eq_def]
      dsimp only
      split_ifs
      · exact fueled_ok _
      · cases rest with
        | nil => exact fueled_malformed
        | cons e rest =>
          rw [List.length_cons] at hfuel
          dsimp only
          split_ifs
          · split
            · exact fueled_malformed
            · next bytes t' hrun =>
              have := length_lt_of_unicodeEscape hrun
              exact ih _ (by omega)
          · split
            · exact fueled_malformed
            · exact ih _ (by omega)
      · exact fueled_malformed
      · exact ih _ (by omega)

lemma fueled_newStr (doc : JsonDoc) (s : List UInt8) : Fueled (newStr doc s) := by
  unfold newStr
  split_ifs
  · exact fueled_tooLarge
  · dsimp only
    split
    · exact nofun
    · exact fueled_ok _

lemma fueled_parseString (doc : JsonDoc) (rest : List UInt8) : Fueled (parseString doc rest) := by
  unfold parseString
  refine (fueled_stringLoop [] (Nat.lt_succ_self _)).bind fun p _ => ?_
  dsimp only
  split_ifs
  · exact fueled_tooLarge
  · exact (fueled_newStr _ _).bind fun _ _ => fueled_ok _

lemma fueled_parseKey (isObject : Bool) (doc : JsonDoc) (rest : List UInt8) :
    Fueled (parseKey isObject doc rest) := by
  unfold parseKey
  split_ifs
  · split
    · refine (fueled_parseString _ _).bind fun p _ => ?_
      dsimp only
      split
      · exact fueled_ok _
      · exact fueled_malformed
    · exact fueled_malformed
  · exact fueled_ok _

/-- Every pass through the children loop consumes bytes. -/
lemma fueled_itemLoop {isObject : Bool} {levels : ℕ} {parse : JsonDoc → List UInt8 → JsonRun Parsed}
    (hparse : SoundAt levels parse) (hfueled : ∀ doc rest, PoolOk doc → Fueled (parse doc rest))
    {fuel node : ℕ} {doc : JsonDoc} {rest : List UInt8} {tail : Option ℕ} (hpool : PoolOk doc)
    (htail : Tail doc node tail) (hfuel : rest.length < fuel) :
    Fueled (itemLoop isObject parse fuel node doc rest) := by
  induction fuel generalizing doc rest tail with
  | zero => omega
  | succ fuel ih =>
    rw [itemLoop]
    refine (fueled_parseKey _ _ _).bind fun p hkey => ?_
    obtain ⟨off, doc₀, u⟩ := p
    obtain ⟨key, hstored, hoff, hderives⟩ := keyStored_of_parseKey hpool hkey
    dsimp only
    refine (hfueled _ _ hstored.pool).bind fun p hval => ?_
    obtain ⟨val, doc₁, v⟩ := p
    obtain ⟨w, j, hws, hj, hbuilt⟩ := hparse hstored.pool hval
    obtain ⟨x, hx, -, hk⟩ := hderives w hws
    have hitem := hbuilt.item htail hstored.nodes hstored.strs_grow hstored.bytes hstored.hasKey hoff rfl
    have hafter := (ws_skipWs v).length_le
    have h1 := hx.length_le
    have h2 := hk.length_le
    have h3 := hj.length_lt
    dsimp only
    split
    · exact fueled_malformed
    · next c r hskip =>
      rw [hskip, List.length_cons] at hafter
      by_cases hcomma : c = 44
      · rw [if_pos hcomma]
        exact ih hitem.1.pool hitem.2 (by omega)
      · rw [if_neg hcomma]
        by_cases hclose : c = closing isObject
        · rw [if_pos hclose]
          exact fueled_ok _
        · rw [if_neg hclose]
          exact fueled_malformed

lemma fueled_parseContainer {isObject : Bool} {levels : ℕ}
    {parse : JsonDoc → List UInt8 → JsonRun Parsed} (hparse : SoundAt levels parse)
    (hfueled : ∀ doc rest, PoolOk doc → Fueled (parse doc rest)) {doc : JsonDoc} (rest : List UInt8)
    (hpool : PoolOk doc) : Fueled (parseContainer isObject parse doc rest) := by
  unfold parseContainer
  refine (fueled_newNode _ _).bind fun p hnew => ?_
  obtain ⟨hroom, hindex, hdoc⟩ := eq_of_newNode hnew
  dsimp only
  split_ifs
  · exact fueled_ok _
  · refine Fueled.bind ?_ fun q _ => fueled_ok _
    rw [hindex, hdoc]
    exact fueled_itemLoop hparse hfueled (hpool.addNode hroom _) (tail_addNode doc _)
      (Nat.lt_succ_self _)

lemma fueled_parseValue (levels : ℕ) (doc : JsonDoc) (rest : List UInt8) (hpool : PoolOk doc) :
    Fueled (parseValue levels doc rest) := by
  induction levels generalizing doc rest with
  | zero => exact fueled_tooLarge
  | succ levels ih =>
    have hliteral : ∀ t name type b, Fueled (parseLiteral doc t name type b) := by
      intro t name type b
      unfold parseLiteral
      split_ifs
      · exact (fueled_newNode _ _).bind fun _ _ => fueled_ok _
      · exact fueled_malformed
    rw [parseValue]
    split
    · exact fueled_malformed
    · split_ifs
      · exact fueled_parseContainer (soundAt_parseValue levels) ih _ hpool
      · exact fueled_parseContainer (soundAt_parseValue levels) ih _ hpool
      · exact (fueled_newNode _ _).bind fun _ _ =>
          (fueled_parseString _ _).bind fun _ _ => fueled_ok _
      · exact hliteral _ _ _ _
      · exact hliteral _ _ _ _
      · exact hliteral _ _ _ _
      · split
        · exact fueled_malformed
        · exact (fueled_newNode _ _).bind fun _ _ => fueled_ok _

/-- The fuel of the loops suffices. -/
lemma fueled_paiJsonParse (text : List UInt8) : Fueled (paiJsonParse text) := by
  unfold paiJsonParse
  refine (fueled_parseValue _ _ _ poolOk_empty).bind fun p _ => ?_
  dsimp only
  split_ifs
  · exact fueled_ok _
  · exact fueled_malformed

/-! ## Completeness -/

/-- What may follow a value does not extend a number. -/
lemma numberEnd_of_head {t : List UInt8} (h : ∀ c ∈ t.head?, isWs c ∨ c = 44 ∨ c = 93 ∨ c = 125) :
    NumberEnd t := by
  have hskip : ∀ c : UInt8, isWs c ∨ c = 44 ∨ c = 93 ∨ c = 125 →
      ¬ isDigit c ∧ c ≠ 46 ∧ ¬ (c = 101 ∨ c = 69) := by
    rintro c ((rfl | rfl | rfl | rfl) | rfl | rfl | rfl) <;> decide
  exact ⟨fun c hc => (hskip c (h c hc)).1, fun hdot => (hskip 46 (h 46 hdot)).2.1 rfl,
    fun c hc => (hskip c (h c hc)).2.2⟩

lemma numberEnd_of_ws {t r : List UInt8} {c : UInt8} (h : Ws t (c :: r))
    (hc : c = 44 ∨ c = 93 ∨ c = 125) : NumberEnd t := by
  refine numberEnd_of_head fun d hd => ?_
  cases h with
  | nil =>
    cases hd
    exact Or.inr hc
  | cons hws _ =>
    cases hd
    exact Or.inl hws

lemma numberEnd_of_ws_nil {t : List UInt8} (h : Ws t []) : NumberEnd t := by
  refine numberEnd_of_head fun d hd => ?_
  cases h with
  | nil => cases hd
  | cons hws _ =>
    cases hd
    exact Or.inl hws

/-- A document fits into the pool. -/
structure Fits (doc : JsonDoc) (nodes bytes : ℕ) : Prop where
  /-- Room for the nodes. -/
  nodes_le : doc.nodes.length + nodes ≤ paiJsonMaxNodes
  /-- Room for the strings. -/
  bytes_le : doc.strs.length + bytes ≤ 0x80000000

/-- The parser consumes a phrase. -/
def CompleteAt : (k : Phrase) → ℕ → List UInt8 → List UInt8 → k.Out → Prop
  | .value, n, t, r, j => ∀ {doc : JsonDoc} {rest : List UInt8}, PoolOk doc → Ws rest t →
      NumberEnd r → Fits doc j.nodes j.stringBytes →
      ∃ doc', parseValue n doc rest = .ok (doc.nodes.length, doc', r) ∧
        ValueBuilt doc doc' doc.nodes.length j
  | .items isObject, n, t, r, kids => ∀ {doc : JsonDoc} {rest : List UInt8} {node fuel : ℕ}
      {tail : Option ℕ}, PoolOk doc → Tail doc node tail → Ws rest t →
      (isObject = true → rest = t) → rest.length < fuel →
      Fits doc (nodesOfKids kids) (bytesOfKids kids) →
      ∃ doc', itemLoop isObject (parseValue n) fuel node doc rest = .ok (doc', r) ∧
        ItemsBuilt doc doc' node tail kids

lemma parseKey_quote (doc : JsonDoc) (rest : List UInt8) :
    parseKey true doc (34 :: rest) = (do
      let (idx, doc, rest) ← parseString doc rest
      match skipWs rest with
      | 58 :: rest => .ok (some idx, doc, rest)
      | _ => malformed) := rfl

lemma parseKey_of_key {isObject : Bool} {doc : JsonDoc} {rest t u : List UInt8}
    {key : Option (List UInt8)} (hpool : PoolOk doc) (hws : Ws rest t)
    (hrest : isObject = true → rest = t) (h : Key paiJsonMaxString isObject t u key)
    (hfits : doc.strs.length + keyBytes key ≤ 0x80000000) :
    ∃ off doc' v, parseKey isObject doc rest = .ok (off, doc', v) ∧ Ws v u ∧
      KeyStored doc doc' off key ∧ (isObject = false → off = none) := by
  cases h with
  | absent => exact ⟨none, doc, rest, rfl, hws, hpool.noKey, fun _ => rfl⟩
  | @present _ _ v _ _ hlit hbefore hafter =>
    obtain rfl := hrest rfl
    obtain ⟨rest, rfl⟩ : ∃ rest', rest = 34 :: rest' := by
      cases hlit with
      | mk _ _ => exact ⟨_, rfl⟩
    obtain ⟨doc', hrun, hstored⟩ := parseString_of_stringLit hpool hlit hfits
    refine ⟨_, doc', v, ?_, hafter, hstored.key, fun h => by cases h⟩
    have hcolon := skipWs_eq hbefore (noWs_cons (by decide))
    rw [parseKey_quote, hrun, ok_bind]
    dsimp only
    rw [hcolon]
    rfl

/-- One pass through the children loop consumes a child, with its key. -/
lemma itemLoop_item (fuel : ℕ) {isObject : Bool} {n : ℕ} {t u v : List UInt8} {key : Option (List UInt8)}
    {j : Json} (hkey : Key paiJsonMaxString isObject t u key) (hvalue : CompleteAt .value n u v j)
    {doc : JsonDoc} {rest : List UInt8} {node : ℕ} {tail : Option ℕ} (hpool : PoolOk doc)
    (htail : Tail doc node tail) (hws : Ws rest t) (hrest : isObject = true → rest = t)
    (hend : NumberEnd v)
    (hfits : Fits doc (nodesOfKid (key, j)) (bytesOfKid (key, j))) :
    ∃ doc', ItemsBuilt doc doc' node tail [(key, j)] ∧ Tail doc' node (some doc.nodes.length) ∧
      itemLoop isObject (parseValue n) (fuel + 1) node doc rest =
        match skipWs v with
        | [] => malformed
        | c :: rest =>
          if c = 44 then itemLoop isObject (parseValue n) fuel node doc' rest
          else if c = closing isObject then .ok (doc', rest)
          else malformed := by
  obtain ⟨hnodes, hbytes⟩ := hfits
  rw [nodesOfKid] at hnodes
  rw [bytesOfKid] at hbytes
  obtain ⟨off, doc₀, w, hkeyRun, hw, hstored, hoff⟩ :=
    parseKey_of_key hpool hws hrest hkey (by omega)
  obtain ⟨doc₁, hvalueRun, hbuilt⟩ := hvalue hstored.pool hw hend
    ⟨by rw [hstored.nodes]; exact hnodes, by rw [hstored.bytes]; omega⟩
  have hitem := hbuilt.item htail hstored.nodes hstored.strs_grow hstored.bytes hstored.hasKey hoff rfl
  rw [hstored.nodes] at hitem hvalueRun
  refine ⟨_, hitem.1, hitem.2, ?_⟩
  rw [itemLoop, hkeyRun, ok_bind]
  dsimp only
  rw [hvalueRun]
  exact ok_bind _ _

lemma closing_cases (isObject : Bool) : closing isObject = 93 ∨ closing isObject = 125 := by
  cases isObject
  · exact Or.inl rfl
  · exact Or.inr rfl

lemma parseValue_open {isObject : Bool} {levels : ℕ} {doc : JsonDoc} {rest t : List UInt8}
    (hws : Ws rest (opening isObject :: t)) :
    parseValue (levels + 1) doc rest = parseContainer isObject (parseValue levels) doc t := by
  have hskip := skipWs_eq hws (noWs_cons (by cases isObject <;> decide))
  rw [parseValue, hskip]
  cases isObject <;> rfl

lemma parseContainer_empty {isObject : Bool} {levels : ℕ} {doc : JsonDoc} {t r : List UInt8}
    (hws : Ws t (closing isObject :: r)) (hroom : doc.nodes.length < paiJsonMaxNodes) :
    parseContainer isObject (parseValue levels) doc t =
      .ok (doc.nodes.length, doc.addNode (JsonNode.blank (containerType isObject)), r) := by
  have hskip := skipWs_eq hws (noWs_cons (by cases isObject <;> decide))
  unfold parseContainer
  rw [newNode_eq _ hroom, ok_bind]
  dsimp only
  rw [hskip, if_pos List.head?_cons, List.tail_cons]

/-- The children of a container do not start with the closing bracket. -/
lemma items_head {d : Dialect} {n : ℕ} {isObject : Bool} {t r : List UInt8}
    {kids : List (Option (List UInt8) × Json)} (h : Derives d (.items isObject) n t r kids) :
    t.head? ≠ some (closing isObject) := by
  have hvalue : ∀ {t r : List UInt8} {j : Json}, Derives d .value n t r j → t.head? ≠ some 93 := by
    intro t r j h hhead
    cases h with
    | null | isTrue | isFalse => cases hhead
    | number h =>
      obtain ⟨c, u, rfl, hc⟩ := h.head
      cases hhead
      exact absurd hc (by decide)
    | string h =>
      cases h with
      | mk _ _ => cases hhead
    | @empty _ isObject _ _ _ => cases isObject <;> cases hhead
    | @container _ isObject _ _ _ _ _ _ => cases isObject <;> cases hhead
  have hkey : ∀ {u v : List UInt8} {key : Option (List UInt8)} {j : Json},
      Key d.maxString isObject t u key → Derives d .value n u v j →
      t.head? ≠ some (closing isObject) := by
    intro u v key j hkey hj
    cases hkey with
    | absent => exact hvalue hj
    | present hlit _ _ =>
      cases hlit with
      | mk _ _ => rintro ⟨⟩
  cases h with
  | last hk hj _ => exact hkey hk hj
  | more hk hj _ _ _ _ => exact hkey hk hj

lemma parseContainer_items {isObject : Bool} {levels : ℕ} {doc : JsonDoc} {t u r : List UInt8}
    {kids : List (Option (List UInt8) × Json)} (hpool : PoolOk doc) (hws : Ws t u)
    (hd : Derives tightDialect (.items isObject) levels u r kids)
    (hkids : CompleteAt (.items isObject) levels u r kids)
    (hfits : Fits doc (1 + nodesOfKids kids) (bytesOfKids kids)) :
    ∃ doc', parseContainer isObject (parseValue levels) doc t = .ok (doc.nodes.length, doc', r) ∧
      ValueBuilt doc doc' doc.nodes.length (.container isObject kids) := by
  obtain ⟨hnodes, hbytes⟩ := hfits
  have hroom : doc.nodes.length < paiJsonMaxNodes := by omega
  have hskip := skipWs_eq hws hd.noWs
  obtain ⟨doc', hrun, hbuilt⟩ := hkids (hpool.addNode hroom (JsonNode.blank (containerType isObject)))
    (tail_addNode doc _) .nil (fun _ => rfl) (Nat.lt_succ_self u.length)
    ⟨by rw [length_addNode]; omega, hbytes⟩
  refine ⟨doc', ?_, hbuilt.container⟩
  unfold parseContainer
  rw [newNode_eq _ hroom, ok_bind]
  dsimp only
  rw [hskip, if_neg (items_head hd), hrun, ok_bind]

/-- A literal name is consumed. -/
lemma literal_complete {levels : ℕ} {doc : JsonDoc} {rest name r : List UInt8} {type : JsonType}
    {b : Bool} {j : Json} (hpool : PoolOk doc) (hroom : doc.nodes.length < paiJsonMaxNodes)
    (hrun : parseValue (levels + 1) doc rest = parseLiteral doc (name ++ r) name type b)
    (hcount : j.nodes = 1) (hbytes : j.stringBytes = 0)
    (hvalue : ∀ doc : JsonDoc, ∀ i, HoldsValue doc { JsonNode.blank type with boolean := b } i j) :
    ∃ doc', parseValue (levels + 1) doc rest = .ok (doc.nodes.length, doc', r) ∧
      ValueBuilt doc doc' doc.nodes.length j :=
  ⟨_, hrun.trans (parseLiteral_eq_ok.mpr ⟨rfl, hroom, rfl, rfl⟩),
    hpool.leaf hroom hcount hbytes rfl rfl (hvalue _ _)⟩

/-- The first byte of a number starts no other value. -/
lemma number_head_ne {c : UInt8} (h : c = 45 ∨ isDigit c) :
    c ≠ 123 ∧ c ≠ 91 ∧ c ≠ 34 ∧ c ≠ 116 ∧ c ≠ 102 ∧ c ≠ 110 ∧ ¬ isWs c := by
  rcases h with rfl | h
  · decide
  · refine ⟨?_, ?_, ?_, ?_, ?_, ?_, not_isWs_of_digit h⟩
    all_goals
      rintro rfl
      exact absurd h (by decide)

/-- `parse_value` is complete. -/
lemma completeAt_of_derives {k : Phrase} {n : ℕ} {t r : List UInt8} {out : k.Out}
    (h : Derives tightDialect k n t r out) : CompleteAt k n t r out := by
  induction h with
  | @null n r =>
    intro doc rest hpool hws _ hfits
    have hrun : parseValue (n + 1) doc rest =
        parseLiteral doc ([110, 117, 108, 108] ++ r) [110, 117, 108, 108] .null false := by
      rw [parseValue, skipWs_eq hws (noWs_cons (by decide))]
      rfl
    exact literal_complete hpool hfits.nodes_le hrun rfl rfl fun _ _ => rfl
  | @isTrue n r =>
    intro doc rest hpool hws _ hfits
    have hrun : parseValue (n + 1) doc rest =
        parseLiteral doc ([116, 114, 117, 101] ++ r) [116, 114, 117, 101] .bool true := by
      rw [parseValue, skipWs_eq hws (noWs_cons (by decide))]
      rfl
    exact literal_complete hpool hfits.nodes_le hrun rfl rfl fun _ _ => ⟨rfl, rfl⟩
  | @isFalse n r =>
    intro doc rest hpool hws _ hfits
    have hrun : parseValue (n + 1) doc rest =
        parseLiteral doc ([102, 97, 108, 115, 101] ++ r) [102, 97, 108, 115, 101] .bool false := by
      rw [parseValue, skipWs_eq hws (noWs_cons (by decide))]
      rfl
    exact literal_complete hpool hfits.nodes_le hrun rfl rfl fun _ _ => ⟨rfl, rfl⟩
  | @number n t r h =>
    intro doc rest hpool hws hend hfits
    have hroom : doc.nodes.length < paiJsonMaxNodes := hfits.nodes_le
    obtain ⟨v, hrun⟩ := parseNumber_of_number h hend
    obtain ⟨c, u, rfl, hc⟩ := h.head
    obtain ⟨h1, h2, h3, h4, h5, h6, hnoWs⟩ := number_head_ne hc
    refine ⟨doc.addNode { JsonNode.blank .number with num := v }, ?_,
      hpool.leaf hroom rfl rfl rfl rfl rfl⟩
    rw [parseValue, skipWs_eq hws (noWs_cons hnoWs)]
    dsimp only
    rw [if_neg h1, if_neg h2, if_neg h3, if_neg h4, if_neg h5, if_neg h6, hrun]
    dsimp only
    rw [newNode_eq _ hroom, ok_bind]
    dsimp only
    rw [modify_addNode]
  | @string n t r s h =>
    intro doc rest hpool hws _ hfits
    have hroom : doc.nodes.length < paiJsonMaxNodes := hfits.nodes_le
    obtain ⟨u, rfl⟩ : ∃ u, t = 34 :: u := by
      cases h with
      | mk _ _ => exact ⟨_, rfl⟩
    obtain ⟨doc₁, hrun, hstored⟩ := parseString_of_stringLit (hpool.addNode hroom _) h hfits.bytes_le
    refine ⟨_, ?_, hstored.value⟩
    rw [parseValue, skipWs_eq hws (noWs_cons (by decide))]
    dsimp only
    rw [if_neg (by decide), if_neg (by decide), if_pos rfl, newNode_eq _ hroom, ok_bind]
    dsimp only
    rw [hrun, ok_bind]
    rfl
  | @empty n isObject t r h =>
    intro doc rest hpool hws _ hfits
    have hroom : doc.nodes.length < paiJsonMaxNodes := hfits.nodes_le
    refine ⟨_, ?_, hpool.emptyContainer hroom isObject⟩
    rw [parseValue_open hws, parseContainer_empty h hroom]
  | container hws' hd ih =>
    intro doc rest hpool hws _ hfits
    rw [Json.nodes, Json.stringBytes] at hfits
    rw [parseValue_open hws]
    exact parseContainer_items hpool hws' hd ih hfits
  | @last n isObject t u v r key j hkey hvalue hws' ih =>
    intro doc rest node fuel tail hpool htail hws hrest hfuel hfits
    rw [nodesOfKids, nodesOfKids, bytesOfKids, bytesOfKids] at hfits
    obtain ⟨fuel, rfl⟩ : ∃ f, fuel = f + 1 := ⟨fuel - 1, by omega⟩
    have hend := numberEnd_of_ws hws' (Or.inr (closing_cases isObject))
    obtain ⟨doc', hbuilt, -, hrun⟩ := itemLoop_item fuel hkey ih hpool htail hws hrest hend hfits
    refine ⟨doc', ?_, hbuilt⟩
    have hne : closing isObject ≠ 44 := by cases isObject <;> decide
    rw [hrun, skipWs_eq hws' (noWs_cons (by cases isObject <;> decide))]
    dsimp only
    rw [if_neg hne, if_pos rfl]
  | @more n isObject t u v w x r key j kids hkey hvalue hws' hnext hgap hd ih ih' =>
    intro doc rest node fuel tail hpool htail hws hrest hfuel hfits
    rw [nodesOfKids, bytesOfKids] at hfits
    obtain ⟨hnodes, hbytes⟩ := hfits
    obtain ⟨fuel, rfl⟩ : ∃ f, fuel = f + 1 := ⟨fuel - 1, by omega⟩
    have hend := numberEnd_of_ws hws' (Or.inl rfl)
    obtain ⟨doc₁, hbuilt, htail₁, hrun⟩ := itemLoop_item fuel hkey ih hpool htail hws hrest hend
      ⟨by omega, by omega⟩
    have hlen : w.length < fuel := by
      have h1 := hws.length_le
      have h2 := hkey.length_le
      have h3 := hvalue.length_lt
      have h4 := hws'.length_le
      rw [List.length_cons] at h4
      omega
    have hxw : isObject = true → w = x := by
      rintro rfl
      rcases hgap with hgap | hgap | hgap
      · cases hgap
      · cases hgap
      · exact hgap.symm
    obtain ⟨doc', hrun', hmore⟩ := ih' hbuilt.pool htail₁ hnext hxw hlen
      ⟨by rw [hbuilt.count, nodesOfKids, nodesOfKids]; omega,
        by rw [hbuilt.bytes, bytesOfKids, bytesOfKids]; omega⟩
    refine ⟨doc', ?_, hbuilt.cons hmore⟩
    rw [hrun, skipWs_eq hws' (noWs_cons (by decide))]
    dsimp only
    rw [if_pos rfl, hrun']

/-! ## Texts -/

/-- The text is a JSON text within the limits, and denotes `j`. -/
def IsJson (text : List UInt8) (j : Json) : Prop :=
  Text rfcDialect (paiJsonMaxDepth + 1) text j ∧ j.nodes ≤ paiJsonMaxNodes

/-- The text is a JSON text within the limits in which no whitespace stands between a comma of an object
and the next key, and whose strings fit into `2^31` bytes. -/
def IsTightJson (text : List UInt8) (j : Json) : Prop :=
  Text tightDialect (paiJsonMaxDepth + 1) text j ∧ j.nodes ≤ paiJsonMaxNodes ∧
    j.stringBytes ≤ 0x80000000

/-- The parser accepts the text exactly when it is a JSON text, and then builds its document. -/
def ParsesExactly (text : List UInt8) : Prop :=
  ((∃ doc, paiJsonParse text = .ok doc) ↔ ∃ j, IsJson text j) ∧
    ∀ doc, paiJsonParse text = .ok doc → ∃ j, IsJson text j ∧ Represents doc j

/-- A derivation without gaps is a derivation. -/
lemma rfc_of_tight {k : Phrase} {n : ℕ} {t r : List UInt8} {out : k.Out}
    (h : Derives tightDialect k n t r out) : Derives rfcDialect k n t r out := by
  induction h with
  | null => exact .null
  | isTrue => exact .isTrue
  | isFalse => exact .isFalse
  | number h => exact .number h
  | string h => exact .string h
  | empty h => exact .empty h
  | container hws _ ih => exact .container hws ih
  | last hkey _ hws ih => exact .last hkey ih hws
  | more hkey _ hws hnext _ _ ih ih' => exact .more hkey ih hws hnext (Or.inl rfl) ih'

lemma IsTightJson.isJson {text : List UInt8} {j : Json} (h : IsTightJson text j) : IsJson text j := by
  obtain ⟨⟨t, u, hws, hd, hend⟩, hnodes, -⟩ := h
  exact ⟨⟨t, u, hws, rfc_of_tight hd, hend⟩, hnodes⟩

lemma skipWs_eq_nil_iff (t : List UInt8) : skipWs t = [] ↔ Ws t [] := by
  constructor
  · intro h
    have hws := ws_skipWs t
    rwa [h] at hws
  · exact fun h => skipWs_eq h fun c hc => by cases hc

/-- What `pai_json_parse` accepts is a tight JSON text, and it builds the document of the text. -/
lemma isTightJson_of_paiJsonParse {text : List UInt8} {doc : JsonDoc} (h : paiJsonParse text = .ok doc) :
    ∃ j, IsTightJson text j ∧ Represents doc j ∧ PoolOk doc := by
  unfold paiJsonParse at h
  obtain ⟨⟨root, doc₀, rest⟩, hrun, h⟩ := bind_eq_ok h
  obtain ⟨t, j, hws, hd, hbuilt⟩ := soundAt_parseValue _ poolOk_empty hrun
  dsimp only at h
  by_cases hend : skipWs rest = []
  · rw [if_pos hend] at h
    cases h
    have hcount := hbuilt.count
    have hbytes := hbuilt.bytes
    rw [show emptyDoc.nodes.length = 0 from rfl, Nat.zero_add] at hcount
    rw [show emptyDoc.strs.length = 0 from rfl, Nat.zero_add] at hbytes
    obtain ⟨n, hn, -, -, hvalue⟩ := hbuilt.value
    refine ⟨j, ⟨⟨t, rest, hws, hd, (skipWs_eq_nil_iff rest).mp hend⟩, ?_, ?_⟩,
      ⟨root, n, rfl, by rw [hbuilt.index]; exact hn, ?_⟩, ⟨hbuilt.pool.nodes_le,
        hbuilt.pool.arena_le, hbuilt.pool.cap⟩⟩
    · rw [← hcount]
      exact hbuilt.pool.nodes_le
    · rw [← hbytes]
      exact hbuilt.pool.arena_le
    · rw [hbuilt.index]
      exact hvalue.frame (fun _ _ _ => rfl) (List.prefix_refl _)
  · rw [if_neg hend] at h
    cases h

/-- `pai_json_parse` accepts the tight JSON texts. -/
lemma IsTightJson.parses {text : List UInt8} {j : Json} (h : IsTightJson text j) :
    ∃ doc, paiJsonParse text = .ok doc ∧ Represents doc j := by
  obtain ⟨⟨t, u, hws, hd, hend⟩, hnodes, hbytes⟩ := h
  obtain ⟨doc, hrun, hbuilt⟩ := completeAt_of_derives hd poolOk_empty hws (numberEnd_of_ws_nil hend)
    ⟨by rw [show emptyDoc.nodes.length = 0 from rfl, Nat.zero_add]; exact hnodes,
      by rw [show emptyDoc.strs.length = 0 from rfl, Nat.zero_add]; exact hbytes⟩
  obtain ⟨n, hn, -, -, hvalue⟩ := hbuilt.value
  refine ⟨{ doc with root := some emptyDoc.nodes.length }, ?_, emptyDoc.nodes.length, n, rfl, hn,
    hvalue.frame (fun _ _ _ => rfl) (List.prefix_refl _)⟩
  rw [paiJsonParse, hrun, ok_bind]
  dsimp only
  rw [if_pos ((skipWs_eq_nil_iff u).mpr hend)]

/-- The text of an object with the members `a` and `b`, both `true`, and a blank behind its comma. -/
def spacedObject : List UInt8 :=
  [123, 34, 97, 34, 58, 116, 114, 117, 101, 44, 32, 34, 98, 34, 58, 116, 114, 117, 101, 125]

end Prospero
