import Prospero.Status
import Prospero.Lib.Rfc8259
import Prospero.Lib.Buffer

/-!
# JSON documents

The parser of `gateway/json.c`: a recursive-descent parser that fills a pool of nodes, linked by first
child and next sibling, and an arena of strings.

The cursor into the text is the list of the bytes that are left; the sums `*pos + 4`, `*pos + 5` and
`*pos + 6` of the source, which wrap in texts of nearly `2^32` bytes only, are exact.  Allocation
succeeds, but the capacity of the arena is a 32-bit number that is doubled until it suffices: a loop that
does not end is the outcome `JsonStop.hang`.  The buffer `parse_string` decodes into is the list of its
bytes.  The loops of the parser have fuel; running out of it is the outcome `JsonStop.outOfFuel`, which
`paiJsonParse` never has (`fueled_paiJsonParse`).
-/

namespace Prospero

open Buffer

/-- `PAI_JSON_MAX_DEPTH`. -/
abbrev paiJsonMaxDepth : ℕ := 32
/-- `PAI_JSON_MAX_NODES`. -/
abbrev paiJsonMaxNodes : ℕ := 8192
/-- `PAI_JSON_MAX_STRING`. -/
abbrev paiJsonMaxString : ℕ := 0x100000

/-- `pai_json_type_t`. -/
inductive JsonType where
  | null
  | bool
  | number
  | string
  | array
  | object
deriving DecidableEq

/-- `struct pai_json_node`; `none` stands for the index `-1`. -/
structure JsonNode where
  /-- Type of the value. -/
  type : JsonType
  /-- Arena offset of the member key. -/
  key : Option ℕ
  /-- Arena offset of the string. -/
  str : Option ℕ
  /-- Number. -/
  num : Float
  /-- Boolean. -/
  boolean : Bool
  /-- First child. -/
  firstChild : Option ℕ
  /-- Next sibling. -/
  next : Option ℕ

/-- A node of a type, as `new_node` leaves it. -/
def JsonNode.blank (type : JsonType) : JsonNode := ⟨type, none, none, 0, false, none, none⟩

/-- `pai_json_doc_t`; the counts are the lengths of the lists. -/
structure JsonDoc where
  /-- Node pool. -/
  nodes : List JsonNode
  /-- String arena. -/
  strs : List UInt8
  /-- Capacity of the arena. -/
  strCap : ℕ
  /-- Root node. -/
  root : Option ℕ

/-- Why the parser stops without a document. -/
inductive JsonStop where
  /-- A status is returned. -/
  | status (st : PaiStatus)
  /-- A loop does not end. -/
  | hang
  /-- The fuel ran out. -/
  | outOfFuel
deriving DecidableEq

/-- A computation of the parser. -/
abbrev JsonRun := Except JsonStop

/-- `PAI_ERR_PROTOCOL` is returned. -/
def malformed {α : Type} : JsonRun α := .error (.status paiErrProtocol)

/-- `PAI_ERR_NOMEM` is returned. -/
def tooLarge {α : Type} : JsonRun α := .error (.status paiErrNomem)

/-! ## Pools -/

/-- The loop that doubles a 32-bit capacity until `need` fits; `none` when it does not end: 32 doublings
leave zero. -/
def doubleCap : ℕ → ℕ → ℕ → Option ℕ
  | 0, _, _ => none
  | fuel + 1, ncap, need =>
    if ncap < need then doubleCap fuel (ncap * 2 % 0x100000000) need else some ncap

/-- The capacity of a growing buffer that needs `need` bytes; it starts with the capacity `first`. -/
def growTo (first cap need : ℕ) : Option ℕ :=
  if cap < need then doubleCap 40 (if cap = 0 then first else cap) need else some cap

/-- The pool with one node more. -/
def JsonDoc.addNode (doc : JsonDoc) (n : JsonNode) : JsonDoc := { doc with nodes := doc.nodes ++ [n] }

/-- `new_node`. -/
def newNode (doc : JsonDoc) (type : JsonType) : JsonRun (ℕ × JsonDoc) :=
  if paiJsonMaxNodes ≤ doc.nodes.length then tooLarge
  else .ok (doc.nodes.length, doc.addNode (JsonNode.blank type))

/-- `new_str`. -/
def newStr (doc : JsonDoc) (s : List UInt8) : JsonRun (ℕ × JsonDoc) :=
  if paiJsonMaxString < s.length then tooLarge
  else
    let need := s.length + 1
    let used := doc.strs.length
    match growTo 1024 doc.strCap (used + need) with
    | none => .error .hang
    | some cap => .ok (used, { doc with
        strs := doc.strs ++ (s ++ [0])
        strCap := cap })

/-- The node with an index, changed. -/
def JsonDoc.modify (doc : JsonDoc) (i : ℕ) (f : JsonNode → JsonNode) : JsonDoc :=
  { doc with nodes := doc.nodes.modify i f }

/-- The walk of `append_child` to the last sibling. -/
def lastSibling (doc : JsonDoc) : ℕ → ℕ → ℕ
  | 0, i => i
  | fuel + 1, i =>
    match (doc.nodes[i]?).bind JsonNode.next with
    | some next => lastSibling doc fuel next
    | none => i

/-- `append_child`. -/
def appendChild (doc : JsonDoc) (parent child : ℕ) : JsonDoc :=
  match (doc.nodes[parent]?).bind JsonNode.firstChild with
  | none => doc.modify parent fun n => { n with firstChild := some child }
  | some first =>
    doc.modify (lastSibling doc doc.nodes.length first) fun n => { n with next := some child }

/-! ## Strings -/

/-- `is_ws`. -/
def isJsonWs (c : UInt8) : Bool := c = 32 || c = 9 || c = 10 || c = 13

/-- `skip_ws`. -/
def skipWs (rest : List UInt8) : List UInt8 := rest.dropWhile isJsonWs

/-- `hex_val`. -/
def hexVal (c : UInt8) : Option ℕ :=
  if 48 ≤ c ∧ c ≤ 57 then some (c.toNat - 48)
  else if 97 ≤ c ∧ c ≤ 102 then some (c.toNat - 97 + 10)
  else if 65 ≤ c ∧ c ≤ 70 then some (c.toNat - 65 + 10)
  else none

/-- `utf8_encode`. -/
def utf8Encode (u : ℕ) : List UInt8 :=
  if u < 0x80 then [UInt8.ofNat u]
  else if u < 0x800 then [UInt8.ofNat (0xC0 ||| u >>> 6), UInt8.ofNat (0x80 ||| u &&& 0x3F)]
  else if u < 0x10000 then
    [UInt8.ofNat (0xE0 ||| u >>> 12), UInt8.ofNat (0x80 ||| u >>> 6 &&& 0x3F),
      UInt8.ofNat (0x80 ||| u &&& 0x3F)]
  else
    [UInt8.ofNat (0xF0 ||| u >>> 18), UInt8.ofNat (0x80 ||| u >>> 12 &&& 0x3F),
      UInt8.ofNat (0x80 ||| u >>> 6 &&& 0x3F), UInt8.ofNat (0x80 ||| u &&& 0x3F)]

/-- Four hexadecimal digits, and the bytes behind them. -/
def hex4 : List UInt8 → Option (ℕ × List UInt8)
  | a :: b :: c :: d :: rest => do
    let p ← hexVal a
    let q ← hexVal b
    let v ← hexVal c
    let w ← hexVal d
    some (((p * 16 + q) * 16 + v) * 16 + w, rest)
  | _ => none

/-- The low surrogate that follows, and the bytes behind it. -/
def lowSurrogate : List UInt8 → Option (ℕ × List UInt8)
  | 92 :: 117 :: rest =>
    match hex4 rest with
    | some (lo, rest) => if 0xDC00 ≤ lo ∧ lo ≤ 0xDFFF then some (lo, rest) else none
    | none => none
  | _ => none

/-- The bytes of a `\u` escape whose digits follow, and the bytes behind it. -/
def unicodeEscape (rest : List UInt8) : Option (List UInt8 × List UInt8) :=
  match hex4 rest with
  | none => none
  | some (cp, rest) =>
    if 0xD800 ≤ cp ∧ cp ≤ 0xDBFF then
      match lowSurrogate rest with
      | some (lo, rest) => some (utf8Encode (0x10000 + (cp - 0xD800) <<< 10 + (lo - 0xDC00)), rest)
      | none => some (utf8Encode 0xFFFD, rest)
    else if 0xDC00 ≤ cp ∧ cp ≤ 0xDFFF then some (utf8Encode 0xFFFD, rest)
    else some (utf8Encode cp, rest)

/-- The character that a simple escape stands for. -/
def escapeByte (c : UInt8) : Option UInt8 :=
  match c.toNat with
  | 34 | 92 | 47 => some c
  | 98 => some 8
  | 102 => some 12
  | 110 => some 10
  | 114 => some 13
  | 116 => some 9
  | _ => none

/-- The loop of `parse_string`: the decoded bytes, and the bytes behind the closing quote; `out` has
the bytes decoded so far. -/
def stringLoop : ℕ → List UInt8 → List UInt8 → JsonRun (List UInt8 × List UInt8)
  | 0, _, _ => .error .outOfFuel
  | _ + 1, [], _ => malformed
  | fuel + 1, c :: rest, out =>
    if c = 34 then .ok (out, rest)
    else if c = 92 then
      match rest with
      | [] => malformed
      | e :: rest =>
        if e = 117 then
          match unicodeEscape rest with
          | none => malformed
          | some (bytes, rest) => stringLoop fuel rest (out ++ bytes)
        else
          match escapeByte e with
          | none => malformed
          | some b => stringLoop fuel rest (out ++ [b])
    else if c < 32 then malformed
    else stringLoop fuel rest (out ++ [c])

/-- `parse_string`, behind the opening quote: the arena offset of the string. -/
def parseString (doc : JsonDoc) (rest : List UInt8) : JsonRun (ℕ × JsonDoc × List UInt8) := do
  let (s, rest) ← stringLoop (rest.length + 1) rest []
  if paiJsonMaxString < s.length then tooLarge
  else do
    let (idx, doc) ← newStr doc s
    .ok (idx, doc, rest)

/-! ## Numbers -/

/-- A decimal digit. -/
def isJsonDigit (c : UInt8) : Bool := 48 ≤ c && c ≤ 57

/-- The value of a digit. -/
def digitValue (c : UInt8) : Float := Float.ofNat (c.toNat - 48)

/-- The exponent loop: the exponent, exact as it is at most `3009`, and the bytes behind it. -/
def expLoop : ℕ → List UInt8 → Option (ℕ × List UInt8)
  | exp, [] => some (exp, [])
  | exp, c :: rest =>
    if isJsonDigit c then
      let exp := exp * 10 + (c.toNat - 48)
      if 300 < exp then none else expLoop exp rest
    else some (exp, c :: rest)

/-- The integer part: its value, and the bytes behind it. -/
def parseInt : List UInt8 → Option (Float × List UInt8)
  | [] => none
  | c :: rest =>
    if c = 48 then some (0, rest)
    else if 49 ≤ c ∧ c ≤ 57 then
      some ((c :: rest.takeWhile isJsonDigit).foldl (fun v c => v * 10 + digitValue c) 0,
        rest.dropWhile isJsonDigit)
    else none

/-- The fraction. -/
def parseFrac (v : Float) : List UInt8 → Option (Float × List UInt8)
  | 46 :: rest =>
    if (rest.head?.map isJsonDigit).getD false then
      some (((rest.takeWhile isJsonDigit).foldl
        (fun vf c => (vf.1 + digitValue c * vf.2, vf.2 * 0.1)) (v, 0.1)).1,
        rest.dropWhile isJsonDigit)
    else none
  | rest => some (v, rest)

/-- The sign of an exponent: whether it is negative, and the bytes behind it. -/
def parseExpSign : List UInt8 → Bool × List UInt8
  | [] => (false, [])
  | c :: rest => if c = 43 ∨ c = 45 then (c = 45, rest) else (false, c :: rest)

/-- The exponent. -/
def parseExp (v : Float) : List UInt8 → Option (Float × List UInt8)
  | [] => some (v, [])
  | e :: rest =>
    if e = 101 ∨ e = 69 then
      let (neg, rest) := parseExpSign rest
      if (rest.head?.map isJsonDigit).getD false then
        match expLoop 0 rest with
        | none => none
        | some (exp, rest) =>
          some (if exp = 0 then v
            else v * Float.pow 10 (if neg then -Float.ofNat exp else Float.ofNat exp), rest)
      else none
    else some (v, e :: rest)

/-- `parse_number`: the number, and the bytes behind it. -/
def parseNumber (rest : List UInt8) : Option (Float × List UInt8) := do
  let neg := rest.head? = some 45
  let (v, rest) ← parseInt (if neg then rest.tail else rest)
  let (v, rest) ← parseFrac v rest
  let (v, rest) ← parseExp v rest
  some (if neg then -v else v, rest)

/-! ## Values -/

/-- A value that was parsed: its node, the document, and the bytes behind the value. -/
abbrev Parsed := ℕ × JsonDoc × List UInt8

/-- The key of a member and its colon; nothing in an array. -/
def parseKey (isObject : Bool) (doc : JsonDoc) (rest : List UInt8) :
    JsonRun (Option ℕ × JsonDoc × List UInt8) :=
  if isObject then
    match rest with
    | 34 :: rest => do
      let (idx, doc, rest) ← parseString doc rest
      match skipWs rest with
      | 58 :: rest => .ok (some idx, doc, rest)
      | _ => malformed
    | _ => malformed
  else .ok (none, doc, rest)

/-- The children loop of a container; `parse` parses a child. -/
def itemLoop (isObject : Bool) (parse : JsonDoc → List UInt8 → JsonRun Parsed) :
    ℕ → ℕ → JsonDoc → List UInt8 → JsonRun (JsonDoc × List UInt8)
  | 0, _, _, _ => .error .outOfFuel
  | fuel + 1, node, doc, rest => do
    let (key, doc, rest) ← parseKey isObject doc rest
    let (val, doc, rest) ← parse doc rest
    let doc := if isObject then doc.modify val fun n => { n with key := key } else doc
    let doc := appendChild doc node val
    match skipWs rest with
    | [] => malformed
    | c :: rest =>
      -- behind the comma of an object the next key is expected at once
      if c = 44 then itemLoop isObject parse fuel node doc rest
      else if c = Rfc8259.closing isObject then .ok (doc, rest)
      else malformed

/-- The type of a container. -/
def containerType (isObject : Bool) : JsonType := if isObject then .object else .array

/-- A container behind its opening bracket. -/
def parseContainer (isObject : Bool) (parse : JsonDoc → List UInt8 → JsonRun Parsed) (doc : JsonDoc)
    (rest : List UInt8) : JsonRun Parsed := do
  let (node, doc) ← newNode doc (containerType isObject)
  let rest := skipWs rest
  if rest.head? = some (Rfc8259.closing isObject) then .ok (node, doc, rest.tail)
  else do
    let (doc, rest) ← itemLoop isObject parse (rest.length + 1) node doc rest
    .ok (node, doc, rest)

/-- A literal name and what it leaves in its node. -/
def parseLiteral (doc : JsonDoc) (rest name : List UInt8) (type : JsonType) (boolean : Bool) :
    JsonRun Parsed :=
  if rest.take name.length = name then do
    let (node, doc) ← newNode doc type
    .ok (node, doc.modify node fun n => { n with boolean := boolean }, rest.drop name.length)
  else malformed

/-- `parse_value` with room for `levels` values inside one another. -/
def parseValue : ℕ → JsonDoc → List UInt8 → JsonRun Parsed
  | 0, _, _ => tooLarge
  | levels + 1, doc, rest =>
    match skipWs rest with
    | [] => malformed
    | c :: rest =>
      if c = 123 then parseContainer true (parseValue levels) doc rest
      else if c = 91 then parseContainer false (parseValue levels) doc rest
      else if c = 34 then do
        let (node, doc) ← newNode doc .string
        let (idx, doc, rest) ← parseString doc rest
        .ok (node, doc.modify node fun n => { n with str := some idx }, rest)
      else if c = 116 then parseLiteral doc (c :: rest) [116, 114, 117, 101] .bool true
      else if c = 102 then parseLiteral doc (c :: rest) [102, 97, 108, 115, 101] .bool false
      else if c = 110 then parseLiteral doc (c :: rest) [110, 117, 108, 108] .null false
      else
        match parseNumber (c :: rest) with
        | none => malformed
        | some (v, rest) => do
          let (node, doc) ← newNode doc .number
          .ok (node, doc.modify node fun n => { n with num := v }, rest)

/-- The document before parsing. -/
def emptyDoc : JsonDoc := ⟨[], [], 0, none⟩

/-- `pai_json_parse`. -/
def paiJsonParse (text : List UInt8) : JsonRun JsonDoc := do
  let (root, doc, rest) ← parseValue (paiJsonMaxDepth + 1) emptyDoc text
  if skipWs rest = [] then .ok { doc with root := some root } else malformed

end Prospero
