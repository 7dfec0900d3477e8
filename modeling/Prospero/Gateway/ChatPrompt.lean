import Prospero.Lib.Buffer
import Prospero.Gateway.JsonWriter

/-!
# The prompt of a chat request

`chat_prompt` of `gateway/gateway.c`: the lines `role: content` of the messages, written into a buffer of
fixed capacity with `snprintf`, and the walks over the children of a node that it uses.

`chatText` is the text of a list of messages.  The check before a line counts one byte too few, so the
code returns a text exactly when it fits without its terminator (`chatLoop_spec`): a text as long as the
buffer loses its last byte.

### Outline

* the accessors, `snprintf` and the loop of `chat_prompt`;
* `chatText`, and what the accessors find in a pool that holds the messages;
* `chatStep_spec`, one line, and from it the loop;
* `chatPrompt_assembles_iff`, and a message of eight bytes for a buffer of eight.
-/

namespace Prospero

open Rfc8259 Buffer

/-! ## Accessors -/

/-- The children from a link on; the fuel is the number of nodes. -/
def siblings (doc : JsonDoc) : ℕ → Option ℕ → List ℕ
  | 0, _ => []
  | _ + 1, none => []
  | fuel + 1, some child => child :: siblings doc fuel ((doc.nodes[child]?).bind JsonNode.next)

/-- The children that `pai_json_member`, `pai_json_array_len` and `pai_json_array_at` walk over, for a node
of the type they ask for. -/
def childrenOf (doc : JsonDoc) (type : JsonType) (node : ℕ) : Option (List ℕ) :=
  match doc.nodes[node]? with
  | some n => if n.type = type then some (siblings doc doc.nodes.length n.firstChild) else none
  | none => none

/-- `strcmp` of the key of a node and a key. -/
def hasKeyText (doc : JsonDoc) (key : List UInt8) (child : ℕ) : Bool :=
  match (doc.nodes[child]?).bind JsonNode.key with
  | some off => strAt doc.strs off = key
  | none => false

/-- `pai_json_member`. -/
def paiJsonMember (doc : JsonDoc) (obj : ℕ) (key : List UInt8) : Option ℕ :=
  (childrenOf doc .object obj).bind fun children => children.find? (hasKeyText doc key)

/-- `pai_json_array_len`. -/
def paiJsonArrayLen (doc : JsonDoc) (arr : ℕ) : Option ℕ :=
  (childrenOf doc .array arr).map List.length

/-- `pai_json_array_at`. -/
def paiJsonArrayAt (doc : JsonDoc) (arr i : ℕ) : Option ℕ :=
  (childrenOf doc .array arr).bind fun children => children[i]?

/-- `pai_json_str_member`. -/
def paiJsonStrMember (doc : JsonDoc) (obj : ℕ) (key : List UInt8) : Option (List UInt8) :=
  (paiJsonMember doc obj key).bind (paiJsonStr doc)

/-! ## The prompt -/

/-- How `chat_prompt` ends without a prompt. -/
inductive ChatStop where
  /-- It returns `-1`. -/
  | refused
  /-- It writes outside the buffer. -/
  | outside
deriving DecidableEq

/-- The buffer with some bytes stored. -/
def storeAt (out : List UInt8) (pos : ℕ) (bytes : List UInt8) : Except ChatStop (List UInt8) :=
  if pos + bytes.length ≤ out.length then .ok (overwrite out pos bytes) else .error .outside

/-- What `snprintf` stores of a text in a room: as much as leaves a byte for the terminator. -/
def snprintfBytes (room : ℕ) (text : List UInt8) : List UInt8 :=
  if room = 0 then [] else text.take (room - 1) ++ [0]

/-- What `snprintf` returns, read as an unsigned number: a text that does not fit an `int` is an error. -/
def snprintfLength (text : List UInt8) : ℕ :=
  if text.length < 0x80000000 then text.length else 0xFFFFFFFF

/-- `cap - used`, in 32 bits. -/
def roomLeft (cap used : ℕ) : ℕ := (cap + 0x100000000 - used) % 0x100000000

/-- `"role"` -/
def roleKey : List UInt8 := [114, 111, 108, 101]

/-- `"content"` -/
def contentKey : List UInt8 := [99, 111, 110, 116, 101, 110, 116]

/-- `"user"` -/
def userRole : List UInt8 := [117, 115, 101, 114]

/-- `"%s: %s"` -/
def roleLine (role content : List UInt8) : List UInt8 := role ++ (58 :: 32 :: content)

/-- The role and the content of a message. -/
def readMessage (doc : JsonDoc) (msg : ℕ) : Option (List UInt8 × List UInt8) :=
  if paiJsonType doc msg ≠ .object then none
  else
    let role := (paiJsonStrMember doc msg roleKey).getD userRole
    match paiJsonStrMember doc msg contentKey with
    | some content => some (role, content)
    | none =>
      match paiJsonMember doc msg contentKey with
      | some cm => if paiJsonType doc cm ≠ .string then none else some (role, [])
      | none => some (role, [])

/-- One line: the check, the newline in front of all lines but the first, and the text. -/
def putLine (cap used : ℕ) (out role content : List UInt8) : Except ChatStop (ℕ × List UInt8) :=
  let need := (role.length + content.length + if used ≠ 0 then 2 else 1) % 0x100000000
  if cap ≤ (used + need) % 0x100000000 then .error .refused
  else
    (if used ≠ 0 then (storeAt out used [10]).map fun out => ((used + 1) % 0x100000000, out)
      else .ok (used, out)).bind fun (used, out) =>
    (storeAt out used (snprintfBytes (roomLeft cap used) (roleLine role content))).map fun out =>
    ((used + snprintfLength (roleLine role content)) % 0x100000000, out)

/-- The loop body of `chat_prompt`; the state is `used` and the buffer. -/
def chatStep (doc : JsonDoc) (messages cap : ℕ) (state : ℕ × List UInt8) (i : ℕ) :
    Except ChatStop (ℕ × List UInt8) :=
  match (paiJsonArrayAt doc messages i).bind (readMessage doc) with
  | none => .error .refused
  | some (role, content) => putLine cap state.1 state.2 role content

/-- `chat_prompt`; the capacity is the length of the buffer, and the result is the buffer when the code
returns zero. -/
def chatPrompt (doc : JsonDoc) (messages : ℕ) (out : List UInt8) : Except ChatStop (List UInt8) :=
  (storeAt out 0 [0]).bind fun out₀ =>
  match paiJsonArrayLen doc messages with
  | none => .error .refused
  | some 0 => .error .refused
  | some n =>
    ((List.range n).foldlM (chatStep doc messages out.length) (0, out₀)).map Prod.snd

/-! ## The text of a list of messages -/

/-- The value of the first member with a key; a key ends at its first zero byte, as C strings do. -/
def memberOf (key : List UInt8) (members : List (Option (List UInt8) × Json)) : Option Json :=
  (members.find? fun member => member.1.map (·.takeWhile (· ≠ 0)) = some key).map Prod.snd

/-- The string of a member, or a default. -/
def stringMember (key default : List UInt8) (members : List (Option (List UInt8) × Json)) : List UInt8 :=
  match memberOf key members with
  | some (.string s) => s
  | _ => default

/-- The line of a message. -/
def messageLine : Json → List UInt8
  | .container true members =>
    roleLine (stringMember roleKey userRole members) (stringMember contentKey [] members)
  | _ => []

/-- The lines of the messages, joined by newlines. -/
def chatText (msgs : List (Option (List UInt8) × Json)) : List UInt8 :=
  List.intercalate [10] (msgs.map fun msg => messageLine msg.2)

/-- A member that is present is a string without zero bytes. -/
def PlainMember (key : List UInt8) (members : List (Option (List UInt8) × Json)) : Prop :=
  ∀ v, memberOf key members = some v → ∃ s, v = .string s ∧ 0 ∉ s

/-- An object whose role and content are strings. -/
def IsMessage (v : Json) : Prop :=
  ∃ members, v = .container true members ∧ PlainMember roleKey members ∧ PlainMember contentKey members

/-- The pool holds an array of messages at a node, within the limits of the parser. -/
structure MessagesIn (doc : JsonDoc) (node : ℕ) (msgs : List (Option (List UInt8) × Json)) : Prop where
  /-- Limit on the nodes. -/
  nodes_le : nodesOfKids msgs ≤ paiJsonMaxNodes
  /-- Limit on the strings. -/
  bytes_le : bytesOfKids msgs ≤ 0x80000000
  /-- The array. -/
  held : ∃ n, doc.nodes[node]? = some n ∧ HoldsValue doc n node (.container false msgs)
  /-- Its elements. -/
  messages : ∀ msg ∈ msgs, IsMessage msg.2

/-- What is promised of the result: the buffer is the text and its terminator when both fit, and no byte
outside the buffer is written. -/
structure Assembles (cap : ℕ) (text : List UInt8) (result : Except ChatStop (List UInt8)) : Prop where
  /-- No write outside. -/
  inside : result ≠ .error .outside
  /-- When zero is returned. -/
  returns_iff : (∃ out, result = .ok out) ↔ text.length + 1 ≤ cap
  /-- The text. -/
  text_eq : ∀ out, result = .ok out → out.length = cap ∧ out.take (text.length + 1) = text ++ [0]

/-! ## What the accessors find -/

/-- The indices of the nodes of some children that start at an index. -/
def kidIndices : ℕ → List (Option (List UInt8) × Json) → List ℕ
  | _, [] => []
  | i, kid :: kids => i :: kidIndices (i + nodesOfKid kid) kids

/-- The pool holds a value at an index. -/
def HeldAt (doc : JsonDoc) (k : ℕ) (v : Json) : Prop :=
  ∃ n, doc.nodes[k]? = some n ∧ HoldsValue doc n k v

/-- The pool holds a child, with its key, at an index. -/
def KidAt (doc : JsonDoc) (k : ℕ) (kid : Option (List UInt8) × Json) : Prop :=
  ∃ n, doc.nodes[k]? = some n ∧ HasKey doc.strs n.key kid.1 ∧ HoldsValue doc n k kid.2

lemma KidAt.heldAt {doc : JsonDoc} {k : ℕ} {kid : Option (List UInt8) × Json} (h : KidAt doc k kid) :
    HeldAt doc k kid.2 := by
  obtain ⟨n, hn, -, hv⟩ := h
  exact ⟨n, hn, hv⟩

/-- The walk meets the children in order. -/
lemma siblings_eq {doc : JsonDoc} {kids : List (Option (List UInt8) × Json)} {fuel i : ℕ}
    (h : HoldsKids doc i kids) (hfuel : doc.nodes.length ≤ fuel + i) :
    siblings doc fuel (linkTo i kids) = kidIndices i kids := by
  induction kids generalizing fuel i with
  | nil =>
    rw [linkTo, kidIndices]
    cases fuel <;> rfl
  | cons kid kids ih =>
    obtain ⟨key, v⟩ := kid
    have hlt := h.lt_length
    rw [HoldsKids, HoldsKid] at h
    obtain ⟨⟨n, hn, -, hnext, -⟩, hmore⟩ := h
    have hpos : 0 < nodesOfKid (key, v) := nodes_pos v
    obtain _ | fuel := fuel
    · omega
    · rw [linkTo, siblings, hn, Option.bind_some, hnext, kidIndices, ih hmore (by omega)]

/-- Each index is that of its child. -/
lemma kidAt_kidIndices {doc : JsonDoc} {kids : List (Option (List UInt8) × Json)} {i : ℕ}
    (h : HoldsKids doc i kids) : List.Forall₂ (KidAt doc) (kidIndices i kids) kids := by
  induction kids generalizing i with
  | nil => exact .nil
  | cons kid kids ih =>
    obtain ⟨key, v⟩ := kid
    rw [HoldsKids, HoldsKid] at h
    obtain ⟨⟨n, hn, hkey, -, hv⟩, hmore⟩ := h
    exact .cons ⟨n, hn, hkey, hv⟩ (ih hmore)

/-- The children of a container are found. -/
lemma childrenOf_eq {doc : JsonDoc} {isObject : Bool} {kids : List (Option (List UInt8) × Json)}
    {node : ℕ} (h : HeldAt doc node (.container isObject kids)) :
    ∃ children, childrenOf doc (containerType isObject) node = some children ∧
      List.Forall₂ (KidAt doc) children kids := by
  obtain ⟨n, hn, hv⟩ := h
  rw [HoldsValue] at hv
  obtain ⟨htype, hfirst, hkids⟩ := hv
  refine ⟨kidIndices (node + 1) kids, ?_, kidAt_kidIndices hkids⟩
  rw [childrenOf, hn]
  dsimp only
  rw [if_pos htype, hfirst, siblings_eq hkids (by omega)]

/-- A C string ends at the first zero byte. -/
lemma takeWhile_terminated (s more : List UInt8) :
    (s ++ 0 :: more).takeWhile (· ≠ 0) = s.takeWhile (· ≠ 0) := by
  induction s with
  | nil => rfl
  | cons c s ih =>
    rw [List.cons_append, List.takeWhile_cons, List.takeWhile_cons, ih]

lemma hasKeyText_eq {doc : JsonDoc} {k : ℕ} {kid : Option (List UInt8) × Json} (h : KidAt doc k kid)
    (key : List UInt8) :
    hasKeyText doc key k = decide (kid.1.map (·.takeWhile (· ≠ 0)) = some key) := by
  obtain ⟨n, hn, hkey, -⟩ := h
  rw [hasKeyText, hn, Option.bind_some]
  match n.key, kid.1, hkey with
  | none, none, _ => rfl
  | some off, some s, hkey =>
    obtain ⟨more, hmore⟩ := hkey
    dsimp only
    rw [strAt, ← hmore, List.append_assoc, List.singleton_append, takeWhile_terminated, Option.map_some]
    exact decide_eq_decide.mpr Option.some_inj.symm

/-- A search through two lists in step. -/
lemma find?_rel {α β : Type*} {R : α → β → Prop} {p : α → Bool} {q : β → Bool} {l : List α} {m : List β}
    (h : List.Forall₂ R l m) (hpq : ∀ a b, R a b → p a = q b) :
    Option.Rel R (l.find? p) (m.find? q) := by
  induction h with
  | nil => exact .none
  | @cons a b l m hab _ ih =>
    rw [List.find?_cons, List.find?_cons, hpq a b hab]
    cases q b with
    | true => exact .some hab
    | false => exact ih

/-- `pai_json_member` finds the member. -/
lemma paiJsonMember_rel {doc : JsonDoc} {members : List (Option (List UInt8) × Json)} {obj : ℕ}
    (h : HeldAt doc obj (.container true members)) (key : List UInt8) :
    Option.Rel (HeldAt doc) (paiJsonMember doc obj key) (memberOf key members) := by
  obtain ⟨children, hchildren, hrel⟩ := childrenOf_eq h
  rw [paiJsonMember, show JsonType.object = containerType true from rfl, hchildren, Option.bind_some,
    memberOf]
  have hfound := find?_rel hrel fun k kid hk => hasKeyText_eq hk key
  revert hfound
  generalize children.find? (hasKeyText doc key) = found
  generalize members.find? _ = found'
  intro hfound
  cases hfound with
  | none => exact .none
  | some hk => exact .some hk.heldAt

/-- `pai_json_str_member` finds the string. -/
lemma paiJsonStrMember_eq {doc : JsonDoc} {members : List (Option (List UInt8) × Json)} {obj : ℕ}
    (h : HeldAt doc obj (.container true members)) {key : List UInt8} (hplain : PlainMember key members) :
    (memberOf key members = none ∧ paiJsonMember doc obj key = none ∧
        paiJsonStrMember doc obj key = none) ∨
      ∃ s, memberOf key members = some (.string s) ∧ paiJsonStrMember doc obj key = some s := by
  have hrel := paiJsonMember_rel h key
  rw [paiJsonStrMember]
  cases hfound : memberOf key members with
  | none =>
    rw [hfound] at hrel
    cases hnode : paiJsonMember doc obj key with
    | none => exact Or.inl ⟨rfl, rfl, rfl⟩
    | some node =>
      rw [hnode] at hrel
      cases hrel
  | some v =>
    obtain ⟨s, rfl, hs⟩ := hplain v hfound
    rw [hfound] at hrel
    cases hnode : paiJsonMember doc obj key with
    | none =>
      rw [hnode] at hrel
      cases hrel
    | some node =>
      rw [hnode] at hrel
      cases hrel with
      | some hheld =>
        obtain ⟨n, hn, hv⟩ := hheld
        exact Or.inr ⟨s, rfl, by rw [Option.bind_some, paiJsonStr_eq hn hv hs]⟩

/-- The code reads the role and the content of a message. -/
lemma readMessage_eq {doc : JsonDoc} {members : List (Option (List UInt8) × Json)} {msg : ℕ}
    (h : HeldAt doc msg (.container true members)) (hrole : PlainMember roleKey members)
    (hcontent : PlainMember contentKey members) :
    readMessage doc msg =
      some (stringMember roleKey userRole members, stringMember contentKey [] members) := by
  have hrole' : (paiJsonStrMember doc msg roleKey).getD userRole =
      stringMember roleKey userRole members := by
    rw [stringMember]
    obtain ⟨hnone, -, hstr⟩ | ⟨s, hsome, hstr⟩ := paiJsonStrMember_eq h hrole
    · rw [hstr, hnone, Option.getD_none]
    · rw [hstr, hsome, Option.getD_some]
  have htype : paiJsonType doc msg = .object := by
    obtain ⟨n, hn, hv⟩ := h
    rw [HoldsValue] at hv
    rw [paiJsonType, hn]
    exact hv.1
  rw [readMessage, if_neg (not_not_intro htype), hrole']
  obtain ⟨hnone, hnode, hstr⟩ | ⟨s, hsome, hstr⟩ := paiJsonStrMember_eq h hcontent
  · have hempty : stringMember contentKey [] members = [] := by rw [stringMember, hnone]
    rw [hstr, hnode, hempty]
  · have hs : stringMember contentKey [] members = s := by rw [stringMember, hsome]
    rw [hstr, hs]

/-- The state of the loop in the pass for a message. -/
lemma chatStep_eq {doc : JsonDoc} {node : ℕ} {msgs : List (Option (List UInt8) × Json)}
    (h : MessagesIn doc node msgs) (cap : ℕ) (state : ℕ × List UInt8) {i : ℕ} (hi : i < msgs.length) :
    ∃ members, msgs[i].2 = .container true members ∧ PlainMember roleKey members ∧
      PlainMember contentKey members ∧
      chatStep doc node cap state i = putLine cap state.1 state.2
        (stringMember roleKey userRole members) (stringMember contentKey [] members) := by
  obtain ⟨members, hmsg, hrole, hcontent⟩ := h.messages msgs[i] (List.getElem_mem hi)
  obtain ⟨children, hchildren, hrel⟩ := childrenOf_eq h.held
  have hlen : i < children.length := by rw [hrel.length_eq]; exact hi
  have hheld : HeldAt doc children[i] (.container true members) := by
    rw [← hmsg]
    exact (hrel.get hlen hi).heldAt
  refine ⟨members, hmsg, hrole, hcontent, ?_⟩
  rw [chatStep, paiJsonArrayAt, show JsonType.array = containerType false from rfl, hchildren,
    Option.bind_some, List.getElem?_eq_getElem hlen, Option.bind_some,
    readMessage_eq hheld hrole hcontent]

/-- The number of passes is the number of messages. -/
lemma paiJsonArrayLen_eq {doc : JsonDoc} {node : ℕ} {msgs : List (Option (List UInt8) × Json)}
    (h : MessagesIn doc node msgs) : paiJsonArrayLen doc node = some msgs.length := by
  obtain ⟨children, hchildren, hrel⟩ := childrenOf_eq h.held
  rw [paiJsonArrayLen, show JsonType.array = containerType false from rfl, hchildren,
    Option.map_some, hrel.length_eq]

/-! ## The lengths of the lines -/

lemma length_roleLine (role content : List UInt8) :
    (roleLine role content).length = role.length + content.length + 2 := by
  rw [roleLine, List.length_append, List.length_cons, List.length_cons]
  omega

/-- The bytes of a string member in the arena, with its key. -/
def memberBytes (key : List UInt8) (members : List (Option (List UInt8) × Json)) : ℕ :=
  match memberOf key members with
  | some (.string s) => key.length + s.length + 2
  | _ => 0

lemma memberBytes_cons_of_ne {key : List UInt8} {member : Option (List UInt8) × Json}
    {members : List (Option (List UInt8) × Json)}
    (h : member.1.map (·.takeWhile (· ≠ 0)) ≠ some key) :
    memberBytes key (member :: members) = memberBytes key members := by
  rw [memberBytes, memberOf, List.find?_cons_of_neg (by rwa [decide_eq_true_eq])]
  rfl

lemma memberBytes_cons_of_eq {key : List UInt8} {member : Option (List UInt8) × Json}
    {members : List (Option (List UInt8) × Json)}
    (h : member.1.map (·.takeWhile (· ≠ 0)) = some key) :
    memberBytes key (member :: members) ≤ bytesOfKid member := by
  obtain ⟨name, v⟩ := member
  rw [memberBytes, memberOf, List.find?_cons_of_pos (by rwa [decide_eq_true_eq]), Option.map_some]
  match name, h with
  | some name, h =>
    rw [Option.map_some, Option.some_inj] at h
    have hle : key.length ≤ name.length := by
      rw [← h]
      exact (List.takeWhile_prefix _).length_le
    cases v with
    | string s =>
      rw [bytesOfKid, keyBytes, Json.stringBytes]
      dsimp only
      omega
    | _ => exact Nat.zero_le _

/-- Two members with different keys are apart. -/
lemma memberBytes_add_le {key key' : List UInt8} (hne : key ≠ key')
    (members : List (Option (List UInt8) × Json)) :
    memberBytes key members + memberBytes key' members ≤ bytesOfKids members := by
  induction members with
  | nil => exact Nat.le_refl 0
  | cons member members ih =>
    rw [bytesOfKids]
    by_cases hkey : member.1.map (·.takeWhile (· ≠ 0)) = some key
    · have hkey' : member.1.map (·.takeWhile (· ≠ 0)) ≠ some key' := by
        rw [hkey]
        exact fun heq => hne (Option.some_inj.mp heq)
      have hle := @memberBytes_cons_of_eq key member members hkey
      rw [memberBytes_cons_of_ne hkey']
      omega
    · rw [memberBytes_cons_of_ne hkey]
      by_cases hkey' : member.1.map (·.takeWhile (· ≠ 0)) = some key'
      · have hle := @memberBytes_cons_of_eq key' member members hkey'
        omega
      · rw [memberBytes_cons_of_ne hkey']
        omega

/-- A string member is in the arena, or is the default. -/
lemma length_stringMember (key default : List UInt8) (members : List (Option (List UInt8) × Json)) :
    (stringMember key default members).length + key.length + 2 = memberBytes key members ∨
      (stringMember key default members).length = default.length := by
  rw [stringMember, memberBytes]
  split
  · left
    omega
  · right
    rfl

/-- A line is no longer than the strings of its message, unless both are missing. -/
lemma length_messageLine (members : List (Option (List UInt8) × Json)) :
    (messageLine (.container true members)).length < bytesOfKids members ∨
      (messageLine (.container true members)).length = 6 := by
  have hadd := @memberBytes_add_le roleKey contentKey (by decide) members
  have hrole := length_stringMember roleKey userRole members
  have hcontent := length_stringMember contentKey [] members
  rw [messageLine, length_roleLine]
  rw [show roleKey.length = 4 from rfl, show userRole.length = 4 from rfl] at hrole
  rw [show contentKey.length = 7 from rfl, List.length_nil] at hcontent
  omega

/-- The text with a line more. -/
def appendLine (text line : List UInt8) : List UInt8 :=
  if text = [] then line else text ++ 10 :: line

lemma messageLine_ne_nil {v : Json} (h : IsMessage v) : messageLine v ≠ [] := by
  obtain ⟨members, rfl, -⟩ := h
  intro hnil
  have hlen := congrArg List.length hnil
  rw [messageLine, length_roleLine, List.length_nil] at hlen
  omega

lemma chatText_cons {msg : Option (List UInt8) × Json} {msgs : List (Option (List UInt8) × Json)}
    (h : msgs ≠ []) : chatText (msg :: msgs) = messageLine msg.2 ++ 10 :: chatText msgs := by
  rw [chatText, List.map_cons, List.intercalate_cons_of_ne_nil (by rwa [Ne, List.map_eq_nil_iff]),
    List.append_assoc]
  rfl

lemma chatText_singleton (msg : Option (List UInt8) × Json) : chatText [msg] = messageLine msg.2 :=
  List.intercalate_singleton

lemma chatText_ne_nil {msgs : List (Option (List UInt8) × Json)} (h : ∀ msg ∈ msgs, IsMessage msg.2)
    (hne : msgs ≠ []) : chatText msgs ≠ [] := by
  match msgs, hne with
  | [msg], _ =>
    rw [chatText_singleton]
    exact messageLine_ne_nil (h msg List.mem_cons_self)
  | msg :: msg' :: msgs, _ =>
    rw [chatText_cons (List.cons_ne_nil _ _)]
    exact List.append_ne_nil_of_left_ne_nil (messageLine_ne_nil (h msg List.mem_cons_self)) _

/-- A message more is a line more. -/
lemma chatText_concat {msgs : List (Option (List UInt8) × Json)} (h : ∀ msg ∈ msgs, IsMessage msg.2)
    (msg : Option (List UInt8) × Json) :
    chatText (msgs ++ [msg]) = appendLine (chatText msgs) (messageLine msg.2) := by
  induction msgs with
  | nil =>
    rw [List.nil_append, chatText_singleton]
    rfl
  | cons first msgs ih =>
    rw [appendLine, if_neg (chatText_ne_nil h (List.cons_ne_nil _ _)), List.cons_append,
      chatText_cons (by simp), ih fun m hm => h m (List.mem_cons_of_mem _ hm), appendLine]
    by_cases hnil : msgs = []
    · rw [hnil, chatText_singleton, if_pos (show chatText [] = [] from rfl)]
    · rw [if_neg (chatText_ne_nil (fun m hm => h m (List.mem_cons_of_mem _ hm)) hnil),
        chatText_cons hnil, List.append_assoc, List.cons_append]

/-- The text of all messages is hardly longer than their strings. -/
lemma length_chatText_le {msgs : List (Option (List UInt8) × Json)}
    (h : ∀ msg ∈ msgs, IsMessage msg.2) :
    (chatText msgs).length ≤ bytesOfKids msgs + 7 * msgs.length := by
  induction msgs with
  | nil => exact Nat.zero_le _
  | cons msg msgs ih =>
    obtain ⟨members, hmsg, -⟩ := h msg List.mem_cons_self
    have hline := length_messageLine members
    have hbytes : bytesOfKids members ≤ bytesOfKid msg := by
      obtain ⟨key, v⟩ := msg
      rw [bytesOfKid, show v = .container true members from hmsg, Json.stringBytes]
      exact Nat.le_add_left _ _
    rw [bytesOfKids, List.length_cons]
    by_cases hnil : msgs = []
    · rw [hnil, chatText_singleton, hmsg]
      omega
    · have hmore := ih fun m hm => h m (List.mem_cons_of_mem _ hm)
      rw [chatText_cons hnil, hmsg, List.length_append, List.length_cons]
      omega

/-! ## The loop -/

/-- The state of the loop after the lines of `text`.  A text as long as the buffer has lost its last
byte. -/
structure Filled (cap : ℕ) (text : List UInt8) (state : ℕ × List UInt8) : Prop where
  /-- The buffer keeps its length. -/
  cap_eq : state.2.length = cap
  /-- The counter. -/
  used : state.1 = text.length
  /-- The text is in the buffer. -/
  le : text.length ≤ cap
  /-- The text with its terminator. -/
  text_eq : text.length < cap → state.2.take (text.length + 1) = text ++ [0]

/-- Storing behind what is there. -/
lemma storeAt_eq {out pre bytes : List UInt8} (hpre : out.take pre.length = pre)
    (h : pre.length + bytes.length ≤ out.length) :
    ∃ out', storeAt out pre.length bytes = .ok out' ∧ out'.length = out.length ∧
      out'.take (pre.length + bytes.length) = pre ++ bytes := by
  refine ⟨overwrite out pre.length bytes, ?_, length_overwrite h, ?_⟩
  · rw [storeAt, if_pos h]
  · have hslice := @slice_overwrite_append _ out bytes 0 pre.length (by omega)
    rw [Nat.zero_add, slice, slice, List.drop_zero, List.drop_zero, hpre] at hslice
    exact hslice

/-- `snprintf` of a line that fits without its terminator. -/
lemma snprintf_spec {cap : ℕ} {out pre line : List UInt8} (hcap : out.length = cap)
    (h32 : cap < 0x100000000) (hpre : out.take pre.length = pre) (hpos : 0 < line.length)
    (hline : line.length < 0x80000000) (hfits : pre.length + line.length ≤ cap) :
    ∃ out', storeAt out pre.length
        (snprintfBytes (roomLeft cap pre.length) line) = .ok out' ∧
      Filled cap (pre ++ line) ((pre.length + snprintfLength line) % 0x100000000, out') := by
  have hroom : roomLeft cap pre.length = cap - pre.length := by
    rw [roomLeft]
    omega
  have hlen : (snprintfBytes (cap - pre.length) line).length =
      min (cap - pre.length - 1) line.length + 1 := by
    rw [snprintfBytes, if_neg (by omega), List.length_append, List.length_take, List.length_singleton]
  rw [hroom]
  obtain ⟨out', hrun, hlen', htake⟩ := @storeAt_eq out pre (snprintfBytes (cap - pre.length) line) hpre
    (by rw [hlen]; omega)
  refine ⟨out', hrun, hlen'.trans hcap, ?_, ?_, fun hlt => ?_⟩
  · rw [snprintfLength, if_pos hline, List.length_append]
    exact Nat.mod_eq_of_lt (by omega)
  · rw [List.length_append]
    exact hfits
  · rw [List.length_append] at hlt ⊢
    have hbytes : snprintfBytes (cap - pre.length) line = line ++ [0] := by
      rw [snprintfBytes, if_neg (by omega), List.take_of_length_le (by omega)]
    rw [hbytes, List.length_append, List.length_singleton, ← Nat.add_assoc] at htake
    rw [htake, List.append_assoc]

lemma exceptOk_bind {ε α β : Type} (a : α) (f : α → Except ε β) : (Except.ok a).bind f = f a := rfl

/-- The first line that passes the check. -/
lemma putLine_first {cap used : ℕ} {out role content : List UInt8} (hused : used = 0)
    (hline : (roleLine role content).length < 0x80000000)
    (hfits : (roleLine role content).length ≤ cap) :
    putLine cap used out role content =
      (storeAt out used (snprintfBytes (roomLeft cap used) (roleLine role content))).map
        fun out => ((used + snprintfLength (roleLine role content)) % 0x100000000, out) := by
  have hskip : ¬ used ≠ 0 := not_not_intro hused
  rw [length_roleLine] at hline hfits
  have hcheck : ¬ cap ≤ (used + (role.length + content.length + 1) % 0x100000000) % 0x100000000 := by
    omega
  unfold putLine
  simp only [if_neg hskip, if_neg hcheck]
  rw [exceptOk_bind]

/-- A later line that passes the check: a newline, and the line. -/
lemma putLine_next {cap used : ℕ} {out role content : List UInt8} (hused : 0 < used)
    (hline : (roleLine role content).length < 0x80000000) (h32 : cap < 0x100000000)
    (hfits : used + 1 + (roleLine role content).length ≤ cap) :
    putLine cap used out role content =
      (storeAt out used [10]).bind fun out =>
        (storeAt out (used + 1) (snprintfBytes (roomLeft cap (used + 1)) (roleLine role content))).map
          fun out => ((used + 1 + snprintfLength (roleLine role content)) % 0x100000000, out) := by
  have hmod : (used + 1) % 0x100000000 = used + 1 := by omega
  rw [length_roleLine] at hline hfits
  have hcheck : ¬ cap ≤ (used + (role.length + content.length + 2) % 0x100000000) % 0x100000000 := by
    omega
  unfold putLine
  simp only [if_pos (show used ≠ 0 by omega), if_neg hcheck, hmod]
  cases storeAt out used [10] with
  | error stop => rfl
  | ok out => rw [Except.map, exceptOk_bind, exceptOk_bind]

/-- The check refuses a line that does not fit without its terminator. -/
lemma putLine_refused {cap : ℕ} {text role content out : List UInt8}
    (htext : (appendLine text (roleLine role content)).length < 0x100000000)
    (hlong : cap < (appendLine text (roleLine role content)).length) :
    putLine cap text.length out role content = .error .refused := by
  have hlen := length_roleLine role content
  rw [appendLine] at htext hlong
  rw [putLine]
  dsimp only
  by_cases hnil : text = []
  · rw [if_pos hnil] at htext hlong
    rw [hnil, List.length_nil, if_pos (by rw [if_neg (by decide)]; omega)]
  · rw [if_neg hnil, List.length_append, List.length_cons] at htext hlong
    have hpos : text.length ≠ 0 := by rwa [Ne, List.length_eq_zero_iff]
    rw [if_pos (by rw [if_pos hpos]; omega)]

/-- One line: the check lets it through exactly when it fits without its terminator. -/
lemma putLine_spec {cap : ℕ} {text role content : List UInt8} {state : ℕ × List UInt8}
    (h : Filled cap text state) (h32 : cap < 0x100000000)
    (hline : (roleLine role content).length < 0x80000000)
    (htext : (appendLine text (roleLine role content)).length < 0x100000000) :
    if (appendLine text (roleLine role content)).length ≤ cap then
      ∃ state', putLine cap state.1 state.2 role content = .ok state' ∧
        Filled cap (appendLine text (roleLine role content)) state'
    else putLine cap state.1 state.2 role content = .error .refused := by
  obtain ⟨used, out⟩ := state
  obtain ⟨hcap, hused, hle, hout⟩ := h
  dsimp only at hcap hused hout ⊢
  subst hused
  have hpos : 0 < (roleLine role content).length := by
    rw [length_roleLine]
    omega
  split_ifs with hfits
  · rw [appendLine] at hfits ⊢
    by_cases hnil : text = []
    · subst hnil
      rw [if_pos rfl] at hfits ⊢
      obtain ⟨out', hrun, hfilled⟩ := @snprintf_spec _ _ [] (roleLine role content) hcap h32 List.take_zero
        hpos hline (by rw [List.length_nil, Nat.zero_add]; exact hfits)
      refine ⟨_, ?_, hfilled⟩
      rw [putLine_first List.length_nil hline hfits, hrun, Except.map]
    · rw [if_neg hnil, List.length_append, List.length_cons] at hfits
      have htext0 : 0 < text.length := List.length_pos_iff.mpr hnil
      have hbefore : out.take text.length = text := by
        have hfull := congrArg (List.take text.length) (hout (by omega))
        rwa [List.take_take, min_eq_left (Nat.le_succ _), List.take_left] at hfull
      obtain ⟨out₁, hrun₁, hlen₁, htake₁⟩ := @storeAt_eq out text [10] hbefore
        (by rw [List.length_singleton]; omega)
      have hlen₂ : (text ++ [10]).length = text.length + 1 := List.length_append
      obtain ⟨out', hrun, hfilled⟩ := @snprintf_spec cap out₁ (text ++ [10]) (roleLine role content)
        (hlen₁.trans hcap) h32 (by rw [hlen₂]; exact htake₁) hpos hline (by rw [hlen₂]; omega)
      rw [hlen₂, List.append_assoc] at *
      rw [if_neg hnil]
      refine ⟨_, ?_, hfilled⟩
      rw [putLine_next htext0 hline h32 (by omega), hrun₁]
      rw [exceptOk_bind, hrun, Except.map]
  · exact putLine_refused htext (by omega)

lemma take_messages {doc : JsonDoc} {node : ℕ} {msgs : List (Option (List UInt8) × Json)}
    (h : MessagesIn doc node msgs) (k : ℕ) : ∀ msg ∈ msgs.take k, IsMessage msg.2 :=
  fun msg hmsg => h.messages msg (List.mem_of_mem_take hmsg)

lemma length_messages_le {doc : JsonDoc} {node : ℕ} {msgs : List (Option (List UInt8) × Json)}
    (h : MessagesIn doc node msgs) : msgs.length ≤ paiJsonMaxNodes := by
  have hle : ∀ kids : List (Option (List UInt8) × Json), kids.length ≤ nodesOfKids kids := by
    intro kids
    induction kids with
    | nil => exact Nat.le_refl 0
    | cons kid kids ih =>
      obtain ⟨key, v⟩ := kid
      have hpos : 0 < nodesOfKid (key, v) := nodes_pos v
      rw [nodesOfKids, List.length_cons]
      omega
  exact (hle msgs).trans h.nodes_le

lemma bytesOfKids_take_le (msgs : List (Option (List UInt8) × Json)) (k : ℕ) :
    bytesOfKids (msgs.take k) ≤ bytesOfKids msgs := by
  induction msgs generalizing k with
  | nil => rw [List.take_nil]
  | cons msg msgs ih =>
    cases k with
    | zero => exact Nat.zero_le _
    | succ k =>
      rw [List.take_succ_cons, bytesOfKids, bytesOfKids]
      exact Nat.add_le_add_left (ih k) _

/-- The counters of the code do not wrap. -/
lemma length_chatText_take_lt {doc : JsonDoc} {node : ℕ} {msgs : List (Option (List UInt8) × Json)}
    (h : MessagesIn doc node msgs) (k : ℕ) : (chatText (msgs.take k)).length < 0x100000000 := by
  have hle := length_chatText_le (take_messages h k)
  have hbytes := (bytesOfKids_take_le msgs k).trans h.bytes_le
  have hcount := length_messages_le h
  have htake : (msgs.take k).length ≤ msgs.length := by
    rw [List.length_take]
    exact min_le_right _ _
  have hmax : paiJsonMaxNodes = 8192 := rfl
  omega

/-- A child is within the limits of all children. -/
lemma kid_le_kids {kid : Option (List UInt8) × Json} {kids : List (Option (List UInt8) × Json)}
    (h : kid ∈ kids) : nodesOfKid kid ≤ nodesOfKids kids ∧ bytesOfKid kid ≤ bytesOfKids kids := by
  induction kids with
  | nil => cases h
  | cons first kids ih =>
    rw [nodesOfKids, bytesOfKids]
    obtain rfl | h := List.mem_cons.mp h
    · exact ⟨Nat.le_add_right _ _, Nat.le_add_right _ _⟩
    · exact ⟨(ih h).1.trans (Nat.le_add_left _ _), (ih h).2.trans (Nat.le_add_left _ _)⟩

lemma length_messageLine_lt {doc : JsonDoc} {node : ℕ} {msgs : List (Option (List UInt8) × Json)}
    (h : MessagesIn doc node msgs) {msg : Option (List UInt8) × Json} (hmem : msg ∈ msgs)
    {members : List (Option (List UInt8) × Json)} (hmsg : msg.2 = .container true members) :
    (messageLine (.container true members)).length < 0x80000000 := by
  have hbytes := (kid_le_kids hmem).2.trans h.bytes_le
  have hline := length_messageLine members
  obtain ⟨key, v⟩ := msg
  rw [bytesOfKid, show v = .container true members from hmsg, Json.stringBytes] at hbytes
  omega

/-- **The loop.**  The first `k` lines are written when they fit without their terminator; else the code
returns `-1`. -/
lemma chatLoop_spec {doc : JsonDoc} {node cap : ℕ} {msgs : List (Option (List UInt8) × Json)}
    (h : MessagesIn doc node msgs) (h32 : cap < 0x100000000)
    {start : ℕ × List UInt8} (hstart : Filled cap [] start) {k : ℕ} (hk : k ≤ msgs.length) :
    if (chatText (msgs.take k)).length ≤ cap then
      ∃ state, (List.range k).foldlM (chatStep doc node cap) start = .ok state ∧
        Filled cap (chatText (msgs.take k)) state
    else (List.range k).foldlM (chatStep doc node cap) start = .error .refused := by
  induction k with
  | zero =>
    rw [List.take_zero, if_pos (show (chatText []).length ≤ cap from Nat.zero_le cap)]
    exact ⟨start, rfl, hstart⟩
  | succ k ih =>
    have hlt : k < msgs.length := hk
    have htext : chatText (msgs.take (k + 1)) =
        appendLine (chatText (msgs.take k)) (messageLine msgs[k].2) := by
      rw [List.take_succ_eq_append_getElem hlt, chatText_concat (take_messages h k)]
    have hbound := length_chatText_take_lt h (k + 1)
    have hrun : (List.range (k + 1)).foldlM (chatStep doc node cap) start =
        (List.range k).foldlM (chatStep doc node cap) start >>= (chatStep doc node cap · k) := by
      rw [List.range_succ, List.foldlM_append]
      refine bind_congr fun state => ?_
      rw [List.foldlM_cons]
      exact bind_pure _
    rw [hrun]
    by_cases hfits : (chatText (msgs.take k)).length ≤ cap
    · obtain ⟨state, hstate, hfilled⟩ := (if_pos hfits).mp (ih (by omega))
      obtain ⟨members, hmsg, -, -, hstep⟩ := chatStep_eq h cap state hlt
      have hline := length_messageLine_lt h (List.getElem_mem hlt) hmsg
      rw [htext, hmsg] at hbound ⊢
      rw [hstate]
      have hput := putLine_spec hfilled h32 hline hbound
      rw [← hstep] at hput
      exact hput
    · have hgrow : (chatText (msgs.take k)).length ≤ (chatText (msgs.take (k + 1))).length := by
        rw [htext, appendLine]
        split_ifs with hnil
        · rw [hnil]
          exact Nat.zero_le _
        · rw [List.length_append]
          exact Nat.le_add_right _ _
      rw [if_neg hfits] at ih
      rw [if_neg (by omega), ih (by omega)]
      rfl

/-! ## The prompt -/

/-- `chat_prompt` returns the text exactly when there are messages and the text fits without its
terminator. -/
lemma chatPrompt_spec {doc : JsonDoc} {node : ℕ} {msgs : List (Option (List UInt8) × Json)}
    {out : List UInt8} (h : MessagesIn doc node msgs) (hpos : 1 ≤ out.length)
    (h32 : out.length < 0x100000000) :
    if msgs ≠ [] ∧ (chatText msgs).length ≤ out.length then
      ∃ out', chatPrompt doc node out = .ok out' ∧
        Filled out.length (chatText msgs) ((chatText msgs).length, out')
    else chatPrompt doc node out = .error .refused := by
  obtain ⟨out₀, hrun₀, hlen₀, htake₀⟩ := @storeAt_eq out [] [0] List.take_zero
    (by rw [List.length_nil, List.length_singleton]; omega)
  have hstart : Filled out.length [] (0, out₀) :=
    ⟨hlen₀, rfl, Nat.zero_le _, fun _ => htake₀⟩
  have hloop := chatLoop_spec h h32 hstart (Nat.le_refl msgs.length)
  rw [List.take_length] at hloop
  have hcode : chatPrompt doc node out = if msgs.length = 0 then .error .refused
      else ((List.range msgs.length).foldlM (chatStep doc node out.length) (0, out₀)).map Prod.snd := by
    rw [chatPrompt, show storeAt out 0 [0] = .ok out₀ from hrun₀, exceptOk_bind, paiJsonArrayLen_eq h]
    cases msgs.length <;> rfl
  rw [hcode]
  by_cases hnil : msgs = []
  · rw [if_neg fun hand => hand.1 hnil, if_pos (by rw [hnil, List.length_nil])]
  · have hlen : ¬ msgs.length = 0 := by rwa [List.length_eq_zero_iff]
    rw [if_neg hlen]
    split_ifs at hloop with hfits
    · obtain ⟨⟨used, out'⟩, hstate, hfilled⟩ := hloop
      obtain rfl : used = (chatText msgs).length := hfilled.used
      rw [if_pos ⟨hnil, hfits⟩, hstate]
      exact ⟨out', rfl, hfilled⟩
    · rw [if_neg fun hand => hfits hand.2, hloop]
      rfl

/-- **The prompt.**  `chat_prompt` assembles the text of the messages exactly when there is a message and
the text does not have the length of the buffer. -/
theorem chatPrompt_assembles_iff {doc : JsonDoc} {node : ℕ} {msgs : List (Option (List UInt8) × Json)}
    {out : List UInt8} (h : MessagesIn doc node msgs) (hpos : 1 ≤ out.length)
    (h32 : out.length < 0x100000000) :
    Assembles out.length (chatText msgs) (chatPrompt doc node out) ↔
      msgs ≠ [] ∧ (chatText msgs).length ≠ out.length := by
  have hspec := chatPrompt_spec h hpos h32
  constructor
  · rintro ⟨-, hreturns, -⟩
    split_ifs at hspec with hcond
    · obtain ⟨out', hrun, -⟩ := hspec
      have hfits := hreturns.mp ⟨out', hrun⟩
      exact ⟨hcond.1, by omega⟩
    · have hlong : ¬ (chatText msgs).length + 1 ≤ out.length := fun hfits => by
        obtain ⟨out', hrun⟩ := hreturns.mpr hfits
        rw [hspec] at hrun
        cases hrun
      refine ⟨fun hnil => ?_, fun hlen => ?_⟩
      · rw [hnil, show (chatText []).length = 0 from rfl] at hlong
        omega
      · refine hcond ⟨fun hnil => ?_, hlen.le⟩
        rw [hnil, show (chatText []).length = 0 from rfl] at hlen
        omega
  · rintro ⟨hne, hlen⟩
    split_ifs at hspec with hcond
    · obtain ⟨out', hrun, hfilled⟩ := hspec
      have hlt : (chatText msgs).length < out.length := lt_of_le_of_ne hcond.2 hlen
      rw [hrun]
      refine ⟨nofun, iff_of_true ⟨out', rfl⟩ hlt, fun out'' hout => ?_⟩
      cases hout
      exact ⟨hfilled.cap_eq, hfilled.text_eq hlt⟩
    · have hlong : ¬ (chatText msgs).length ≤ out.length := fun hle => hcond ⟨hne, hle⟩
      rw [hspec]
      exact ⟨nofun, iff_of_false (fun ⟨_, hrun⟩ => nomatch hrun) (by omega), nofun⟩

/-- The messages of a request that the parser accepts are in the pool, within its limits. -/
lemma messagesIn_of_parse {text key : List UInt8} {doc : JsonDoc} (hdoc : paiJsonParse text = .ok doc) :
    ∃ j, IsTightJson text j ∧ ∀ members msgs, j = .container true members →
      memberOf key members = some (.container false msgs) → (∀ msg ∈ msgs, IsMessage msg.2) →
      ∃ root node, doc.root = some root ∧ paiJsonMember doc root key = some node ∧
        MessagesIn doc node msgs := by
  obtain ⟨j, htight, ⟨root, n, hroot, hn, hv⟩, -⟩ := isTightJson_of_paiJsonParse hdoc
  refine ⟨j, htight, fun members msgs hj hmember hmsgs => ?_⟩
  subst hj
  have hrel := paiJsonMember_rel ⟨n, hn, hv⟩ key
  rw [hmember] at hrel
  cases hnode : paiJsonMember doc root key with
  | none =>
    rw [hnode] at hrel
    cases hrel
  | some node =>
    rw [hnode] at hrel
    cases hrel with
    | some hheld =>
      obtain ⟨member, hfound, hvalue⟩ := Option.map_eq_some_iff.mp hmember
      obtain ⟨hnodes, hbytes⟩ := kid_le_kids (List.mem_of_find?_eq_some hfound)
      obtain ⟨name, v⟩ := member
      rw [nodesOfKid, bytesOfKid, show v = .container false msgs from hvalue, Json.nodes,
        Json.stringBytes] at *
      obtain ⟨-, hnodes', hbytes'⟩ := htight
      rw [Json.nodes] at hnodes'
      rw [Json.stringBytes] at hbytes'
      exact ⟨root, node, hroot, hnode, by omega, by omega, hheld, hmsgs⟩

/-- `[{"role":"user","content":"hi"}]`, as a document. -/
def hiMessages : List (Option (List UInt8) × Json) :=
  [(none, .container true [(some roleKey, .string userRole), (some contentKey, .string [104, 105])])]

/-- `[{"role":"user","content":"hi"}]`, in the pool. -/
def hiDoc : JsonDoc where
  nodes := [{ JsonNode.blank .array with firstChild := some 1 },
    { JsonNode.blank .object with firstChild := some 2 },
    { JsonNode.blank .string with key := some 0, str := some 5, next := some 3 },
    { JsonNode.blank .string with key := some 10, str := some 18 }]
  strs := roleKey ++ 0 :: userRole ++ 0 :: contentKey ++ [0, 104, 105, 0]
  strCap := 1024
  root := some 0

lemma messagesIn_hi : MessagesIn hiDoc 0 hiMessages where
  nodes_le := by decide
  bytes_le := by decide
  held := by
    refine ⟨_, rfl, rfl, rfl, ⟨⟨_, rfl, trivial, rfl, rfl, rfl, ?_⟩, trivial⟩⟩
    refine ⟨⟨_, rfl, ?_, rfl, rfl, _, rfl, ?_⟩, ⟨⟨_, rfl, ?_, rfl, rfl, _, rfl, ?_⟩, trivial⟩⟩
    all_goals
      change HasString _ _ _
      rw [HasString]
      decide
  messages := by
    intro msg hmsg
    rw [List.mem_singleton.mp hmsg]
    refine ⟨_, rfl, fun v hv => ?_, fun v hv => ?_⟩
    · exact ⟨userRole, (Option.some_inj.mp hv).symm, by decide⟩
    · exact ⟨[104, 105], (Option.some_inj.mp hv).symm, by decide⟩

/-- A buffer of nine bytes is filled with `user: hi`. -/
theorem chatPrompt_assembles_iff_hi :
    MessagesIn hiDoc 0 hiMessages ∧
      (Assembles 9 (chatText hiMessages) (chatPrompt hiDoc 0 (List.replicate 9 0)) ↔
        hiMessages ≠ [] ∧ (chatText hiMessages).length ≠ 9) :=
  ⟨messagesIn_hi,
    @chatPrompt_assembles_iff _ _ _ (List.replicate 9 0) messagesIn_hi (by decide) (by decide)⟩

/-- In a buffer of eight bytes the prompt `user: hi` loses its last letter. -/
theorem chatPrompt_cuts :
    MessagesIn hiDoc 0 hiMessages ∧
      chatPrompt hiDoc 0 (List.replicate 8 0) = .ok [117, 115, 101, 114, 58, 32, 104, 0] ∧
      ¬ Assembles 8 (chatText hiMessages) (chatPrompt hiDoc 0 (List.replicate 8 0)) := by
  have hrun : chatPrompt hiDoc 0 (List.replicate 8 0) = .ok [117, 115, 101, 114, 58, 32, 104, 0] := rfl
  refine ⟨messagesIn_hi, hrun, fun hassembles => ?_⟩
  have hfits : (chatText hiMessages).length + 1 ≤ 8 := hassembles.returns_iff.mp ⟨_, hrun⟩
  exact absurd hfits (by decide)

end Prospero
