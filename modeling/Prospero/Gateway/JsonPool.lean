import Prospero.Lib.Reader
import Prospero.Gateway.JsonLeaves

/-!
# The node pool

What a document in the pool is: `HoldsValue doc n i j` says that the node `n` with index `i` is the root
of the value `j`.  The parser lays a value out in preorder, so the first child of a container has the
next index, and the sibling of a child has the index behind the nodes of the child.

The pool operations are specified one by one.  `new_str` succeeds exactly while the arena stays within
`2^31` bytes: beyond, the capacity wraps to zero and its doubling loop does not end.  `append_child`
walks to the last child; `Tail` says which node that is.
-/

namespace Prospero

open Rfc8259 Reader

/-! ## Documents in the pool -/

/-- The arena has a string, with its terminator, at an offset. -/
def HasString (strs : List UInt8) (off : ℕ) (s : List UInt8) : Prop := s ++ [0] <+: strs.drop off

/-- The key of a node: a string of the arena, or none. -/
def HasKey (strs : List UInt8) : Option ℕ → Option (List UInt8) → Prop
  | some off, some key => HasString strs off key
  | none, none => True
  | _, _ => False

/-- The link to the first of some children that start at index `i`. -/
def linkTo {α : Type} (i : ℕ) : List α → Option ℕ
  | [] => none
  | _ :: _ => some i

mutual

/-- The node `n`, with index `i`, and the nodes behind it are a value. -/
def HoldsValue (doc : JsonDoc) (n : JsonNode) (i : ℕ) : Json → Prop
  | .null => n.type = .null
  | .bool b => n.type = .bool ∧ n.boolean = b
  | .number => n.type = .number
  | .string s => n.type = .string ∧ ∃ off, n.str = some off ∧ HasString doc.strs off s
  | .container isObject kids => n.type = containerType isObject ∧ n.firstChild = linkTo (i + 1) kids ∧
      HoldsKids doc (i + 1) kids

/-- The nodes from index `i` on are the children of a container, in order. -/
def HoldsKids (doc : JsonDoc) (i : ℕ) : List (Option (List UInt8) × Json) → Prop
  | [] => True
  | kid :: kids => HoldsKid doc i (linkTo (i + nodesOfKid kid) kids) kid ∧
      HoldsKids doc (i + nodesOfKid kid) kids

/-- The node with index `i` is a child with the next sibling `next`. -/
def HoldsKid (doc : JsonDoc) (i : ℕ) (next : Option ℕ) : Option (List UInt8) × Json → Prop
  | (key, v) => ∃ n, doc.nodes[i]? = some n ∧ HasKey doc.strs n.key key ∧ n.next = next ∧
      HoldsValue doc n i v

end

/-- The document in the pool is `j`. -/
def Represents (doc : JsonDoc) (j : Json) : Prop :=
  ∃ i n, doc.root = some i ∧ doc.nodes[i]? = some n ∧ HoldsValue doc n i j

lemma HasString.mono {strs strs' s : List UInt8} {off : ℕ} (h : HasString strs off s)
    (hstrs : strs <+: strs') : HasString strs' off s := by
  obtain ⟨more, rfl⟩ := hstrs
  rw [HasString, List.drop_append]
  exact List.IsPrefix.trans h (List.prefix_append _ _)

lemma hasString_append (strs s : List UInt8) : HasString (strs ++ (s ++ [0])) strs.length s := by
  rw [HasString, List.drop_left]

lemma HasKey.mono {strs strs' : List UInt8} {off : Option ℕ} {key : Option (List UInt8)}
    (h : HasKey strs off key) (hstrs : strs <+: strs') : HasKey strs' off key := by
  match off, key, h with
  | some off, some key, h => exact HasString.mono h hstrs
  | none, none, _ => trivial

mutual

/-- A value stays when the nodes behind its root stay and the arena grows. -/
lemma HoldsValue.frame {doc doc' : JsonDoc} {n : JsonNode} {i : ℕ} {j : Json}
    (h : HoldsValue doc n i j)
    (hnodes : ∀ k, i < k → k < i + j.nodes → doc'.nodes[k]? = doc.nodes[k]?)
    (hstrs : doc.strs <+: doc'.strs) : HoldsValue doc' n i j := by
  match j, h, hnodes with
  | .null, h, _ => exact h
  | .bool _, h, _ => exact h
  | .number, h, _ => exact h
  | .string s, h, _ =>
    rw [HoldsValue] at h ⊢
    obtain ⟨htype, off, hstr, hs⟩ := h
    exact ⟨htype, off, hstr, hs.mono hstrs⟩
  | .container isObject kids, h, hnodes =>
    rw [HoldsValue] at h ⊢
    rw [Json.nodes] at hnodes
    obtain ⟨htype, hfirst, hkids⟩ := h
    exact ⟨htype, hfirst, hkids.frame (fun k hlo hhi => hnodes k (by omega) (by omega)) hstrs⟩

/-- Children stay when their nodes stay and the arena grows. -/
lemma HoldsKids.frame {doc doc' : JsonDoc} {i : ℕ} {kids : List (Option (List UInt8) × Json)}
    (h : HoldsKids doc i kids)
    (hnodes : ∀ k, i ≤ k → k < i + nodesOfKids kids → doc'.nodes[k]? = doc.nodes[k]?)
    (hstrs : doc.strs <+: doc'.strs) : HoldsKids doc' i kids := by
  match kids, h, hnodes with
  | [], _, _ => trivial
  | kid :: kids, h, hnodes =>
    rw [HoldsKids] at h ⊢
    rw [nodesOfKids] at hnodes
    exact ⟨h.1.frame (fun k hlo hhi => hnodes k hlo (by omega)) hstrs,
      h.2.frame (fun k hlo hhi => hnodes k (by omega) (by omega)) hstrs⟩

/-- A child stays when its nodes stay and the arena grows. -/
lemma HoldsKid.frame {doc doc' : JsonDoc} {i : ℕ} {next : Option ℕ}
    {kid : Option (List UInt8) × Json} (h : HoldsKid doc i next kid)
    (hnodes : ∀ k, i ≤ k → k < i + nodesOfKid kid → doc'.nodes[k]? = doc.nodes[k]?)
    (hstrs : doc.strs <+: doc'.strs) : HoldsKid doc' i next kid := by
  match kid, h, hnodes with
  | (key, v), h, hnodes =>
    rw [HoldsKid] at h ⊢
    rw [nodesOfKid] at hnodes
    obtain ⟨n, hn, hkey, hnext, hv⟩ := h
    have hpos : 0 < v.nodes := by
      cases v <;> simp [Json.nodes]
    refine ⟨n, ?_, hkey.mono hstrs, hnext,
      hv.frame (fun k hlo hhi => hnodes k (by omega) hhi) hstrs⟩
    rw [hnodes i (by omega) (by omega), hn]

end

/-- The key and the sibling of the root are no part of a value. -/
lemma HoldsValue.congr {doc : JsonDoc} {n n' : JsonNode} {i : ℕ} {j : Json} (h : HoldsValue doc n i j)
    (hn : n' = { n with key := n'.key, next := n'.next }) : HoldsValue doc n' i j := by
  rw [hn]
  cases j <;> exact h

/-! ## The arena -/

/-- Doubling reaches a need of at most `2^31`. -/
lemma doubleCap_pow {fuel k need : ℕ} (hk : k ≤ 31) (hfuel : 31 < fuel + k)
    (hneed : need ≤ 0x80000000) :
    ∃ m, k ≤ m ∧ m ≤ 31 ∧ need ≤ 2 ^ m ∧ doubleCap fuel (2 ^ k) need = some (2 ^ m) := by
  induction fuel generalizing k with
  | zero => omega
  | succ fuel ih =>
    rw [doubleCap]
    by_cases hlt : 2 ^ k < need
    · -- a capacity below the need is not the largest one, so doubling it does not wrap
      have hk' : k + 1 ≤ 31 := by
        by_contra hlast
        have : k = 31 := by omega
        subst this
        omega
      have hpow : 2 ^ k * 2 % 0x100000000 = 2 ^ (k + 1) := by
        rw [← pow_succ]
        exact Nat.mod_eq_of_lt (Nat.pow_lt_pow_right (by decide) (by omega : k + 1 < 32))
      obtain ⟨m, hm, hm31, hle, heq⟩ := ih hk' (by omega)
      rw [if_pos hlt, hpow]
      exact ⟨m, by omega, hm31, hle, heq⟩
    · rw [if_neg hlt]
      exact ⟨k, le_rfl, hk, not_lt.mp hlt, rfl⟩

/-- Doubling does not reach a need above `2^31`. -/
lemma doubleCap_eq_none {fuel cap need : ℕ} (hcap : cap = 0 ∨ ∃ k, k ≤ 31 ∧ cap = 2 ^ k)
    (hneed : 0x80000000 < need) : doubleCap fuel cap need = none := by
  induction fuel generalizing cap with
  | zero => rfl
  | succ fuel ih =>
    rw [doubleCap]
    rcases hcap with rfl | ⟨k, hk, rfl⟩
    · rw [if_pos (by omega)]
      exact ih (Or.inl rfl)
    · have hle : 2 ^ k ≤ 2 ^ 31 := Nat.pow_le_pow_right (by decide) hk
      rw [if_pos (lt_of_le_of_lt hle hneed)]
      refine ih ?_
      by_cases hlast : k = 31
      · subst hlast
        exact Or.inl rfl
      · have hpow : 2 ^ k * 2 % 0x100000000 = 2 ^ (k + 1) := by
          rw [← pow_succ]
          exact Nat.mod_eq_of_lt (Nat.pow_lt_pow_right (by decide) (by omega : k + 1 < 32))
        exact Or.inr ⟨k + 1, by omega, hpow⟩

/-- A capacity that doubling from `2 ^ k` on reaches. -/
def ReachedCap (k cap : ℕ) : Prop := cap = 0 ∨ ∃ m, k ≤ m ∧ m ≤ 31 ∧ cap = 2 ^ m

/-- A buffer grows to at most `2^31` bytes. -/
lemma growTo_spec {k cap need : ℕ} (hk : k ≤ 31) (hcap : ReachedCap k cap) (hpos : 0 < need) :
    (∀ cap', growTo (2 ^ k) cap need = some cap' →
      need ≤ 0x80000000 ∧ need ≤ cap' ∧ ReachedCap k cap') ∧
    (need ≤ 0x80000000 → ∃ cap', growTo (2 ^ k) cap need = some cap') := by
  unfold growTo
  by_cases hlt : cap < need
  · obtain ⟨m, hm, hm31, hstart⟩ : ∃ m, k ≤ m ∧ m ≤ 31 ∧ (if cap = 0 then 2 ^ k else cap) = 2 ^ m := by
      rcases hcap with rfl | ⟨m, hm, hm31, rfl⟩
      · exact ⟨k, le_rfl, hk, if_pos rfl⟩
      · exact ⟨m, hm, hm31, if_neg (pow_ne_zero m (by decide))⟩
    rw [if_pos hlt, hstart]
    constructor
    · intro cap' hcap'
      by_cases hneed : need ≤ 0x80000000
      · obtain ⟨m', hm', hm31', hle, heq⟩ := @doubleCap_pow 40 m need hm31 (by omega) hneed
        rw [heq] at hcap'
        cases hcap'
        exact ⟨hneed, hle, Or.inr ⟨m', hm.trans hm', hm31', rfl⟩⟩
      · rw [doubleCap_eq_none (Or.inr ⟨m, hm31, rfl⟩) (not_le.mp hneed)] at hcap'
        cases hcap'
    · intro hneed
      obtain ⟨m', -, -, -, heq⟩ := @doubleCap_pow 40 m need hm31 (by omega) hneed
      exact ⟨_, heq⟩
  · rw [if_neg hlt]
    refine ⟨fun cap' hcap' => ?_, fun _ => ⟨cap, rfl⟩⟩
    cases hcap'
    rcases hcap with rfl | ⟨m, hm, hm31, rfl⟩
    · omega
    · have hle : 2 ^ m ≤ 2 ^ 31 := Nat.pow_le_pow_right (by decide) hm31
      exact ⟨(not_lt.mp hlt).trans hle, not_lt.mp hlt, Or.inr ⟨m, hm, hm31, rfl⟩⟩

/-! ## The arena -/

/-- What the pool operations keep. -/
structure PoolOk (doc : JsonDoc) : Prop where
  /-- The node pool is within its limit. -/
  nodes_le : doc.nodes.length ≤ paiJsonMaxNodes
  /-- The arena is within its largest capacity. -/
  arena_le : doc.strs.length ≤ 0x80000000
  /-- Doubling has reached the capacity. -/
  cap : ReachedCap 10 doc.strCap

lemma poolOk_empty : PoolOk emptyDoc := ⟨Nat.zero_le _, Nat.zero_le _, Or.inl rfl⟩

/-- `doc'` is `doc` with a string stored. -/
structure Stored (doc : JsonDoc) (s : List UInt8) (doc' : JsonDoc) : Prop where
  /-- The nodes stay. -/
  nodes : doc'.nodes = doc.nodes
  /-- The string is appended. -/
  strs : doc'.strs = doc.strs ++ (s ++ [0])
  /-- The pool stays well formed. -/
  pool : PoolOk doc'

lemma Stored.length_strs {doc doc' : JsonDoc} {s : List UInt8} (h : Stored doc s doc') :
    doc'.strs.length = doc.strs.length + (s.length + 1) := by
  rw [h.strs, List.length_append, List.length_append, List.length_singleton]

lemma Stored.hasString {doc doc' : JsonDoc} {s : List UInt8} (h : Stored doc s doc') :
    HasString doc'.strs doc.strs.length s := by
  rw [h.strs]
  exact hasString_append _ _

lemma Stored.strs_grow {doc doc' : JsonDoc} {s : List UInt8} (h : Stored doc s doc') :
    doc.strs <+: doc'.strs := by
  rw [h.strs]
  exact List.prefix_append _ _

/-- What `new_str` does when it succeeds. -/
lemma stored_of_newStr {doc doc' : JsonDoc} {s : List UInt8} {idx : ℕ} (hpool : PoolOk doc)
    (h : newStr doc s = .ok (idx, doc')) : idx = doc.strs.length ∧ Stored doc s doc' := by
  unfold newStr at h
  split_ifs at h with hlong
  · cases h
  · dsimp only at h
    split at h
    · cases h
    · next cap hcap =>
      obtain ⟨rfl, rfl⟩ := Prod.mk.inj (Except.ok.inj h)
      obtain ⟨hneed, -, hreached⟩ :=
        (growTo_spec (by decide) hpool.cap (Nat.succ_pos _)).1 cap hcap
      refine ⟨rfl, rfl, rfl, hpool.nodes_le, ?_, hreached⟩
      rw [List.length_append, List.length_append, List.length_singleton]
      exact hneed

/-- `new_str` succeeds while the string and the arena are short enough. -/
lemma newStr_of_fits {doc : JsonDoc} {s : List UInt8} (hpool : PoolOk doc)
    (hlen : s.length ≤ paiJsonMaxString) (hfits : doc.strs.length + (s.length + 1) ≤ 0x80000000) :
    ∃ doc', newStr doc s = .ok (doc.strs.length, doc') ∧ Stored doc s doc' := by
  obtain ⟨cap, hcap⟩ : ∃ cap, growTo 1024 doc.strCap (doc.strs.length + (s.length + 1)) = some cap :=
    (growTo_spec (by decide) hpool.cap (Nat.succ_pos _)).2 hfits
  have hrun : newStr doc s = .ok (doc.strs.length, { doc with
      strs := doc.strs ++ (s ++ [0])
      strCap := cap }) := by
    unfold newStr
    rw [if_neg (not_lt.mpr hlen)]
    dsimp only
    rw [hcap]
  exact ⟨_, hrun, (stored_of_newStr hpool hrun).2⟩

/-- `parse_string` stores the string that a literal denotes. -/
lemma stored_of_parseString {doc doc' : JsonDoc} {rest r : List UInt8} {idx : ℕ} (hpool : PoolOk doc)
    (h : parseString doc rest = .ok (idx, doc', r)) :
    ∃ s, StringLit paiJsonMaxString (34 :: rest) r s ∧ idx = doc.strs.length ∧ Stored doc s doc' := by
  unfold parseString at h
  obtain ⟨⟨s, r'⟩, hloop, h⟩ := bind_eq_ok h
  dsimp only at h
  split_ifs at h with hlong
  · cases h
  · obtain ⟨⟨idx', doc''⟩, hnew, h⟩ := bind_eq_ok h
    cases h
    obtain ⟨us, hchars, rfl⟩ := (stringLoop_iff (by omega)).mp hloop
    obtain ⟨hidx, hstored⟩ := stored_of_newStr hpool hnew
    exact ⟨_, .mk hchars (not_lt.mp hlong), hidx, hstored⟩

/-- `parse_string` reads a string literal while the arena has room. -/
lemma parseString_of_stringLit {doc : JsonDoc} {rest r s : List UInt8} (hpool : PoolOk doc)
    (h : StringLit paiJsonMaxString (34 :: rest) r s)
    (hfits : doc.strs.length + (s.length + 1) ≤ 0x80000000) :
    ∃ doc', parseString doc rest = .ok (doc.strs.length, doc', r) ∧ Stored doc s doc' := by
  cases h with
  | mk hchars hlen =>
    have hloop := (@stringLoop_iff (rest.length + 1) _ _ _ [] (by omega)).mpr ⟨_, hchars, rfl⟩
    obtain ⟨doc', hnew, hstored⟩ := newStr_of_fits hpool hlen hfits
    refine ⟨doc', ?_, hstored⟩
    unfold parseString
    rw [hloop, List.nil_append, ok_bind]
    dsimp only
    rw [if_neg (not_lt.mpr hlen), hnew, ok_bind]

/-! ## Nodes -/

lemma newNode_eq {doc : JsonDoc} (type : JsonType) (h : doc.nodes.length < paiJsonMaxNodes) :
    newNode doc type = .ok (doc.nodes.length, doc.addNode (JsonNode.blank type)) :=
  if_neg (not_le.mpr h)

lemma eq_of_newNode {doc doc' : JsonDoc} {type : JsonType} {i : ℕ} (h : newNode doc type = .ok (i, doc')) :
    doc.nodes.length < paiJsonMaxNodes ∧ i = doc.nodes.length ∧
      doc' = doc.addNode (JsonNode.blank type) := by
  unfold newNode at h
  split_ifs at h with hfull
  · cases h
  · obtain ⟨rfl, rfl⟩ := Prod.mk.inj (Except.ok.inj h)
    exact ⟨not_le.mp hfull, rfl, rfl⟩

@[simp] lemma strs_addNode (doc : JsonDoc) (n : JsonNode) : (doc.addNode n).strs = doc.strs := rfl

@[simp] lemma nodes_addNode (doc : JsonDoc) (n : JsonNode) :
    (doc.addNode n).nodes = doc.nodes ++ [n] := rfl

lemma length_addNode (doc : JsonDoc) (n : JsonNode) :
    (doc.addNode n).nodes.length = doc.nodes.length + 1 := by
  rw [nodes_addNode, List.length_append, List.length_singleton]

section Modify

variable (doc : JsonDoc) (i : ℕ) (f : JsonNode → JsonNode)

@[simp] lemma length_modify : (doc.modify i f).nodes.length = doc.nodes.length :=
  List.length_modify ..

@[simp] lemma strs_modify : (doc.modify i f).strs = doc.strs := rfl

lemma getElem?_modify_self : (doc.modify i f).nodes[i]? = (doc.nodes[i]?).map f := by
  rw [JsonDoc.modify, List.getElem?_modify_eq]
  rfl

lemma getElem?_modify_of_ne {k : ℕ} (h : k ≠ i) : (doc.modify i f).nodes[k]? = doc.nodes[k]? :=
  List.getElem?_modify_ne f _ h.symm

end Modify

lemma PoolOk.modify {doc : JsonDoc} (h : PoolOk doc) (i : ℕ) (f : JsonNode → JsonNode) :
    PoolOk (doc.modify i f) :=
  ⟨by rw [length_modify]; exact h.nodes_le, h.arena_le, h.cap⟩

/-- From the sibling `i` the links lead to the last sibling. -/
inductive Walk (nodes : List JsonNode) : ℕ → ℕ → Prop
  | last {i : ℕ} {n : JsonNode} (hn : nodes[i]? = some n) (hnext : n.next = none) : Walk nodes i i
  | step {i k last : ℕ} {n : JsonNode} (hn : nodes[i]? = some n) (hnext : n.next = some k)
      (hlt : i < k) (h : Walk nodes k last) : Walk nodes i last

namespace Walk

variable {nodes nodes' : List JsonNode} {i last : ℕ}

lemma le (h : Walk nodes i last) : i ≤ last := by
  induction h with
  | last => exact le_rfl
  | step _ _ hlt _ ih => omega

lemma lt_length (h : Walk nodes i last) : last < nodes.length := by
  induction h with
  | last hn => exact (List.getElem?_eq_some_iff.mp hn).1
  | step _ _ _ _ ih => exact ih

/-- The walk sees the nodes up to the last sibling only. -/
lemma frame (h : Walk nodes i last) (hnodes : ∀ k < nodes.length, nodes'[k]? = nodes[k]?) :
    Walk nodes' i last := by
  induction h with
  | last hn hnext =>
    exact .last ((hnodes _ (List.getElem?_eq_some_iff.mp hn).1).trans hn) hnext
  | step hn hnext hlt _ ih =>
    exact .step ((hnodes _ (List.getElem?_eq_some_iff.mp hn).1).trans hn) hnext hlt ih

/-- A new last sibling. -/
lemma append {c : ℕ} {n : JsonNode} (h : Walk nodes i last) (hc : last < c)
    (hnodes : ∀ k < last, nodes'[k]? = nodes[k]?)
    (hlast : nodes'[last]? = (nodes[last]?).map fun n => { n with next := some c })
    (hnew : nodes'[c]? = some n) (hnext : n.next = none) : Walk nodes' i c := by
  induction h with
  | last hn _ =>
    rw [hn] at hlast
    exact .step hlast rfl hc (.last hnew hnext)
  | @step i k last n' hn hnext' hlt h ih =>
    have := h.le
    exact .step ((hnodes _ (by omega)).trans hn) hnext' hlt (ih hc hnodes hlast)

end Walk

lemma lastSibling_eq {doc : JsonDoc} {i last fuel : ℕ} (h : Walk doc.nodes i last)
    (hfuel : last ≤ i + fuel) : lastSibling doc fuel i = last := by
  induction fuel generalizing i with
  | zero => exact le_antisymm h.le hfuel
  | succ fuel ih =>
    rw [lastSibling]
    cases h with
    | last hn hnext =>
      simp only [hn, Option.bind_some, hnext]
    | step hn hnext hlt h =>
      simp only [hn, Option.bind_some, hnext]
      exact ih h (by omega)

/-- The last child of a node, if it has children. -/
def Tail (doc : JsonDoc) (node : ℕ) : Option ℕ → Prop
  | none => ∃ n, doc.nodes[node]? = some n ∧ n.firstChild = none
  | some last => ∃ n first, doc.nodes[node]? = some n ∧ n.firstChild = some first ∧ node < first ∧
      Walk doc.nodes first last

/-- The link to a new child `c`: behind the last child, or from the parent. -/
def linkNode (tail : Option ℕ) (c : ℕ) (n : JsonNode) : JsonNode :=
  match tail with
  | none => { n with firstChild := some c }
  | some _ => { n with next := some c }

namespace Tail

variable {doc doc' : JsonDoc} {node : ℕ} {tail : Option ℕ}

lemma frame (h : Tail doc node tail) (hnodes : ∀ k < doc.nodes.length, doc'.nodes[k]? = doc.nodes[k]?) :
    Tail doc' node tail := by
  cases tail with
  | none =>
    obtain ⟨n, hn, hfirst⟩ := h
    exact ⟨n, (hnodes _ (List.getElem?_eq_some_iff.mp hn).1).trans hn, hfirst⟩
  | some last =>
    obtain ⟨n, first, hn, hfirst, hlt, hwalk⟩ := h
    exact ⟨n, first, (hnodes _ (List.getElem?_eq_some_iff.mp hn).1).trans hn, hfirst, hlt,
      hwalk.frame hnodes⟩

/-- The node that gets the link is in the pool. -/
lemma lt_length (h : Tail doc node tail) : tail.getD node < doc.nodes.length := by
  cases tail with
  | none =>
    obtain ⟨n, hn, -⟩ := h
    exact (List.getElem?_eq_some_iff.mp hn).1
  | some last =>
    obtain ⟨n, first, -, -, -, hwalk⟩ := h
    exact hwalk.lt_length

/-- `append_child` links the child behind the last one. -/
lemma appendChild_eq (h : Tail doc node tail) (c : ℕ) :
    appendChild doc node c = doc.modify (tail.getD node) (linkNode tail c) := by
  cases tail with
  | none =>
    obtain ⟨n, hn, hfirst⟩ := h
    simp only [appendChild, hn, Option.bind_some, hfirst]
    rfl
  | some last =>
    obtain ⟨n, first, hn, hfirst, hlt, hwalk⟩ := h
    have hlast : lastSibling doc doc.nodes.length first = last :=
      lastSibling_eq hwalk (by have := hwalk.lt_length; omega)
    simp only [appendChild, hn, Option.bind_some, hfirst, hlast]
    rfl

/-- Behind `append_child` the new child is the last one. -/
lemma append (h : Tail doc node tail) {c : ℕ} {n : JsonNode} (hc : doc.nodes[c]? = some n)
    (hnext : n.next = none) (hlt : node < c) (htail : tail.getD node < c) :
    Tail (doc.modify (tail.getD node) (linkNode tail c)) node (some c) := by
  cases tail with
  | none =>
    obtain ⟨p, hp, hfirst⟩ := h
    refine ⟨linkNode none c p, c, ?_, rfl, hlt, .last ?_ hnext⟩
    · rw [Option.getD_none, getElem?_modify_self, hp]
      rfl
    · rw [Option.getD_none, getElem?_modify_of_ne _ _ _ (by omega), hc]
  | some last =>
    obtain ⟨p, first, hp, hfirst, hfirstLt, hwalk⟩ := h
    have := hwalk.le
    rw [Option.getD_some] at htail ⊢
    refine ⟨p, first, ?_, hfirst, hfirstLt, hwalk.append htail (fun k hk => ?_) ?_ ?_ hnext⟩
    · rw [getElem?_modify_of_ne _ _ _ (by omega), hp]
    · rw [getElem?_modify_of_ne _ _ _ (by omega)]
    · rw [getElem?_modify_self]
      rfl
    · rw [getElem?_modify_of_ne _ _ _ (by omega), hc]

end Tail

/-! ## What the parser builds -/

/-- Parsing a value took the pool from `doc` to `doc'`. -/
structure ValueBuilt (doc doc' : JsonDoc) (i : ℕ) (j : Json) : Prop where
  /-- The root of the value is the first new node. -/
  index : i = doc.nodes.length
  /-- Number of nodes. -/
  count : doc'.nodes.length = doc.nodes.length + j.nodes
  /-- The nodes that were there stay. -/
  old : ∀ k < doc.nodes.length, doc'.nodes[k]? = doc.nodes[k]?
  /-- The strings that were there stay. -/
  strs_grow : doc.strs <+: doc'.strs
  /-- Size of the arena. -/
  bytes : doc'.strs.length = doc.strs.length + j.stringBytes
  /-- The pool stays well formed. -/
  pool : PoolOk doc'
  /-- The value, which has no key and no sibling yet. -/
  value : ∃ n, doc'.nodes[doc.nodes.length]? = some n ∧ n.key = none ∧ n.next = none ∧
    HoldsValue doc' n doc.nodes.length j

/-- Parsing children of `node`, whose last child was `tail`, took the pool from `doc` to `doc'`. -/
structure ItemsBuilt (doc doc' : JsonDoc) (node : ℕ) (tail : Option ℕ)
    (kids : List (Option (List UInt8) × Json)) : Prop where
  /-- There are children. -/
  nonempty : kids ≠ []
  /-- Number of nodes. -/
  count : doc'.nodes.length = doc.nodes.length + nodesOfKids kids
  /-- The nodes that were there stay, but for the link to the first of the children. -/
  old : ∀ k < doc.nodes.length, doc'.nodes[k]? =
    if k = tail.getD node then (doc.nodes[k]?).map (linkNode tail doc.nodes.length)
    else doc.nodes[k]?
  /-- The strings that were there stay. -/
  strs_grow : doc.strs <+: doc'.strs
  /-- Size of the arena. -/
  bytes : doc'.strs.length = doc.strs.length + bytesOfKids kids
  /-- The pool stays well formed. -/
  pool : PoolOk doc'
  /-- The children. -/
  kids : HoldsKids doc' doc.nodes.length kids

/-- A value in one node `n` of the pool. -/
lemma valueBuilt_leaf {doc doc' : JsonDoc} {n : JsonNode} {j : Json}
    (hnodes : doc'.nodes = doc.nodes ++ [n]) (hcount : j.nodes = 1) (hgrow : doc.strs <+: doc'.strs)
    (hbytes : doc'.strs.length = doc.strs.length + j.stringBytes) (hpool : PoolOk doc')
    (hkey : n.key = none) (hnext : n.next = none) (hvalue : HoldsValue doc' n doc.nodes.length j) :
    ValueBuilt doc doc' doc.nodes.length j where
  index := rfl
  count := by rw [hnodes, List.length_append, List.length_singleton, hcount]
  old k hk := by rw [hnodes, List.getElem?_append_left hk]
  strs_grow := hgrow
  bytes := hbytes
  pool := hpool
  value := ⟨n, by rw [hnodes, List.getElem?_concat_length], hkey, hnext, hvalue⟩

/-- The pool with one node more is well formed. -/
lemma PoolOk.addNode {doc : JsonDoc} (h : PoolOk doc) (hroom : doc.nodes.length < paiJsonMaxNodes)
    (n : JsonNode) : PoolOk (doc.addNode n) := by
  refine ⟨?_, h.arena_le, h.cap⟩
  rw [length_addNode]
  exact hroom

/-- A container is its node and its children. -/
lemma ItemsBuilt.container {doc doc' : JsonDoc} {isObject : Bool}
    {kids : List (Option (List UInt8) × Json)}
    (h : ItemsBuilt (doc.addNode (JsonNode.blank (containerType isObject))) doc' doc.nodes.length none
      kids) :
    ValueBuilt doc doc' doc.nodes.length (.container isObject kids) := by
  have hlen := length_addNode doc (JsonNode.blank (containerType isObject))
  have hold := h.old
  simp only [hlen, Option.getD_none] at hold
  simp only [nodes_addNode] at hold
  refine ⟨rfl, ?_, fun k hk => ?_, h.strs_grow, ?_, h.pool, ?_⟩
  · rw [h.count, Json.nodes, hlen]
    omega
  · rw [hold k (by omega), if_neg (by omega), List.getElem?_append_left hk]
  · rw [h.bytes, Json.stringBytes, strs_addNode]
  · refine ⟨linkNode none (doc.nodes.length + 1) (JsonNode.blank (containerType isObject)), ?_, rfl,
      rfl, ?_⟩
    · rw [hold _ (by omega), if_pos rfl, List.getElem?_concat_length]
      rfl
    · rw [HoldsValue]
      refine ⟨rfl, ?_, ?_⟩
      · match kids, h.nonempty with
        | _ :: _, _ => rfl
      · have hkids := h.kids
        rw [hlen] at hkids
        exact hkids

/-- The node of a value after the key of the member has been stored in it. -/
lemma ValueBuilt.setKey {doc doc' : JsonDoc} {c : ℕ} {j : Json} (h : ValueBuilt doc doc' c j)
    {isObject : Bool} {off : Option ℕ} (hoff : isObject = false → off = none) {doc'' : JsonDoc}
    (heq : doc'' = if isObject then doc'.modify c fun n => { n with key := off } else doc') :
    doc''.nodes.length = doc'.nodes.length ∧ doc''.strs = doc'.strs ∧ PoolOk doc'' ∧
      (∀ k, k ≠ c → doc''.nodes[k]? = doc'.nodes[k]?) ∧
      ∃ n, doc''.nodes[c]? = some n ∧ n.key = off ∧ n.next = none ∧ HoldsValue doc' n c j := by
  obtain ⟨n, hn, hkey, hnext, hvalue⟩ := h.value
  rw [← h.index] at hn hvalue
  cases isObject with
  | false =>
    rw [if_neg Bool.false_ne_true] at heq
    subst heq
    exact ⟨rfl, rfl, h.pool, fun _ _ => rfl, n, hn, by rw [hkey, hoff rfl], hnext, hvalue⟩
  | true =>
    rw [if_pos rfl] at heq
    subst heq
    refine ⟨length_modify _ _ _, rfl, h.pool.modify _ _,
      fun k hk => getElem?_modify_of_ne _ _ _ hk, { n with key := off }, ?_, rfl, hnext,
      hvalue.congr rfl⟩
    rw [getElem?_modify_self, hn]
    rfl

lemma Tail.node_lt {doc : JsonDoc} {node : ℕ} {tail : Option ℕ} (h : Tail doc node tail) :
    node < doc.nodes.length := by
  cases tail with
  | none => exact h.lt_length
  | some last =>
    obtain ⟨n, first, hn, -⟩ := h
    exact (List.getElem?_eq_some_iff.mp hn).1

/-- One pass through the children loop adds a child. -/
lemma ValueBuilt.item {doc doc₀ doc₁ doc₂ : JsonDoc} {node c : ℕ} {tail off : Option ℕ}
    {isObject : Bool} {key : Option (List UInt8)} {j : Json} (h : ValueBuilt doc₀ doc₁ c j)
    (htail : Tail doc node tail) (hnodes : doc₀.nodes = doc.nodes) (hgrow : doc.strs <+: doc₀.strs)
    (hbytes : doc₀.strs.length = doc.strs.length + keyBytes key) (hkey : HasKey doc₀.strs off key)
    (hoff : isObject = false → off = none)
    (heq : doc₂ = if isObject then doc₁.modify c fun n => { n with key := off } else doc₁) :
    ItemsBuilt doc (appendChild doc₂ node c) node tail [(key, j)] ∧
      Tail (appendChild doc₂ node c) node (some c) := by
  obtain ⟨hlen, hstrs, hpool, hframe, n, hn, hnkey, hnext, hvalue⟩ := h.setKey hoff heq
  have hc : c = doc.nodes.length := by rw [h.index, hnodes]
  have hlt := htail.lt_length
  have hold : ∀ k < doc.nodes.length, doc₂.nodes[k]? = doc.nodes[k]? := by
    intro k hk
    rw [hframe k (by omega), h.old k (by rw [hnodes]; exact hk), hnodes]
  have htail₂ := htail.frame hold
  rw [htail₂.appendChild_eq]
  refine ⟨⟨List.cons_ne_nil _ _, ?_, fun k hk => ?_, ?_, ?_, hpool.modify _ _, ?_⟩,
    htail₂.append hn hnext (by have := htail.node_lt; omega) (by omega)⟩
  · rw [length_modify, hlen, h.count, hnodes, nodesOfKids, nodesOfKid, nodesOfKids, Nat.add_zero]
  · by_cases hk' : k = tail.getD node
    · subst hk'
      rw [if_pos rfl, getElem?_modify_self, hold _ hk, hc]
    · rw [if_neg hk', getElem?_modify_of_ne _ _ _ hk', hold k hk]
  · rw [strs_modify, hstrs]
    exact hgrow.trans h.strs_grow
  · rw [strs_modify, hstrs, h.bytes, hbytes, bytesOfKids, bytesOfKid, bytesOfKids]
    omega
  · rw [HoldsKids, HoldsKids, HoldsKid, ← hc]
    refine ⟨⟨n, ?_, ?_, hnext, hvalue.frame (fun k hlo _ => ?_) ?_⟩, trivial⟩
    · rw [getElem?_modify_of_ne _ _ _ (by omega), hn]
    · rw [strs_modify, hstrs, hnkey]
      exact hkey.mono h.strs_grow
    · rw [getElem?_modify_of_ne _ _ _ (by omega), hframe k (by omega)]
    · rw [strs_modify, hstrs]

/-- Further children behind a child. -/
lemma ItemsBuilt.cons {doc doc₁ doc' : JsonDoc} {node : ℕ} {tail : Option ℕ}
    {kid : Option (List UInt8) × Json} {kids : List (Option (List UInt8) × Json)}
    (h : ItemsBuilt doc doc₁ node tail [kid])
    (hmore : ItemsBuilt doc₁ doc' node (some doc.nodes.length) kids) :
    ItemsBuilt doc doc' node tail (kid :: kids) := by
  have hlen : doc₁.nodes.length = doc.nodes.length + nodesOfKid kid := by
    rw [h.count, nodesOfKids, nodesOfKids, Nat.add_zero]
  have hold : ∀ k < doc₁.nodes.length, k ≠ doc.nodes.length → doc'.nodes[k]? = doc₁.nodes[k]? := by
    intro k hk hne
    rw [hmore.old k hk, Option.getD_some, if_neg hne]
  refine ⟨List.cons_ne_nil _ _, ?_, fun k hk => ?_, h.strs_grow.trans hmore.strs_grow, ?_,
    hmore.pool, ?_⟩
  · rw [hmore.count, hlen, nodesOfKids]
    omega
  · rw [hold k (by omega) (by omega), h.old k hk]
  · rw [hmore.bytes, h.bytes, bytesOfKids, bytesOfKids, bytesOfKids]
    omega
  · have hkid := h.kids
    rw [HoldsKids, HoldsKids] at hkid
    rw [HoldsKids]
    refine ⟨?_, ?_⟩
    · obtain ⟨key, v⟩ := kid
      obtain ⟨⟨n, hn, hkey, -, hvalue⟩, -⟩ := hkid
      rw [nodesOfKid] at hlen ⊢
      have hmem := (List.getElem?_eq_some_iff.mp hn).1
      refine ⟨{ n with next := some doc₁.nodes.length }, ?_, hkey.mono hmore.strs_grow, ?_, ?_⟩
      · rw [hmore.old _ hmem, Option.getD_some, if_pos rfl, hn]
        rfl
      · rw [← hlen]
        match kids, hmore.nonempty with
        | _ :: _, _ => rfl
      · exact (hvalue.congr rfl).frame (fun k hlo hhi => hold k (by omega) (by omega))
          hmore.strs_grow
    · rw [← hlen]
      exact hmore.kids

end Prospero
