import Mathlib.Tactic.Common
import Mathlib.Data.List.Basic

/-!
# The JSON grammar

The grammar of RFC 8259 over bytes, as relations between the bytes in front of a phrase and the bytes
behind it, with the document the phrase denotes.  Bytes from `0x20` on stand for themselves in a string;
a surrogate that has no partner denotes the replacement character.

A `Dialect` fixes the limits of a reader: the longest string, the largest decimal exponent, and whether
whitespace may stand between a comma of an object and the next key (`gap`, which the grammar of the
RFC allows).  The nesting depth is an index of the relation.
-/

namespace Rfc8259

/-- A document.  The children of an array have no key. -/
inductive Json where
  | null
  | bool (b : Bool)
  | number
  | string (s : List UInt8)
  | container (isObject : Bool) (kids : List (Option (List UInt8) × Json))

mutual

/-- The number of values in a document. -/
def Json.nodes : Json → ℕ
  | .container _ kids => 1 + nodesOfKids kids
  | _ => 1

/-- The number of values in the children of a document. -/
def nodesOfKids : List (Option (List UInt8) × Json) → ℕ
  | [] => 0
  | kid :: kids => nodesOfKid kid + nodesOfKids kids

/-- The number of values in a child. -/
def nodesOfKid : Option (List UInt8) × Json → ℕ
  | (_, v) => v.nodes

end

/-- The bytes of a key, with a terminator. -/
def keyBytes : Option (List UInt8) → ℕ
  | some key => key.length + 1
  | none => 0

mutual

/-- The bytes of all strings and keys of a document, with a terminator each. -/
def Json.stringBytes : Json → ℕ
  | .string s => s.length + 1
  | .container _ kids => bytesOfKids kids
  | _ => 0

/-- The bytes of all strings and keys of the children of a document. -/
def bytesOfKids : List (Option (List UInt8) × Json) → ℕ
  | [] => 0
  | kid :: kids => bytesOfKid kid + bytesOfKids kids

/-- The bytes of all strings and keys of a child. -/
def bytesOfKid : Option (List UInt8) × Json → ℕ
  | (key, v) => keyBytes key + v.stringBytes

end

/-- The limits of a reader. -/
structure Dialect where
  /-- Whitespace may stand between a comma of an object and the next key. -/
  gap : Bool
  /-- Longest string. -/
  maxString : ℕ
  /-- Largest decimal exponent. -/
  maxExponent : ℕ

/-! ## Whitespace and numbers -/

/-- Whitespace. -/
abbrev isWs (c : UInt8) : Prop := c = 32 ∨ c = 9 ∨ c = 10 ∨ c = 13

/-- A run of whitespace. -/
inductive Ws : List UInt8 → List UInt8 → Prop
  | nil {r : List UInt8} : Ws r r
  | cons {c : UInt8} {t r : List UInt8} (hc : isWs c) (h : Ws t r) : Ws (c :: t) r

lemma Ws.trans {t r s : List UInt8} (h : Ws t r) (h' : Ws r s) : Ws t s := by
  induction h with
  | nil => exact h'
  | cons hc _ ih => exact .cons hc (ih h')

/-- A decimal digit. -/
abbrev isDigit (c : UInt8) : Prop := 48 ≤ c ∧ c ≤ 57

/-- A run of digits behind digits of value `v`; all of them have the value `w`. -/
inductive Digits : List UInt8 → List UInt8 → ℕ → ℕ → Prop
  | nil {r : List UInt8} {v : ℕ} : Digits r r v v
  | cons {c : UInt8} {t r : List UInt8} {v w : ℕ} (hc : isDigit c)
      (h : Digits t r (v * 10 + (c.toNat - 48)) w) : Digits (c :: t) r v w

/-- Further digits do not make a number smaller. -/
lemma Digits.le {t r : List UInt8} {v w : ℕ} (h : Digits t r v w) : v ≤ w := by
  induction h with
  | nil => exact Nat.le_refl _
  | cons _ _ ih => omega

/-- `int`. -/
inductive IntPart : List UInt8 → List UInt8 → Prop
  | zero {r : List UInt8} : IntPart (48 :: r) r
  | digits {c : UInt8} {t r : List UInt8} {v w : ℕ} (hc : isDigit c) (hne : c ≠ 48)
      (h : Digits t r v w) : IntPart (c :: t) r

/-- `[ frac ]`. -/
inductive FracPart : List UInt8 → List UInt8 → Prop
  | absent {r : List UInt8} : FracPart r r
  | present {c : UInt8} {t r : List UInt8} {v w : ℕ} (hc : isDigit c) (h : Digits t r v w) :
      FracPart (46 :: c :: t) r

/-- `[ minus / plus ]`. -/
inductive ExpSign : List UInt8 → List UInt8 → Prop
  | absent {r : List UInt8} : ExpSign r r
  | present {c : UInt8} {r : List UInt8} (hc : c = 43 ∨ c = 45) : ExpSign (c :: r) r

/-- `[ exp ]`. -/
inductive ExpPart (maxExponent : ℕ) : List UInt8 → List UInt8 → Prop
  | absent {r : List UInt8} : ExpPart maxExponent r r
  | present {e c : UInt8} {t u r : List UInt8} {v : ℕ} (he : e = 101 ∨ e = 69)
      (hsign : ExpSign t (c :: u)) (hc : isDigit c) (h : Digits (c :: u) r 0 v)
      (hv : v ≤ maxExponent) : ExpPart maxExponent (e :: t) r

/-- `[ minus ]`. -/
inductive Minus : List UInt8 → List UInt8 → Prop
  | absent {r : List UInt8} : Minus r r
  | present {r : List UInt8} : Minus (45 :: r) r

/-- `number`. -/
def Number (maxExponent : ℕ) (before after : List UInt8) : Prop :=
  ∃ int frac exp, Minus before int ∧ IntPart int frac ∧ FracPart frac exp ∧
    ExpPart maxExponent exp after

/-! ## Strings -/

/-- The value of a hexadecimal digit. -/
def HexDigit (c : UInt8) (v : ℕ) : Prop :=
  (48 ≤ c ∧ c ≤ 57 ∧ v = c.toNat - 48) ∨ (97 ≤ c ∧ c ≤ 102 ∧ v = c.toNat - 87) ∨
    (65 ≤ c ∧ c ≤ 70 ∧ v = c.toNat - 55)

/-- The characters behind a backslash and what they stand for. -/
def escapes : List (UInt8 × UInt8) :=
  [(34, 34), (92, 92), (47, 47), (98, 8), (102, 12), (110, 10), (114, 13), (116, 9)]

/-- A character of a string literal: a byte, or a UTF-16 code unit. -/
inductive StringUnit where
  | byte (b : UInt8)
  | unit (u : ℕ)

/-- The characters of a string literal. -/
inductive Chars : List UInt8 → List UInt8 → List StringUnit → Prop
  | nil {r : List UInt8} : Chars r r []
  | raw {c : UInt8} {t r : List UInt8} {us : List StringUnit} (hlo : 32 ≤ c) (hquote : c ≠ 34)
      (hback : c ≠ 92) (h : Chars t r us) : Chars (c :: t) r (.byte c :: us)
  | escape {c b : UInt8} {t r : List UInt8} {us : List StringUnit} (hc : (c, b) ∈ escapes)
      (h : Chars t r us) : Chars (92 :: c :: t) r (.byte b :: us)
  | unicode {a b c d : UInt8} {p q v w : ℕ} {t r : List UInt8} {us : List StringUnit}
      (ha : HexDigit a p) (hb : HexDigit b q) (hc : HexDigit c v) (hd : HexDigit d w)
      (h : Chars t r us) :
      Chars (92 :: 117 :: a :: b :: c :: d :: t) r (.unit (((p * 16 + q) * 16 + v) * 16 + w) :: us)

/-- The bytes of a code point in UTF-8. -/
def utf8 (u : ℕ) : List UInt8 :=
  if u < 0x80 then [UInt8.ofNat u]
  else if u < 0x800 then [UInt8.ofNat (0xC0 + u / 0x40), UInt8.ofNat (0x80 + u % 0x40)]
  else if u < 0x10000 then
    [UInt8.ofNat (0xE0 + u / 0x1000), UInt8.ofNat (0x80 + u / 0x40 % 0x40),
      UInt8.ofNat (0x80 + u % 0x40)]
  else
    [UInt8.ofNat (0xF0 + u / 0x40000), UInt8.ofNat (0x80 + u / 0x1000 % 0x40),
      UInt8.ofNat (0x80 + u / 0x40 % 0x40), UInt8.ofNat (0x80 + u % 0x40)]

/-- A high surrogate. -/
abbrev isHigh (u : ℕ) : Prop := 0xD800 ≤ u ∧ u ≤ 0xDBFF

/-- A low surrogate. -/
abbrev isLow (u : ℕ) : Prop := 0xDC00 ≤ u ∧ u ≤ 0xDFFF

/-- The bytes of a code unit that is no part of a surrogate pair. -/
def loneUnit (u : ℕ) : List UInt8 := utf8 (if isHigh u ∨ isLow u then 0xFFFD else u)

/-- The code point of a surrogate pair. -/
def pairPoint (u v : ℕ) : ℕ := 0x10000 + (u - 0xD800) * 0x400 + (v - 0xDC00)

/-- The bytes a string literal denotes. -/
def decodeUnits : List StringUnit → List UInt8
  | [] => []
  | .byte b :: us => b :: decodeUnits us
  | .unit u :: .unit v :: us =>
    if isHigh u ∧ isLow v then utf8 (pairPoint u v) ++ decodeUnits us
    else loneUnit u ++ decodeUnits (.unit v :: us)
  | .unit u :: us => loneUnit u ++ decodeUnits us

/-- `string`: a string literal and its bytes. -/
inductive StringLit (maxString : ℕ) : List UInt8 → List UInt8 → List UInt8 → Prop
  | mk {t r : List UInt8} {us : List StringUnit} (h : Chars t (34 :: r) us)
      (hlen : (decodeUnits us).length ≤ maxString) :
      StringLit maxString (34 :: t) r (decodeUnits us)

/-! ## Values -/

/-- The phrases of the grammar. -/
inductive Phrase where
  /-- A value. -/
  | value
  /-- The children of a container, with the closing bracket. -/
  | items (isObject : Bool)

/-- What a phrase denotes. -/
@[reducible] def Phrase.Out : Phrase → Type
  | .value => Json
  | .items _ => List (Option (List UInt8) × Json)

/-- The opening bracket of a container. -/
def opening (isObject : Bool) : UInt8 := if isObject then 123 else 91

/-- The closing bracket of a container. -/
def closing (isObject : Bool) : UInt8 := if isObject then 125 else 93

/-- What stands in front of a child: its key and a colon in an object, nothing in an array. -/
inductive Key (maxString : ℕ) : Bool → List UInt8 → List UInt8 → Option (List UInt8) → Prop
  | absent {r : List UInt8} : Key maxString false r r none
  | present {t u v r : List UInt8} {key : List UInt8} (hkey : StringLit maxString t u key)
      (hbefore : Ws u (58 :: v)) (hafter : Ws v r) : Key maxString true t r (some key)

/-- The phrases with at most `n` values inside one another. -/
inductive Derives (d : Dialect) :
    (k : Phrase) → ℕ → List UInt8 → List UInt8 → k.Out → Prop
  | null {n : ℕ} {r : List UInt8} : Derives d .value (n + 1) (110 :: 117 :: 108 :: 108 :: r) r Json.null
  | isTrue {n : ℕ} {r : List UInt8} :
      Derives d .value (n + 1) (116 :: 114 :: 117 :: 101 :: r) r (Json.bool true)
  | isFalse {n : ℕ} {r : List UInt8} :
      Derives d .value (n + 1) (102 :: 97 :: 108 :: 115 :: 101 :: r) r (Json.bool false)
  | number {n : ℕ} {t r : List UInt8} (h : Number d.maxExponent t r) :
      Derives d .value (n + 1) t r Json.number
  | string {n : ℕ} {t r s : List UInt8} (h : StringLit d.maxString t r s) :
      Derives d .value (n + 1) t r (Json.string s)
  | empty {n : ℕ} {isObject : Bool} {t r : List UInt8} (h : Ws t (closing isObject :: r)) :
      Derives d .value (n + 1) (opening isObject :: t) r (Json.container isObject [])
  | container {n : ℕ} {isObject : Bool} {t u r : List UInt8}
      {kids : List (Option (List UInt8) × Json)} (hws : Ws t u)
      (h : Derives d (.items isObject) n u r kids) :
      Derives d .value (n + 1) (opening isObject :: t) r (Json.container isObject kids)
  | last {n : ℕ} {isObject : Bool} {t u v r : List UInt8} {key : Option (List UInt8)} {j : Json}
      (hkey : Key d.maxString isObject t u key) (hvalue : Derives d .value n u v j)
      (hws : Ws v (closing isObject :: r)) : Derives d (.items isObject) n t r [(key, j)]
  | more {n : ℕ} {isObject : Bool} {t u v w x r : List UInt8} {key : Option (List UInt8)} {j : Json}
      {kids : List (Option (List UInt8) × Json)}
      (hkey : Key d.maxString isObject t u key) (hvalue : Derives d .value n u v j)
      (hws : Ws v (44 :: w)) (hnext : Ws w x)
      (hgap : d.gap = true ∨ isObject = false ∨ x = w) (h : Derives d (.items isObject) n x r kids) :
      Derives d (.items isObject) n t r ((key, j) :: kids)

/-- `JSON-text`: a value with whitespace around it. -/
def Text (d : Dialect) (depth : ℕ) (text : List UInt8) (j : Json) : Prop :=
  ∃ t u, Ws text t ∧ Derives d .value depth t u j ∧ Ws u []

/-! ## Phrases consume bytes -/

lemma Ws.length_le {t r : List UInt8} (h : Ws t r) : r.length ≤ t.length := by
  induction h with
  | nil => exact Nat.le_refl _
  | cons _ _ ih => exact Nat.le_succ_of_le ih

lemma Digits.length_le {t r : List UInt8} {v w : ℕ} (h : Digits t r v w) : r.length ≤ t.length := by
  induction h with
  | nil => exact Nat.le_refl _
  | cons _ _ ih => exact Nat.le_succ_of_le ih

lemma Number.length_lt {e : ℕ} {t r : List UInt8} (h : Number e t r) : r.length < t.length := by
  obtain ⟨int, frac, exp, hminus, hint, hfrac, hexp⟩ := h
  have h1 : int.length ≤ t.length := by
    cases hminus with
    | absent => exact Nat.le_refl _
    | present => exact Nat.le_succ _
  have h2 : frac.length < int.length := by
    cases hint with
    | zero => exact Nat.lt_succ_self _
    | digits _ _ h => exact Nat.lt_succ_of_le h.length_le
  have h3 : exp.length ≤ frac.length := by
    cases hfrac with
    | absent => exact Nat.le_refl _
    | present _ h => exact Nat.le_succ_of_le (Nat.le_succ_of_le h.length_le)
  have h4 : r.length ≤ exp.length := by
    cases hexp with
    | absent => exact Nat.le_refl _
    | present _ hsign _ h _ =>
      have := h.length_le
      cases hsign with
      | absent => exact Nat.le_succ_of_le this
      | present _ => exact Nat.le_succ_of_le (Nat.le_succ_of_le this)
  omega

lemma Chars.length_le {t r : List UInt8} {us : List StringUnit} (h : Chars t r us) :
    r.length ≤ t.length := by
  induction h with
  | nil => exact Nat.le_refl _
  | raw _ _ _ _ ih | escape _ _ ih | unicode _ _ _ _ _ ih =>
    simp only [List.length_cons]
    omega

lemma StringLit.length_lt {m : ℕ} {t r s : List UInt8} (h : StringLit m t r s) :
    r.length < t.length := by
  cases h with
  | mk h _ =>
    have := h.length_le
    rw [List.length_cons] at this ⊢
    omega

lemma Key.length_le {m : ℕ} {isObject : Bool} {t r : List UInt8} {key : Option (List UInt8)}
    (h : Key m isObject t r key) : r.length ≤ t.length := by
  cases h with
  | absent => exact Nat.le_refl _
  | present hkey hbefore hafter =>
    have h1 := hkey.length_lt
    have h2 := hbefore.length_le
    have h3 := hafter.length_le
    rw [List.length_cons] at h2
    omega

lemma Derives.length_lt {d : Dialect} {k : Phrase} {n : ℕ} {t r : List UInt8} {out : k.Out}
    (h : Derives d k n t r out) : r.length < t.length := by
  induction h with
  | null | isTrue | isFalse =>
    simp only [List.length_cons]
    omega
  | number h => exact h.length_lt
  | string h => exact h.length_lt
  | empty h =>
    have := h.length_le
    rw [List.length_cons] at this ⊢
    omega
  | container hws _ ih =>
    have := hws.length_le
    rw [List.length_cons]
    omega
  | last hkey _ hws ih =>
    have h1 := hkey.length_le
    have h2 := hws.length_le
    rw [List.length_cons] at h2
    omega
  | more hkey _ hws hnext _ _ ih ih' =>
    have h1 := hkey.length_le
    have h2 := hws.length_le
    have h3 := hnext.length_le
    rw [List.length_cons] at h2
    omega

/-! ## How phrases start -/

/-- The bytes do not start with whitespace. -/
def NoWs (r : List UInt8) : Prop := ∀ c ∈ r.head?, ¬ isWs c

lemma noWs_cons {c : UInt8} {r : List UInt8} (h : ¬ isWs c) : NoWs (c :: r) := by
  intro d hd
  cases hd
  exact h

lemma Number.head {e : ℕ} {t r : List UInt8} (h : Number e t r) :
    ∃ c u, t = c :: u ∧ (c = 45 ∨ isDigit c) := by
  obtain ⟨int, frac, exp, hminus, hint, -, -⟩ := h
  cases hminus with
  | present => exact ⟨45, _, rfl, Or.inl rfl⟩
  | absent =>
    cases hint with
    | zero => exact ⟨48, _, rfl, Or.inr (by decide)⟩
    | digits hc => exact ⟨_, _, rfl, Or.inr hc⟩

lemma not_isWs_of_digit {c : UInt8} (h : isDigit c) : ¬ isWs c := by
  rintro (rfl | rfl | rfl | rfl) <;> exact absurd h.1 (by decide)

/-- No phrase starts with whitespace. -/
lemma Derives.noWs {d : Dialect} {k : Phrase} {n : ℕ} {t r : List UInt8} {out : k.Out}
    (h : Derives d k n t r out) : NoWs t := by
  induction h with
  | null | isTrue | isFalse => exact noWs_cons (by decide)
  | number h =>
    obtain ⟨c, u, rfl, rfl | hc⟩ := h.head
    · exact noWs_cons (by decide)
    · exact noWs_cons (not_isWs_of_digit hc)
  | string h =>
    cases h with
    | mk _ _ => exact noWs_cons (by decide)
  | @empty _ isObject _ _ h => cases isObject <;> exact noWs_cons (by decide)
  | @container _ isObject _ _ _ _ _ _ _ => cases isObject <;> exact noWs_cons (by decide)
  | last hkey _ _ ih | more hkey _ _ _ _ _ ih _ =>
    cases hkey with
    | absent => exact ih
    | present hlit _ _ =>
      cases hlit with
      | mk _ _ => exact noWs_cons (by decide)

end Rfc8259
