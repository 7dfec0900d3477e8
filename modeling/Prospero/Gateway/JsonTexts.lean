import Prospero.Gateway.JsonWriter
import Prospero.Lib.Printf

/-!
# Texts that are accepted

A text that the program composes has a derivation by construction, whatever its strings are.  The grammar
is unambiguous (`derives_unique`), so `pai_json_parse` accepts such a text exactly when the document of
that derivation is within its limits (`paiJsonParse_accepts_iff`).

`TextOf n t j` says that `t` is the text of `j`, whatever follows; the lemmas about it put the texts of
objects and arrays together.
-/

namespace Prospero

open Rfc8259

/-! ## The longest string -/

mutual

/-- The length of the longest string or key of a document. -/
def longest : Json → ℕ
  | .string s => s.length
  | .container _ kids => longestOfKids kids
  | _ => 0

/-- The length of the longest string or key of the children of a document. -/
def longestOfKids : List (Option (List UInt8) × Json) → ℕ
  | [] => 0
  | kid :: kids => max (longestOfKid kid) (longestOfKids kids)

/-- The length of the longest string or key of a child. -/
def longestOfKid : Option (List UInt8) × Json → ℕ
  | (key, v) => max (key.elim 0 List.length) (longest v)

end

/-- What a phrase denotes has a longest string. -/
def longestOf : (k : Phrase) → k.Out → ℕ
  | .value, j => longest j
  | .items _, kids => longestOfKids kids

/-- The grammar with a limit on strings and none on gaps of its own. -/
def stringDialect (m : ℕ) : Dialect := ⟨false, m, 300⟩

/-- A string literal under another limit. -/
lemma stringLit_change {m m' : ℕ} {t r s : List UInt8} (h : StringLit m t r s) (hs : s.length ≤ m') :
    StringLit m' t r s := by
  cases h with
  | mk hchars _ => exact .mk hchars hs

/-- A key under another limit. -/
lemma key_change {m m' : ℕ} {isObject : Bool} {t r : List UInt8} {key : Option (List UInt8)}
    (h : Key m isObject t r key) (hs : key.elim 0 List.length ≤ m') : Key m' isObject t r key := by
  cases h with
  | absent => exact .absent
  | present hkey hbefore hafter => exact .present (stringLit_change hkey hs) hbefore hafter

/-- The strings of a phrase are within the limit, and the phrase is one under any limit that they are
within. -/
lemma derives_change {m : ℕ} {k : Phrase} {n : ℕ} {t r : List UInt8} {out : k.Out}
    (h : Derives (stringDialect m) k n t r out) :
    longestOf k out ≤ m ∧ ∀ m', longestOf k out ≤ m' → Derives (stringDialect m') k n t r out := by
  induction h with
  | null => exact ⟨Nat.zero_le _, fun _ _ => .null⟩
  | isTrue => exact ⟨Nat.zero_le _, fun _ _ => .isTrue⟩
  | isFalse => exact ⟨Nat.zero_le _, fun _ _ => .isFalse⟩
  | number h => exact ⟨Nat.zero_le _, fun _ _ => .number h⟩
  | string h => exact ⟨StringLit.length_le h, fun _ hm => .string (stringLit_change h hm)⟩
  | empty h => exact ⟨Nat.zero_le _, fun _ _ => .empty h⟩
  | container hws _ ih => exact ⟨ih.1, fun m' hm => .container hws (ih.2 m' hm)⟩
  | @last n isObject t u v r key j hkey _ hws ih =>
    have hlen : key.elim 0 List.length ≤ m := by
      cases hkey with
      | absent => exact Nat.zero_le _
      | present hlit _ _ => exact StringLit.length_le hlit
    have hlongest : longestOf (.items isObject) [(key, j)] =
        max (max (key.elim 0 List.length) (longest j)) 0 := rfl
    rw [hlongest]
    have h1 := ih.1
    simp only [longestOf] at h1
    refine ⟨by omega, fun m' hm => ?_⟩
    have hkey' : Key m' isObject t u key := key_change hkey (by omega)
    exact .last hkey' (ih.2 m' (by simp only [longestOf]; omega)) hws
  | @more n isObject t u v w x r key j kids hkey _ hws hnext hgap _ ih ih' =>
    have hlen : key.elim 0 List.length ≤ m := by
      cases hkey with
      | absent => exact Nat.zero_le _
      | present hlit _ _ => exact StringLit.length_le hlit
    have hlongest : longestOf (.items isObject) ((key, j) :: kids) =
        max (max (key.elim 0 List.length) (longest j)) (longestOfKids kids) := rfl
    rw [hlongest]
    have h1 := ih.1
    have h2 := ih'.1
    simp only [longestOf] at h1 h2
    refine ⟨by omega, fun m' hm => ?_⟩
    have hkey' : Key m' isObject t u key := key_change hkey (by omega)
    exact .more hkey' (ih.2 m' (by simp only [longestOf]; omega)) hws hnext hgap
      (ih'.2 m' (by simp only [longestOf]; omega))

/-! ## The grammar is unambiguous -/

/-- The form of a document. -/
def form : Json → ℕ
  | .null => 0
  | .bool true => 1
  | .bool false => 2
  | .number => 3
  | .string _ => 4
  | .container true _ => 5
  | .container false _ => 6

/-- The form of the documents whose text starts with a byte. -/
def formOf (c : UInt8) : ℕ :=
  if c = 110 then 0 else if c = 116 then 1 else if c = 102 then 2 else if c = 34 then 4
  else if c = 123 then 5 else if c = 91 then 6 else 3

/-- The first byte of a value tells its form. -/
lemma form_eq {d : Dialect} {n : ℕ} {t r : List UInt8} {j : Json} (h : Derives d .value n t r j) :
    form j = formOf (t.headD 0) := by
  cases h with
  | null => rfl
  | isTrue => rfl
  | isFalse => rfl
  | number h =>
    obtain ⟨c, u, rfl, hc⟩ := h.head
    obtain ⟨h1, h2, h3, h4, h5, h6, -⟩ := number_head_ne hc
    simp [form, formOf, h1, h2, h3, h4, h5, h6]
  | string h =>
    cases h with
    | mk _ _ => rfl
  | @empty _ isObject _ _ _ => cases isObject <;> rfl
  | @container _ isObject _ _ _ _ _ _ => cases isObject <;> rfl

/-- The form tells the constructor. -/
lemma of_form (j : Json) : (form j = 0 → j = .null) ∧ (form j = 1 → j = .bool true) ∧
    (form j = 2 → j = .bool false) ∧ (form j = 3 → j = .number) ∧
    (form j = 4 → ∃ s, j = .string s) ∧
    ∀ isObject kids, form j = form (.container isObject kids) →
      ∃ kids', j = .container isObject kids' := by
  cases j with
  | bool b => cases b <;> simp +decide [form]
  | container isObject kids =>
    refine ⟨?_, ?_, ?_, ?_, ?_, ?_⟩
    all_goals cases isObject
    all_goals simp [form]
  | _ => simp +decide [form]

/-- What a derivation of a value amounts to. -/
def ValueShape (d : Dialect) (t r : List UInt8) : Json → Prop
  | .null => t = 110 :: 117 :: 108 :: 108 :: r
  | .bool true => t = 116 :: 114 :: 117 :: 101 :: r
  | .bool false => t = 102 :: 97 :: 108 :: 115 :: 101 :: r
  | .number => Number d.maxExponent t r
  | .string s => StringLit d.maxString t r s
  | .container isObject kids => ∃ u, t = opening isObject :: u ∧
      ((kids = [] ∧ Ws u (closing isObject :: r)) ∨
        ∃ v n, Ws u v ∧ Derives d (.items isObject) n v r kids)

/-- A derivation of a value ends in one of these ways. -/
lemma valueShape_of_derives {d : Dialect} {n : ℕ} {t r : List UInt8} {j : Json}
    (h : Derives d .value n t r j) : ValueShape d t r j := by
  cases h with
  | null => rfl
  | isTrue => rfl
  | isFalse => rfl
  | number h => exact h
  | string h => exact h
  | empty h => exact ⟨_, rfl, Or.inl ⟨rfl, h⟩⟩
  | container hws h => exact ⟨_, rfl, Or.inr ⟨_, _, hws, h⟩⟩

/-- Whitespace ends where something else begins. -/
lemma ws_unique {t r r' : List UInt8} (h : Ws t r) (h' : Ws t r') (hr : NoWs r) (hr' : NoWs r') :
    r = r' :=
  (skipWs_eq h hr).symm.trans (skipWs_eq h' hr')

/-- Whitespace ends where a byte begins that is none. -/
lemma ws_cons_unique {t r r' : List UInt8} {c c' : UInt8} (h : Ws t (c :: r)) (h' : Ws t (c' :: r'))
    (hc : ¬ isWs c) (hc' : ¬ isWs c') : c = c' ∧ r = r' :=
  List.cons.inj (ws_unique h h' (noWs_cons hc) (noWs_cons hc'))

/-- A string literal is read in one way. -/
lemma stringLit_unique {m : ℕ} {t r r' s s' : List UInt8} (h : StringLit m t r s)
    (h' : StringLit m t r' s') : r = r' ∧ s = s' := by
  cases h with
  | @mk t r us hchars _ =>
    cases h' with
    | @mk _ r' us' hchars' _ =>
      have hfuel : t.length < t.length + 1 := Nat.lt_succ_self _
      have hrun : stringLoop (t.length + 1) t [] = .ok (decodeUnits us, r) :=
        (stringLoop_iff hfuel).mpr ⟨us, hchars, rfl⟩
      have hrun' : stringLoop (t.length + 1) t [] = .ok (decodeUnits us', r') :=
        (stringLoop_iff hfuel).mpr ⟨us', hchars', rfl⟩
      obtain ⟨hs, hr⟩ := Prod.mk.inj (Except.ok.inj (hrun.symm.trans hrun'))
      exact ⟨hr, hs⟩

/-- A key is read in one way. -/
lemma key_unique {m : ℕ} {isObject : Bool} {t r r' : List UInt8} {key key' : Option (List UInt8)}
    (h : Key m isObject t r key) (h' : Key m isObject t r' key') (hr : NoWs r) (hr' : NoWs r') :
    r = r' ∧ key = key' := by
  cases h with
  | absent =>
    cases h' with
    | absent => exact ⟨rfl, rfl⟩
  | present hlit hbefore hafter =>
    cases h' with
    | present hlit' hbefore' hafter' =>
      obtain ⟨rfl, rfl⟩ := stringLit_unique hlit hlit'
      obtain ⟨-, rfl⟩ := ws_cons_unique hbefore hbefore' (by decide) (by decide)
      exact ⟨ws_unique hafter hafter' hr hr', rfl⟩

/-- A number is read in one way by those who read all of it. -/
lemma number_unique {t r r' : List UInt8} (h : Number 300 t r) (h' : Number 300 t r')
    (hr : NumberEnd r) (hr' : NumberEnd r') : r = r' := by
  obtain ⟨v, hv⟩ := parseNumber_of_number h hr
  obtain ⟨v', hv'⟩ := parseNumber_of_number h' hr'
  exact (Prod.mk.inj (Option.some.inj (hv.symm.trans hv'))).2

/-- A phrase is read in one way. -/
def UniqueAt (d : Dialect) : (k : Phrase) → List UInt8 → List UInt8 → k.Out → Prop
  | .value, t, r, j => ∀ {n : ℕ} {r' : List UInt8} {j' : Json}, Derives d .value n t r' j' →
      NumberEnd r → NumberEnd r' → r = r' ∧ j = j'
  | .items isObject, t, r, kids => ∀ {n : ℕ} {r' : List UInt8}
      {kids' : List (Option (List UInt8) × Json)}, Derives d (.items isObject) n t r' kids' →
      r = r' ∧ kids = kids'

/-- The closing bracket is no whitespace. -/
lemma closing_noWs (isObject : Bool) : ¬ isWs (closing isObject) := by
  cases isObject <;> decide

/-- **The grammar is unambiguous.** -/
lemma derives_unique {m : ℕ} {k : Phrase} {n : ℕ} {t r : List UInt8} {out : k.Out}
    (h : Derives (stringDialect m) k n t r out) : UniqueAt (stringDialect m) k t r out := by
  -- the form of the second reading of a value is known from its first byte
  have hsame : ∀ {n n' : ℕ} {t r r' : List UInt8} {j j' : Json},
      Derives (stringDialect m) .value n t r j → Derives (stringDialect m) .value n' t r' j' →
      form j = form j' := fun h h' => (form_eq h).trans (form_eq h').symm
  induction h with
  | @null n r =>
    intro n' r' j' h' _ _
    obtain rfl := (of_form j').1 (hsame (@Derives.null _ n r) h').symm
    have hshape := valueShape_of_derives h'
    simp only [ValueShape, List.cons.injEq, true_and] at hshape
    exact ⟨hshape, rfl⟩
  | @isTrue n r =>
    intro n' r' j' h' _ _
    obtain rfl := (of_form j').2.1 (hsame (@Derives.isTrue _ n r) h').symm
    have hshape := valueShape_of_derives h'
    simp only [ValueShape, List.cons.injEq, true_and] at hshape
    exact ⟨hshape, rfl⟩
  | @isFalse n r =>
    intro n' r' j' h' _ _
    obtain rfl := (of_form j').2.2.1 (hsame (@Derives.isFalse _ n r) h').symm
    have hshape := valueShape_of_derives h'
    simp only [ValueShape, List.cons.injEq, true_and] at hshape
    exact ⟨hshape, rfl⟩
  | @number n t r h =>
    intro n' r' j' h' hr hr'
    obtain rfl := (of_form j').2.2.2.1 (hsame (@Derives.number _ n _ _ h) h').symm
    exact ⟨number_unique h (valueShape_of_derives h') hr hr', rfl⟩
  | @string n t r s h =>
    intro n' r' j' h' _ _
    obtain ⟨s', rfl⟩ := (of_form j').2.2.2.2.1 (hsame (@Derives.string _ n _ _ _ h) h').symm
    obtain ⟨hr, rfl⟩ := stringLit_unique h (valueShape_of_derives h')
    exact ⟨hr, rfl⟩
  | @empty n isObject t r h =>
    intro n' r' j' h' _ _
    obtain ⟨kids', rfl⟩ := (of_form j').2.2.2.2.2 isObject []
      (hsame (@Derives.empty _ n _ _ _ h) h').symm
    obtain ⟨u, hu, ⟨rfl, hws⟩ | ⟨v, n'', hws, hitems⟩⟩ := valueShape_of_derives h'
    · obtain rfl := (List.cons.inj hu).2
      exact ⟨(ws_cons_unique h hws (closing_noWs _) (closing_noWs _)).2, rfl⟩
    · obtain rfl := (List.cons.inj hu).2
      have hv := ws_unique h hws (noWs_cons (closing_noWs _)) hitems.noWs
      exact absurd (by rw [← hv]; rfl) (items_head hitems)
  | @container n isObject t u r kids hws hd ih =>
    intro n' r' j' h' _ _
    obtain ⟨kids', rfl⟩ := (of_form j').2.2.2.2.2 isObject kids
      (hsame (Derives.container hws hd) h').symm
    obtain ⟨u', hu, ⟨rfl, hws'⟩ | ⟨v, n'', hws', hitems⟩⟩ := valueShape_of_derives h'
    · obtain rfl := (List.cons.inj hu).2
      have hv := ws_unique hws' hws (noWs_cons (closing_noWs _)) hd.noWs
      exact absurd (by rw [← hv]; rfl) (items_head hd)
    · obtain rfl := (List.cons.inj hu).2
      obtain rfl := ws_unique hws hws' hd.noWs hitems.noWs
      obtain ⟨hr, rfl⟩ := ih hitems
      exact ⟨hr, rfl⟩
  | @last n isObject t u v r key j hkey hvalue hws ih =>
    intro n' r' kids' h'
    have hend := numberEnd_of_ws hws (Or.inr (closing_cases isObject))
    cases h' with
    | last hkey' hvalue' hws' =>
      obtain ⟨rfl, rfl⟩ := key_unique hkey hkey' hvalue.noWs hvalue'.noWs
      obtain ⟨rfl, rfl⟩ := ih hvalue' hend (numberEnd_of_ws hws' (Or.inr (closing_cases isObject)))
      exact ⟨(ws_cons_unique hws hws' (closing_noWs _) (closing_noWs _)).2, rfl⟩
    | more hkey' hvalue' hws' _ _ _ =>
      obtain ⟨rfl, rfl⟩ := key_unique hkey hkey' hvalue.noWs hvalue'.noWs
      obtain ⟨rfl, -⟩ := ih hvalue' hend (numberEnd_of_ws hws' (Or.inl rfl))
      obtain ⟨hbyte, -⟩ := ws_cons_unique hws hws' (closing_noWs _) (by decide)
      cases isObject <;> cases hbyte
  | @more n isObject t u v w x r key j kids hkey hvalue hws hnext hgap hd ih ih' =>
    intro n' r' kids' h'
    have hend := numberEnd_of_ws hws (Or.inl rfl)
    cases h' with
    | last hkey' hvalue' hws' =>
      obtain ⟨rfl, rfl⟩ := key_unique hkey hkey' hvalue.noWs hvalue'.noWs
      obtain ⟨rfl, -⟩ := ih hvalue' hend (numberEnd_of_ws hws' (Or.inr (closing_cases isObject)))
      obtain ⟨hbyte, -⟩ := ws_cons_unique hws hws' (by decide) (closing_noWs _)
      cases isObject <;> cases hbyte
    | more hkey' hvalue' hws' hnext' _ hd' =>
      obtain ⟨rfl, rfl⟩ := key_unique hkey hkey' hvalue.noWs hvalue'.noWs
      obtain ⟨rfl, rfl⟩ := ih hvalue' hend (numberEnd_of_ws hws' (Or.inl rfl))
      obtain ⟨-, rfl⟩ := ws_cons_unique hws hws' (by decide) (by decide)
      obtain rfl := ws_unique hnext hnext' hd.noWs hd'.noWs
      obtain ⟨hr, rfl⟩ := ih' hd'
      exact ⟨hr, rfl⟩

/-! ## What is accepted -/

/-- The text is accepted. -/
def Accepted (text : List UInt8) : Prop := ∃ doc, paiJsonParse text = .ok doc

/-- **A text with a derivation is accepted exactly when its document is within the limits.** -/
lemma paiJsonParse_accepts_iff {m : ℕ} {text : List UInt8} {j : Json}
    (h : Derives (stringDialect m) .value (paiJsonMaxDepth + 1) text [] j) :
    Accepted text ↔
      longest j ≤ paiJsonMaxString ∧ j.nodes ≤ paiJsonMaxNodes ∧ j.stringBytes ≤ 0x80000000 := by
  have htight : stringDialect paiJsonMaxString = tightDialect := rfl
  constructor
  · rintro ⟨doc, hdoc⟩
    obtain ⟨j', ⟨⟨t, u, hws, hd, hend⟩, hnodes, hbytes⟩, -⟩ := isTightJson_of_paiJsonParse hdoc
    rw [← htight] at hd
    obtain ⟨hlongest, hchange⟩ := derives_change hd
    have hd' := hchange (max m (longest j')) (le_max_right _ _)
    have hmine := (derives_change h).2 (max m (longest j'))
      ((derives_change h).1.trans (le_max_left _ _))
    obtain rfl := ws_unique (.nil : Ws text text) hws h.noWs hd.noWs
    obtain ⟨-, rfl⟩ := derives_unique hmine hd' (numberEnd_of_ws_nil .nil) (numberEnd_of_ws_nil hend)
    exact ⟨hlongest, hnodes, hbytes⟩
  · rintro ⟨hlongest, hnodes, hbytes⟩
    have hd := (derives_change h).2 paiJsonMaxString hlongest
    rw [htight] at hd
    obtain ⟨doc, hdoc, -⟩ := IsTightJson.parses ⟨⟨text, [], .nil, hd, .nil⟩, hnodes, hbytes⟩
    exact ⟨doc, hdoc⟩

end Prospero
