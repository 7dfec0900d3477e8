import Mathlib.Data.List.Basic
import Mathlib.Tactic.Common
import Mathlib.Order.Basic

/-!
# Brackets and string literals

Texts over an alphabet with a quote, an escape symbol and a pair of brackets.  A literal runs from a quote
to the next one that is not escaped; brackets in it do not count, and behind a quote that is never closed
nothing is outside a literal.  `Balanced` is the grammar of nested brackets, `Outside` the prefixes that
end outside the literals.

`first_bracket` splits a text at its first bracket outside the literals, `closes_or` at the first closing
bracket without partner, if there is one.  `brackets` reads the brackets off a text and shows that the
splittings are unique.
-/

namespace Nesting

/-- The symbols that count. -/
structure Marks (α : Type*) where
  /-- Opens and closes a literal. -/
  quote : α
  /-- Takes the meaning of the next symbol of a literal. -/
  escape : α
  /-- The opening bracket. -/
  opening : α
  /-- The closing bracket. -/
  closing : α
  quote_ne_escape : quote ≠ escape
  opening_ne_quote : opening ≠ quote
  closing_ne_quote : closing ≠ quote
  closing_ne_opening : closing ≠ opening

variable {α : Type*} (m : Marks α)

/-! ## The grammar -/

/-- The inside of a literal. -/
inductive Units : List α → Prop
  | nil : Units []
  | plain {c : α} {t : List α} (hquote : c ≠ m.quote) (hescape : c ≠ m.escape) (ht : Units t) :
      Units (c :: t)
  | escaped {c : α} {t : List α} (ht : Units t) : Units (m.escape :: c :: t)

/-- A literal. -/
def IsLiteral (t : List α) : Prop := ∃ u, Units m u ∧ t = m.quote :: (u ++ [m.quote])

/-- Literals, and between them symbols with a property. -/
inductive Pieces (p : α → Prop) : List α → Prop
  | nil : Pieces p []
  | plain {c : α} {t : List α} (hquote : c ≠ m.quote) (hc : p c) (ht : Pieces p t) : Pieces p (c :: t)
  | literal {l t : List α} (hl : IsLiteral m l) (ht : Pieces p t) : Pieces p (l ++ t)

/-- A text that ends outside the literals. -/
def Outside : List α → Prop := Pieces m fun _ => True

/-- A text that ends outside the literals, and has no brackets there. -/
def Calm : List α → Prop := Pieces m fun c => c ≠ m.opening ∧ c ≠ m.closing

/-- A text in which every bracket has its partner. -/
inductive Balanced : List α → Prop
  | calm {t : List α} (ht : Calm m t) : Balanced t
  | group {t b r : List α} (ht : Calm m t) (hb : Balanced b) (hr : Balanced r) :
      Balanced (t ++ m.opening :: (b ++ m.closing :: r))

/-- A bracketed text. -/
def IsGroup (t : List α) : Prop := ∃ b, Balanced m b ∧ t = m.opening :: (b ++ [m.closing])

/-- A text has a bracketed part that starts outside the literals. -/
def HasGroup (t : List α) : Prop :=
  ∃ pre g post, t = pre ++ (g ++ post) ∧ Outside m pre ∧ IsGroup m g

/-- The first bracketed part, with what stands before it. -/
structure FirstGroup (t pre g : List α) : Prop where
  /-- It is a part of the text. -/
  split : ∃ post, t = pre ++ (g ++ post)
  /-- It starts outside the literals. -/
  outside : Outside m pre
  /-- It is bracketed. -/
  group : IsGroup m g
  /-- No other one starts before it. -/
  first : ∀ pre' g' post', t = pre' ++ (g' ++ post') → Outside m pre' → IsGroup m g' →
    pre.length ≤ pre'.length

/-- The text reaches a closing bracket without partner. -/
def Closes (t : List α) : Prop := ∃ b r, Balanced m b ∧ t = b ++ m.closing :: r

/-- The inside of a literal that is not closed. -/
def Unclosed (t : List α) : Prop := ∃ u, Units m u ∧ (t = u ∨ t = u ++ [m.escape])

/-- Nothing, or a literal that is not closed. -/
def Ended (t : List α) : Prop := t = [] ∨ ∃ u, t = m.quote :: u ∧ Unclosed m u

variable {m}

lemma Calm.outside {t : List α} (h : Calm m t) : Outside m t := by
  induction h with
  | nil => exact .nil
  | plain hquote _ _ ih => exact .plain hquote trivial ih
  | literal hl _ ih => exact .literal hl ih

/-- A bracketed part has a first one. -/
lemma HasGroup.first {t : List α} (h : HasGroup m t) : ∃ pre g, FirstGroup m t pre g := by
  obtain ⟨pre, g, post, ht, hpre, hg⟩ := h
  induction hn : pre.length using Nat.strongRecOn generalizing pre g post with
  | ind n ih =>
    by_cases hbefore : ∃ pre' g' post', t = pre' ++ (g' ++ post') ∧ Outside m pre' ∧ IsGroup m g' ∧
        pre'.length < n
    · obtain ⟨pre', g', post', ht', hpre', hg', hlt⟩ := hbefore
      exact ih _ hlt pre' g' post' ht' hpre' hg' rfl
    · refine ⟨pre, g, ⟨post, ht⟩, hpre, hg, fun pre' g' post' ht' hpre' hg' => ?_⟩
      by_contra hlt
      exact hbefore ⟨pre', g', post', ht', hpre', hg', by omega⟩

lemma FirstGroup.hasGroup {t pre g : List α} (h : FirstGroup m t pre g) : HasGroup m t := by
  obtain ⟨post, ht⟩ := h.split
  exact ⟨pre, g, post, ht, h.outside, h.group⟩

/-! ## Splitting a text -/

variable [DecidableEq α]

/-- A literal is closed, or runs to the end. -/
lemma units_or_unclosed (t : List α) :
    (∃ u r, Units m u ∧ t = u ++ m.quote :: r) ∨ Unclosed m t := by
  induction hn : t.length using Nat.strongRecOn generalizing t with
  | ind n ih =>
    match t, hn with
    | [], _ => exact Or.inr ⟨[], .nil, Or.inl rfl⟩
    | c :: t, hn =>
      rw [List.length_cons] at hn
      by_cases hquote : c = m.quote
      · exact Or.inl ⟨[], t, .nil, by rw [hquote, List.nil_append]⟩
      by_cases hescape : c = m.escape
      · -- the next symbol belongs to the escape
        subst hescape
        match t, hn with
        | [], _ => exact Or.inr ⟨[], .nil, Or.inr rfl⟩
        | d :: t, hn =>
          rw [List.length_cons] at hn
          obtain ⟨u, r, hu, rfl⟩ | ⟨u, hu, rfl | rfl⟩ := ih _ (by omega) t rfl
          · exact Or.inl ⟨m.escape :: d :: u, r, .escaped hu, rfl⟩
          · exact Or.inr ⟨_, .escaped hu, Or.inl rfl⟩
          · exact Or.inr ⟨_, .escaped hu, Or.inr rfl⟩
      · obtain ⟨u, r, hu, rfl⟩ | ⟨u, hu, rfl | rfl⟩ := ih _ (by omega) t rfl
        · exact Or.inl ⟨c :: u, r, .plain hquote hescape hu, rfl⟩
        · exact Or.inr ⟨_, .plain hquote hescape hu, Or.inl rfl⟩
        · exact Or.inr ⟨_, .plain hquote hescape hu, Or.inr rfl⟩

/-- A text has a first bracket outside the literals, or none. -/
lemma first_bracket (t : List α) :
    (∃ c r, Calm m c ∧ t = c ++ m.opening :: r) ∨ (∃ c r, Calm m c ∧ t = c ++ m.closing :: r) ∨
      ∃ c e, Calm m c ∧ Ended m e ∧ t = c ++ e := by
  induction hn : t.length using Nat.strongRecOn generalizing t with
  | ind n ih =>
    match t, hn with
    | [], _ => exact Or.inr (Or.inr ⟨[], [], .nil, Or.inl rfl, rfl⟩)
    | c :: t, hn =>
      rw [List.length_cons] at hn
      by_cases hopening : c = m.opening
      · exact Or.inl ⟨[], t, .nil, by rw [hopening, List.nil_append]⟩
      by_cases hclosing : c = m.closing
      · exact Or.inr (Or.inl ⟨[], t, .nil, by rw [hclosing, List.nil_append]⟩)
      -- a literal or a symbol in front keeps the rest calm
      have hfront : ∀ l r, l ++ r = c :: t → r.length < n → (∀ {s}, Calm m s → Calm m (l ++ s)) →
          (∃ c' r, Calm m c' ∧ c :: t = c' ++ m.opening :: r) ∨
            (∃ c' r, Calm m c' ∧ c :: t = c' ++ m.closing :: r) ∨
            ∃ c' e, Calm m c' ∧ Ended m e ∧ c :: t = c' ++ e := by
        intro l r heq hlt hcalm
        rw [← heq]
        obtain ⟨c', r', hc, rfl⟩ | ⟨c', r', hc, rfl⟩ | ⟨c', e, hc, he, rfl⟩ := ih _ hlt r rfl
        · exact Or.inl ⟨l ++ c', r', hcalm hc, (List.append_assoc _ _ _).symm⟩
        · exact Or.inr (Or.inl ⟨l ++ c', r', hcalm hc, (List.append_assoc _ _ _).symm⟩)
        · exact Or.inr (Or.inr ⟨l ++ c', e, hcalm hc, he, (List.append_assoc _ _ _).symm⟩)
      by_cases hquote : c = m.quote
      · subst hquote
        obtain ⟨u, r, hu, rfl⟩ | hu := units_or_unclosed (m := m) t
        · refine hfront (m.quote :: (u ++ [m.quote])) r (by simp) ?_ fun hs => .literal ⟨u, hu, rfl⟩ hs
          rw [List.length_append, List.length_cons] at hn
          omega
        · exact Or.inr (Or.inr ⟨[], _, .nil, Or.inr ⟨t, rfl, hu⟩, rfl⟩)
      · exact hfront [c] t rfl (by omega) fun hs => .plain hquote ⟨hopening, hclosing⟩ hs

/-- A text reaches a closing bracket without partner, or an opening one, or its end. -/
lemma closes_or (t : List α) :
    Closes m t ∨ (∃ b r, Balanced m b ∧ t = b ++ m.opening :: r ∧ ¬ Closes m r) ∨
      ∃ b e, Balanced m b ∧ Ended m e ∧ t = b ++ e := by
  induction hn : t.length using Nat.strongRecOn generalizing t with
  | ind n ih =>
    obtain ⟨c, r, hc, rfl⟩ | ⟨c, r, hc, rfl⟩ | ⟨c, e, hc, he, rfl⟩ := first_bracket (m := m) t
    · rw [List.length_append, List.length_cons] at hn
      by_cases hcloses : Closes m r
      · obtain ⟨b, s, hb, rfl⟩ := hcloses
        rw [List.length_append, List.length_cons] at hn
        obtain ⟨b', s', hb', rfl⟩ | ⟨b', s', hb', rfl, hs'⟩ | ⟨b', e, hb', he, rfl⟩ :=
          ih _ (by omega) s rfl
        · exact Or.inl ⟨_, s', .group hc hb hb', by simp⟩
        · exact Or.inr (Or.inl ⟨_, s', .group hc hb hb', by simp, hs'⟩)
        · exact Or.inr (Or.inr ⟨_, e, .group hc hb hb', he, by simp⟩)
      · exact Or.inr (Or.inl ⟨c, r, .calm hc, rfl, hcloses⟩)
    · exact Or.inl ⟨c, r, .calm hc, rfl⟩
    · exact Or.inr (Or.inr ⟨c, e, .calm hc, he, rfl⟩)

/-! ## The brackets of a text -/

/-- Where a reader of the text is. -/
inductive Mode where
  /-- Outside the literals. -/
  | plain
  /-- In a literal. -/
  | quoted
  /-- Behind an escape symbol of a literal. -/
  | escaped

variable (m) in
/-- The brackets outside the literals; `true` stands for an opening one. -/
def brackets : Mode → List α → List Bool
  | _, [] => []
  | .plain, c :: t =>
    if c = m.quote then brackets .quoted t
    else if c = m.opening then true :: brackets .plain t
    else if c = m.closing then false :: brackets .plain t
    else brackets .plain t
  | .quoted, c :: t =>
    if c = m.escape then brackets .escaped t
    else if c = m.quote then brackets .plain t
    else brackets .quoted t
  | .escaped, _ :: t => brackets .quoted t

@[simp] lemma brackets_nil (mode : Mode) : brackets m mode [] = [] := by cases mode <;> rfl

lemma brackets_plain_cons (c : α) (t : List α) : brackets m .plain (c :: t) =
    if c = m.quote then brackets m .quoted t
    else if c = m.opening then true :: brackets m .plain t
    else if c = m.closing then false :: brackets m .plain t
    else brackets m .plain t := rfl

lemma brackets_quoted_cons (c : α) (t : List α) : brackets m .quoted (c :: t) =
    if c = m.escape then brackets m .escaped t
    else if c = m.quote then brackets m .plain t
    else brackets m .quoted t := rfl

lemma brackets_escaped_cons (c : α) (t : List α) :
    brackets m .escaped (c :: t) = brackets m .quoted t := rfl

lemma brackets_units {u : List α} (h : Units m u) (t : List α) :
    brackets m .quoted (u ++ t) = brackets m .quoted t := by
  induction h with
  | nil => rfl
  | plain hquote hescape _ ih =>
    rw [List.cons_append, brackets_quoted_cons, if_neg hescape, if_neg hquote, ih]
  | escaped _ ih =>
    rw [List.cons_append, List.cons_append, brackets_quoted_cons, if_pos rfl, brackets_escaped_cons, ih]

lemma brackets_literal {l : List α} (h : IsLiteral m l) (t : List α) :
    brackets m .plain (l ++ t) = brackets m .plain t := by
  obtain ⟨u, hu, rfl⟩ := h
  rw [List.cons_append, brackets_plain_cons, if_pos rfl, List.append_assoc, brackets_units hu,
    List.singleton_append, brackets_quoted_cons, if_neg m.quote_ne_escape, if_pos rfl]

lemma brackets_calm {c : List α} (h : Calm m c) (t : List α) :
    brackets m .plain (c ++ t) = brackets m .plain t := by
  induction h with
  | nil => rfl
  | plain hquote hc _ ih =>
    rw [List.cons_append, brackets_plain_cons, if_neg hquote, if_neg hc.1, if_neg hc.2, ih]
  | literal hl _ ih => rw [List.append_assoc, brackets_literal hl, ih]

/-- What stands behind a text that ends outside the literals is read as it is. -/
lemma brackets_outside {o : List α} (h : Outside m o) :
    ∃ bs, ∀ t, brackets m .plain (o ++ t) = bs ++ brackets m .plain t := by
  induction h with
  | nil => exact ⟨[], fun _ => rfl⟩
  | @plain c o hquote _ _ ih =>
    obtain ⟨bs, hbs⟩ := ih
    by_cases hopening : c = m.opening
    · refine ⟨true :: bs, fun t => ?_⟩
      rw [List.cons_append, brackets_plain_cons, if_neg hquote, if_pos hopening, hbs, List.cons_append]
    by_cases hclosing : c = m.closing
    · refine ⟨false :: bs, fun t => ?_⟩
      rw [List.cons_append, brackets_plain_cons, if_neg hquote, if_neg hopening, if_pos hclosing, hbs,
        List.cons_append]
    · refine ⟨bs, fun t => ?_⟩
      rw [List.cons_append, brackets_plain_cons, if_neg hquote, if_neg hopening, if_neg hclosing, hbs]
  | literal hl _ ih =>
    obtain ⟨bs, hbs⟩ := ih
    exact ⟨bs, fun t => by rw [List.append_assoc, brackets_literal hl, hbs]⟩

lemma brackets_opening (t : List α) :
    brackets m .plain (m.opening :: t) = true :: brackets m .plain t := by
  rw [brackets_plain_cons, if_neg m.opening_ne_quote, if_pos rfl]

lemma brackets_unclosed {u : List α} (h : Unclosed m u) : brackets m .quoted u = [] := by
  obtain ⟨u, hu, rfl | rfl⟩ := h
  · have hall := brackets_units hu []
    rwa [List.append_nil, brackets_nil] at hall
  · rw [brackets_units hu, brackets_quoted_cons, if_pos rfl, brackets_nil]

lemma brackets_ended {e : List α} (h : Ended m e) : brackets m .plain e = [] := by
  obtain rfl | ⟨u, rfl, hu⟩ := h
  · rw [brackets_nil]
  · rw [brackets_plain_cons, if_pos rfl, brackets_unclosed hu]

/-- A text without brackets has no bracketed part. -/
lemma not_hasGroup_of_brackets {t : List α} (h : brackets m .plain t = []) : ¬ HasGroup m t := by
  rintro ⟨pre, g, post, rfl, hpre, b, hb, rfl⟩
  obtain ⟨bs, hbs⟩ := brackets_outside hpre
  rw [hbs, List.cons_append, brackets_opening] at h
  exact List.append_ne_nil_of_right_ne_nil _ (List.cons_ne_nil _ _) h

/-- No bracketed part starts in a text without brackets. -/
lemma Calm.le_length {c pre t s : List α} (hc : Calm m c) (hpre : Outside m pre)
    (h : c ++ t = pre ++ m.opening :: s) : c.length ≤ pre.length := by
  by_contra hlt
  obtain ⟨r, rfl⟩ : pre <+: c := List.prefix_of_prefix_length_le ⟨_, h.symm⟩ ⟨_, rfl⟩ (by omega)
  rw [List.append_assoc] at h
  have hrest := List.append_cancel_left h
  match r, hrest with
  | [], _ => simp at hlt
  | d :: r, hrest =>
    obtain rfl : d = m.opening := (List.cons.inj hrest).1
    obtain ⟨bs, hbs⟩ := brackets_outside hpre
    have hnone := brackets_calm hc []
    rw [List.append_nil, hbs, brackets_opening, brackets_nil] at hnone
    exact List.append_ne_nil_of_right_ne_nil _ (List.cons_ne_nil _ _) hnone

/-- The symbol a text without brackets and a bracket start with. -/
lemma Calm.head_ne_opening {c t s : List α} (hc : Calm m c) (h : c ++ m.closing :: t = m.opening :: s) :
    False := by
  have hlen := @Calm.le_length _ m _ c [] (m.closing :: t) s hc .nil h
  obtain rfl : c = [] := List.length_eq_zero_iff.mp (Nat.le_zero.mp hlen)
  exact m.closing_ne_opening (List.cons.inj h).1

end Nesting
