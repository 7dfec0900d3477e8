import Prospero.Gateway.Json

/-!
# Whitespace, strings and numbers

The leaves of the JSON parser against the grammar.  Each scanner is sound, what it consumes is the
phrase of the grammar, and complete, it consumes the phrase whenever what follows cannot extend it.
-/

namespace Prospero

open Rfc8259

/-! ## Whitespace -/

lemma isJsonWs_iff (c : UInt8) : isJsonWs c = true ↔ isWs c := by
  simp [isJsonWs, isWs, or_assoc]

/-- `skip_ws` passes over whitespace. -/
lemma ws_skipWs (t : List UInt8) : Ws t (skipWs t) := by
  induction t with
  | nil => exact .nil
  | cons c t ih =>
    rw [skipWs, List.dropWhile_cons]
    split_ifs with hc
    · exact .cons ((isJsonWs_iff c).mp hc) ih
    · exact .nil

/-- `skip_ws` passes over all of the whitespace. -/
lemma skipWs_eq {t r : List UInt8} (h : Ws t r) (hr : NoWs r) : skipWs t = r := by
  induction h with
  | @nil r =>
    cases r with
    | nil => rfl
    | cons c r =>
      have hc : ¬ isJsonWs c = true := fun hws => hr c rfl ((isJsonWs_iff c).mp hws)
      rw [skipWs, List.dropWhile_cons, if_neg hc]
  | @cons c t r hc _ ih =>
    rw [skipWs, List.dropWhile_cons, if_pos ((isJsonWs_iff c).mpr hc)]
    exact ih hr

lemma noWs_skipWs (t : List UInt8) : NoWs (skipWs t) := by
  intro c hc hws
  have hhead := List.head?_dropWhile_not isJsonWs t
  rw [skipWs] at hc
  rw [Option.mem_def.mp hc] at hhead
  simp only at hhead
  rw [(isJsonWs_iff c).mpr hws] at hhead
  exact Bool.noConfusion hhead

/-! ## Strings -/

lemma hexVal_iff (c : UInt8) (v : ℕ) : hexVal c = some v ↔ HexDigit c v := by
  have hnat : ∀ a b : UInt8, a ≤ b ↔ a.toNat ≤ b.toNat := fun a b => UInt8.le_iff_toNat_le
  unfold hexVal HexDigit
  simp only [hnat, UInt8.reduceToNat]
  split_ifs with h1 h2 h3
  · constructor
    · rintro ⟨rfl⟩
      exact Or.inl ⟨h1.1, h1.2, rfl⟩
    · rintro (h | h | h) <;> simp <;> omega
  · constructor
    · rintro ⟨rfl⟩
      exact Or.inr (Or.inl ⟨h2.1, h2.2, by omega⟩)
    · rintro (h | h | h) <;> simp <;> omega
  · constructor
    · rintro ⟨rfl⟩
      exact Or.inr (Or.inr ⟨h3.1, h3.2, by omega⟩)
    · rintro (h | h | h) <;> simp <;> omega
  · constructor
    · intro h
      cases h
    · rintro (h | h | h) <;> omega

lemma hexDigit_lt {c : UInt8} {v : ℕ} (h : HexDigit c v) : v < 16 := by
  have hnat : ∀ a b : UInt8, a ≤ b ↔ a.toNat ≤ b.toNat := fun a b => UInt8.le_iff_toNat_le
  unfold HexDigit at h
  simp only [hnat, UInt8.reduceToNat] at h
  omega

lemma escapeByte_iff (c b : UInt8) : escapeByte c = some b ↔ (c, b) ∈ escapes := by
  constructor
  · intro h
    unfold escapeByte at h
    split at h
    case h_9 => cases h
    all_goals
      next hc =>
        have hlit := congrArg UInt8.ofNat hc
        rw [UInt8.ofNat_toNat] at hlit
        subst hlit
        cases h
        decide
  · intro h
    simp only [escapes, List.mem_cons, Prod.mk.injEq, List.not_mem_nil, or_false] at h
    rcases h with ⟨rfl, rfl⟩ | ⟨rfl, rfl⟩ | ⟨rfl, rfl⟩ | ⟨rfl, rfl⟩ | ⟨rfl, rfl⟩ | ⟨rfl, rfl⟩ |
      ⟨rfl, rfl⟩ | ⟨rfl, rfl⟩ <;> rfl

lemma or_eq_add (a i : ℕ) {b : ℕ} (h : b < 2 ^ i) : a <<< i ||| b = a * 2 ^ i + b := by
  rw [← Nat.shiftLeft_add_eq_or_of_lt h, Nat.shiftLeft_eq]

lemma and_63 (u : ℕ) : u &&& 0x3F = u % 64 := Nat.and_two_pow_sub_one_eq_mod u 6

/-- The bits of `utf8_encode` are the digits of the code point to the base 64. -/
lemma utf8Encode_eq {u : ℕ} (h : u < 0x110000) : utf8Encode u = utf8 u := by
  have h6 : ∀ x, 0x80 ||| x &&& 0x3F = 0x80 + x % 64 := by
    intro x
    rw [and_63]
    exact or_eq_add 2 6 (Nat.mod_lt _ (by decide))
  unfold utf8Encode utf8
  split_ifs with h1 h2 h3
  · rfl
  · have hlead : 0xC0 ||| u >>> 6 = 0xC0 + u / 64 := by
      rw [Nat.shiftRight_eq_div_pow]
      exact or_eq_add 3 6 (by omega)
    rw [hlead, h6]
  · have hlead : 0xE0 ||| u >>> 12 = 0xE0 + u / 0x1000 := by
      rw [Nat.shiftRight_eq_div_pow]
      exact or_eq_add 14 4 (by omega)
    rw [hlead, h6, h6, Nat.shiftRight_eq_div_pow]
  · have hlead : 0xF0 ||| u >>> 18 = 0xF0 + u / 0x40000 := by
      rw [Nat.shiftRight_eq_div_pow]
      exact or_eq_add 30 3 (by omega)
    rw [hlead, h6, h6, h6, Nat.shiftRight_eq_div_pow, Nat.shiftRight_eq_div_pow]

lemma hex4_eq_some {t r : List UInt8} {u : ℕ} :
    hex4 t = some (u, r) ↔ ∃ a b c d p q v w, t = a :: b :: c :: d :: r ∧ HexDigit a p ∧ HexDigit b q ∧
      HexDigit c v ∧ HexDigit d w ∧ u = ((p * 16 + q) * 16 + v) * 16 + w := by
  constructor
  · intro h
    unfold hex4 at h
    split at h
    · next a b c d rest =>
      simp only [Option.bind_eq_bind, Option.bind_eq_some_iff, Option.some.injEq,
        Prod.mk.injEq] at h
      obtain ⟨p, hp, q, hq, v, hv, w, hw, hu, rfl⟩ := h
      rw [hexVal_iff] at hp hq hv hw
      exact ⟨a, b, c, d, p, q, v, w, rfl, hp, hq, hv, hw, hu.symm⟩
    · cases h
  · rintro ⟨a, b, c, d, p, q, v, w, rfl, hp, hq, hv, hw, rfl⟩
    rw [← hexVal_iff] at hp hq hv hw
    simp only [hex4, hp, hq, hv, hw, Option.bind_eq_bind, Option.bind_some]

lemma hex4_lt {t r : List UInt8} {u : ℕ} (h : hex4 t = some (u, r)) : u < 0x10000 := by
  obtain ⟨a, b, c, d, p, q, v, w, -, hp, hq, hv, hw, rfl⟩ := hex4_eq_some.mp h
  have := hexDigit_lt hp
  have := hexDigit_lt hq
  have := hexDigit_lt hv
  have := hexDigit_lt hw
  omega

lemma length_of_hex4 {t r : List UInt8} {u : ℕ} (h : hex4 t = some (u, r)) :
    t.length = r.length + 4 := by
  obtain ⟨a, b, c, d, p, q, v, w, rfl, -⟩ := hex4_eq_some.mp h
  rfl

/-! The characters in front of a closing quote, by the byte they start with. -/

lemma chars_nil {r : List UInt8} {us : List StringUnit} : ¬ Chars [] (34 :: r) us := by
  rintro ⟨⟩

lemma chars_quote {t r : List UInt8} {us : List StringUnit} :
    Chars (34 :: t) (34 :: r) us ↔ t = r ∧ us = [] := by
  constructor
  · intro h
    cases h with
    | nil => exact ⟨rfl, rfl⟩
    | raw hlo hquote hback h => exact absurd rfl hquote
  · rintro ⟨rfl, rfl⟩
    exact .nil

lemma chars_raw {c : UInt8} {t r : List UInt8} {us : List StringUnit} (hquote : c ≠ 34)
    (hback : c ≠ 92) :
    Chars (c :: t) (34 :: r) us ↔ 32 ≤ c ∧ ∃ us', us = .byte c :: us' ∧ Chars t (34 :: r) us' := by
  constructor
  · intro h
    cases h with
    | nil => exact absurd rfl hquote
    | raw hlo _ _ h => exact ⟨hlo, _, rfl, h⟩
    | escape hc h => exact absurd rfl hback
    | unicode ha hb hc hd h => exact absurd rfl hback
  · rintro ⟨hlo, us', rfl, h⟩
    exact .raw hlo hquote hback h

lemma chars_backslash {r : List UInt8} {us : List StringUnit} : ¬ Chars [92] (34 :: r) us := by
  intro h
  cases h with
  | raw hlo hquote hback h => exact absurd rfl hback

lemma chars_escape {e : UInt8} {t r : List UInt8} {us : List StringUnit} (he : e ≠ 117) :
    Chars (92 :: e :: t) (34 :: r) us ↔
      ∃ b us', (e, b) ∈ escapes ∧ us = .byte b :: us' ∧ Chars t (34 :: r) us' := by
  constructor
  · intro h
    cases h with
    | raw hlo hquote hback h => exact absurd rfl hback
    | escape hc h => exact ⟨_, _, hc, rfl, h⟩
    | unicode ha hb hc hd h => exact absurd rfl he
  · rintro ⟨b, us', hc, rfl, h⟩
    exact .escape hc h

lemma chars_unicode {t r : List UInt8} {us : List StringUnit} :
    Chars (92 :: 117 :: t) (34 :: r) us ↔
      ∃ u t' us', hex4 t = some (u, t') ∧ us = .unit u :: us' ∧ Chars t' (34 :: r) us' := by
  constructor
  · intro h
    cases h with
    | raw hlo hquote hback h => exact absurd rfl hback
    | @escape _ b _ _ _ hc h =>
      have hnone : escapeByte 117 = none := by decide
      rw [← escapeByte_iff, hnone] at hc
      cases hc
    | unicode ha hb hc hd h =>
      exact ⟨_, _, _, hex4_eq_some.mpr ⟨_, _, _, _, _, _, _, _, rfl, ha, hb, hc, hd, rfl⟩, rfl, h⟩
  · rintro ⟨u, t', us', hhex, rfl, h⟩
    obtain ⟨a, b, c, d, p, q, v, w, rfl, ha, hb, hc, hd, rfl⟩ := hex4_eq_some.mp hhex
    exact .unicode ha hb hc hd h

lemma lowSurrogate_eq_some {t r : List UInt8} {lo : ℕ} :
    lowSurrogate t = some (lo, r) ↔ ∃ t', t = 92 :: 117 :: t' ∧ hex4 t' = some (lo, r) ∧ isLow lo := by
  constructor
  · intro h
    unfold lowSurrogate at h
    split at h
    · next t' =>
      split at h
      · next lo' r' hhex =>
        split_ifs at h with hlow
        cases h
        exact ⟨t', rfl, hhex, hlow⟩
      · cases h
    · cases h
  · rintro ⟨t', rfl, hhex, hlow⟩
    simp only [lowSurrogate, hhex]
    exact if_pos hlow

/-- Characters in which no low surrogate comes first. -/
def Unpaired (us : List StringUnit) : Prop := ∀ v us', us = .unit v :: us' → ¬ isLow v

lemma unpaired_of_lowSurrogate {t r : List UInt8} {us : List StringUnit}
    (hchars : Chars t (34 :: r) us) (hnone : lowSurrogate t = none) : Unpaired us := by
  rintro v us' rfl hlow
  cases hchars with
  | @unicode _ _ _ _ _ _ _ _ t _ _ ha hb hc hd h =>
    have hhex := (@hex4_eq_some _ t _).mpr ⟨_, _, _, _, _, _, _, _, rfl, ha, hb, hc, hd, rfl⟩
    rw [lowSurrogate_eq_some.mpr ⟨_, rfl, hhex, hlow⟩] at hnone
    cases hnone

lemma decodeUnits_lone {u : ℕ} {us : List StringUnit} (h : isHigh u → Unpaired us) :
    decodeUnits (.unit u :: us) = loneUnit u ++ decodeUnits us := by
  match us, h with
  | [], _ => rfl
  | .byte b :: us, _ => rfl
  | .unit v :: us, h =>
    rw [decodeUnits, if_neg fun hpair => h hpair.1 v us rfl hpair.2]

lemma decodeUnits_pair {u v : ℕ} {us : List StringUnit} (hu : isHigh u) (hv : isLow v) :
    decodeUnits (.unit u :: .unit v :: us) = utf8 (pairPoint u v) ++ decodeUnits us := by
  rw [decodeUnits, if_pos ⟨hu, hv⟩]

lemma unicodeEscape_pair {t t₁ t₂ : List UInt8} {cp lo : ℕ} (hhex : hex4 t = some (cp, t₁))
    (hhigh : isHigh cp) (hlow : lowSurrogate t₁ = some (lo, t₂)) :
    unicodeEscape t = some (utf8 (pairPoint cp lo), t₂) := by
  obtain ⟨-, -, -, hlo⟩ := lowSurrogate_eq_some.mp hlow
  have hpoint : utf8Encode (0x10000 + (cp - 0xD800) <<< 10 + (lo - 0xDC00))
      = utf8 (pairPoint cp lo) := by
    rw [Nat.shiftLeft_eq]
    exact utf8Encode_eq (by unfold isHigh at hhigh; unfold isLow at hlo; omega)
  unfold unicodeEscape
  rw [hhex]
  dsimp only
  rw [if_pos hhigh, hlow]
  dsimp only
  rw [hpoint]

lemma unicodeEscape_lone {t t₁ : List UInt8} {cp : ℕ} (hhex : hex4 t = some (cp, t₁))
    (hlow : isHigh cp → lowSurrogate t₁ = none) : unicodeEscape t = some (loneUnit cp, t₁) := by
  have hcp : utf8Encode cp = utf8 cp := utf8Encode_eq (by have := hex4_lt hhex; omega)
  have hfffd : utf8Encode 0xFFFD = utf8 0xFFFD := utf8Encode_eq (by decide)
  unfold unicodeEscape loneUnit
  rw [hhex]
  dsimp only
  by_cases hhigh : isHigh cp
  · rw [if_pos hhigh, hlow hhigh, if_pos (Or.inl hhigh)]
    dsimp only
    rw [hfffd]
  · rw [if_neg hhigh]
    by_cases hlo : isLow cp
    · rw [if_pos hlo, if_pos (Or.inr hlo), hfffd]
    · rw [if_neg hlo, if_neg (not_or.mpr ⟨hhigh, hlo⟩), hcp]

/-- A `\u` escape yields the bytes of its code unit, or of a surrogate pair. -/
lemma unicodeEscape_iff {t r s out : List UInt8} :
    (∃ us, Chars (92 :: 117 :: t) (34 :: r) us ∧ s = out ++ decodeUnits us) ↔
      ∃ bytes t', unicodeEscape t = some (bytes, t') ∧
        ∃ us, Chars t' (34 :: r) us ∧ s = out ++ bytes ++ decodeUnits us := by
  simp only [chars_unicode]
  cases hhex : hex4 t with
  | none => simp [unicodeEscape, hhex]
  | some p =>
    obtain ⟨cp, t₁⟩ := p
    by_cases hpair : isHigh cp ∧ ∃ q, lowSurrogate t₁ = some q
    · obtain ⟨hhigh, ⟨lo, t₂⟩, hlow⟩ := hpair
      obtain ⟨t₁', rfl, hlohex, hlo⟩ := lowSurrogate_eq_some.mp hlow
      rw [unicodeEscape_pair hhex hhigh hlow]
      constructor
      · rintro ⟨_, ⟨u, t', us', heq, rfl, h⟩, rfl⟩
        cases heq
        obtain ⟨v, t'', us'', heq, rfl, h⟩ := chars_unicode.mp h
        rw [hlohex] at heq
        cases heq
        refine ⟨_, _, rfl, us'', h, ?_⟩
        rw [decodeUnits_pair hhigh hlo, List.append_assoc]
      · rintro ⟨bytes, t', heq, us, h, rfl⟩
        obtain ⟨rfl, rfl⟩ := Prod.mk.inj (Option.some.inj heq)
        refine ⟨_, ⟨cp, _, _, rfl, rfl, chars_unicode.mpr ⟨lo, _, us, hlohex, rfl, h⟩⟩, ?_⟩
        rw [decodeUnits_pair hhigh hlo, List.append_assoc]
    · have hnone : isHigh cp → lowSurrogate t₁ = none := by
        intro hhigh
        rw [Option.eq_none_iff_forall_ne_some]
        exact fun q hq => hpair ⟨hhigh, q, hq⟩
      rw [unicodeEscape_lone hhex hnone]
      constructor
      · rintro ⟨_, ⟨u, t', us', heq, rfl, h⟩, rfl⟩
        cases heq
        refine ⟨_, _, rfl, us', h, ?_⟩
        rw [decodeUnits_lone fun hhigh => unpaired_of_lowSurrogate h (hnone hhigh),
          List.append_assoc]
      · rintro ⟨bytes, t', heq, us, h, rfl⟩
        cases heq
        refine ⟨_, ⟨cp, _, us, rfl, rfl, h⟩, ?_⟩
        rw [decodeUnits_lone fun hhigh => unpaired_of_lowSurrogate h (hnone hhigh),
          List.append_assoc]

lemma length_lt_of_unicodeEscape {t t' bytes : List UInt8} (h : unicodeEscape t = some (bytes, t')) :
    t'.length < t.length := by
  unfold unicodeEscape at h
  split at h
  · cases h
  · next cp t₁ hhex =>
    have hlen := length_of_hex4 hhex
    split_ifs at h
    · split at h
      · next lo t₂ hlow =>
        obtain ⟨rfl, rfl⟩ := Prod.mk.inj (Option.some.inj h)
        obtain ⟨t₁', rfl, hlohex, -⟩ := lowSurrogate_eq_some.mp hlow
        have hlen₂ := length_of_hex4 hlohex
        simp only [List.length_cons] at hlen
        omega
      · cases h
        omega
    · cases h
      omega
    · cases h
      omega

/-- The loop of `parse_string` finds the closing quote and the bytes of the characters before it. -/
lemma stringLoop_iff {fuel : ℕ} {rest r s out : List UInt8} (hfuel : rest.length < fuel) :
    stringLoop fuel rest out = .ok (s, r) ↔
      ∃ us, Chars rest (34 :: r) us ∧ s = out ++ decodeUnits us := by
  induction fuel generalizing rest out with
  | zero => omega
  | succ fuel ih =>
    cases rest with
    | nil => simp [stringLoop, malformed, chars_nil]
    | cons c rest =>
      rw [List.length_cons] at hfuel
      rw [stringLoop.eq_def]
      dsimp only
      by_cases hquote : c = 34
      · subst hquote
        rw [if_pos rfl]
        constructor
        · intro h
          cases h
          exact ⟨[], .nil, (List.append_nil _).symm⟩
        · rintro ⟨us, h, rfl⟩
          obtain ⟨rfl, rfl⟩ := chars_quote.mp h
          rw [decodeUnits, List.append_nil]
      · rw [if_neg hquote]
        by_cases hback : c = 92
        · subst hback
          rw [if_pos rfl]
          cases rest with
          | nil => simp [malformed, chars_backslash]
          | cons e rest =>
            rw [List.length_cons] at hfuel
            dsimp only
            by_cases he : e = 117
            · subst he
              rw [if_pos rfl, unicodeEscape_iff]
              cases hrun : unicodeEscape rest with
              | none => simp [malformed]
              | some p =>
                obtain ⟨bytes, t'⟩ := p
                have := length_lt_of_unicodeEscape hrun
                dsimp only
                rw [ih (by omega)]
                constructor
                · exact fun h => ⟨bytes, t', rfl, h⟩
                · rintro ⟨_, _, heq, h⟩
                  cases heq
                  exact h
            · rw [if_neg he]
              cases hrun : escapeByte e with
              | none =>
                simp only [chars_escape he, ← escapeByte_iff, hrun, malformed]
                simp
              | some b =>
                dsimp only
                rw [ih (by omega)]
                simp only [chars_escape he, ← escapeByte_iff, hrun, Option.some.injEq]
                simp [decodeUnits]
        · rw [if_neg hback]
          by_cases hlo : c < 32
          · rw [if_pos hlo]
            simp [chars_raw hquote hback, malformed, UInt8.not_le.mpr hlo]
          · rw [if_neg hlo, ih (by omega)]
            simp only [chars_raw hquote hback, UInt8.not_lt.mp hlo, true_and]
            simp [decodeUnits]

/-! ## Numbers -/

lemma isJsonDigit_iff (c : UInt8) : isJsonDigit c = true ↔ isDigit c := by
  simp [isJsonDigit, isDigit]

/-- The bytes do not start with a digit. -/
def NoDigit (r : List UInt8) : Prop := ∀ c ∈ r.head?, ¬ isDigit c

lemma digits_dropWhile (t : List UInt8) (v : ℕ) : ∃ w, Digits t (t.dropWhile isJsonDigit) v w := by
  induction t generalizing v with
  | nil => exact ⟨v, .nil⟩
  | cons c t ih =>
    rw [List.dropWhile_cons]
    split_ifs with hc
    · obtain ⟨w, hw⟩ := ih (v * 10 + (c.toNat - 48))
      exact ⟨w, .cons ((isJsonDigit_iff c).mp hc) hw⟩
    · exact ⟨v, .nil⟩

lemma dropWhile_of_digits {t r : List UInt8} {v w : ℕ} (h : Digits t r v w) (hr : NoDigit r) :
    t.dropWhile isJsonDigit = r := by
  induction h with
  | @nil r v =>
    cases r with
    | nil => rfl
    | cons c r =>
      rw [List.dropWhile_cons, if_neg fun hc => hr c rfl ((isJsonDigit_iff c).mp hc)]
  | cons hc _ ih =>
    rw [List.dropWhile_cons, if_pos ((isJsonDigit_iff _).mpr hc)]
    exact ih hr

/-- A digit comes next. -/
lemma head_isDigit_iff (t : List UInt8) :
    (t.head?.map isJsonDigit).getD false = true ↔ ∃ c u, t = c :: u ∧ isDigit c := by
  cases t with
  | nil => simp
  | cons c t => simp [isJsonDigit_iff]

lemma intPart_of_parseInt {t r : List UInt8} {v : Float} (h : parseInt t = some (v, r)) :
    IntPart t r := by
  cases t with
  | nil => cases h
  | cons c t =>
    rw [parseInt] at h
    split_ifs at h with hzero hdigit
    · cases h
      rw [hzero]
      exact .zero
    · obtain ⟨-, rfl⟩ := Prod.mk.inj (Option.some.inj h)
      obtain ⟨w, hw⟩ := digits_dropWhile t 0
      have hlow : (48 : UInt8) ≤ 49 := by decide
      exact .digits ⟨UInt8.le_trans hlow hdigit.1, hdigit.2⟩ hzero hw

lemma parseInt_of_intPart {t r : List UInt8} (h : IntPart t r) (hr : NoDigit r) :
    ∃ v, parseInt t = some (v, r) := by
  cases h with
  | zero => exact ⟨0, rfl⟩
  | @digits c t _ _ _ hc hne h =>
    have hlow : (49 : UInt8) ≤ c := by
      have := UInt8.le_iff_toNat_le.mp hc.1
      have : c.toNat ≠ 48 := fun heq => hne (UInt8.toNat_inj.mp heq)
      rw [UInt8.le_iff_toNat_le]
      change 49 ≤ c.toNat
      have : 48 ≤ c.toNat := by assumption
      omega
    exact ⟨_, by rw [parseInt, if_neg hne, if_pos ⟨hlow, hc.2⟩, dropWhile_of_digits h hr]⟩

lemma fracPart_of_parseFrac {v w : Float} {t r : List UInt8} (h : parseFrac v t = some (w, r)) :
    FracPart t r := by
  unfold parseFrac at h
  split at h
  · next t =>
    split_ifs at h with hhead
    obtain ⟨c, u, rfl, hc⟩ := (head_isDigit_iff t).mp hhead
    obtain ⟨-, rfl⟩ := Prod.mk.inj (Option.some.inj h)
    obtain ⟨w, hw⟩ := digits_dropWhile u 0
    rw [List.dropWhile_cons, if_pos ((isJsonDigit_iff c).mpr hc)]
    exact .present hc hw
  · obtain ⟨-, rfl⟩ := Prod.mk.inj (Option.some.inj h)
    exact .absent

lemma parseFrac_of_fracPart (v : Float) {t r : List UInt8} (h : FracPart t r) (hr : NoDigit r)
    (hdot : r.head? ≠ some 46) : ∃ w, parseFrac v t = some (w, r) := by
  cases h with
  | absent =>
    refine ⟨v, ?_⟩
    unfold parseFrac
    split
    · exact absurd rfl hdot
    · rfl
  | @present c u _ _ _ hc h =>
    have hhead := (head_isDigit_iff (c :: u)).mpr ⟨c, u, rfl, hc⟩
    exact ⟨_, by
      rw [parseFrac, if_pos hhead, List.dropWhile_cons, if_pos ((isJsonDigit_iff c).mpr hc),
        dropWhile_of_digits h hr]⟩

lemma digits_of_expLoop {v w : ℕ} {t r : List UInt8} (h : expLoop v t = some (w, r)) (hv : v ≤ 300) :
    Digits t r v w ∧ w ≤ 300 := by
  induction t generalizing v with
  | nil =>
    cases h
    exact ⟨.nil, hv⟩
  | cons c t ih =>
    rw [expLoop] at h
    dsimp only at h
    split_ifs at h with hc hbig
    · obtain ⟨hd, hw⟩ := ih h (not_lt.mp hbig)
      exact ⟨.cons ((isJsonDigit_iff c).mp hc) hd, hw⟩
    · cases h
      exact ⟨.nil, hv⟩

lemma expLoop_of_digits {v w : ℕ} {t r : List UInt8} (h : Digits t r v w) (hw : w ≤ 300)
    (hr : NoDigit r) : expLoop v t = some (w, r) := by
  induction h with
  | @nil r v =>
    cases r with
    | nil => rfl
    | cons c r => rw [expLoop, if_neg fun hc => hr c rfl ((isJsonDigit_iff c).mp hc)]
  | cons hc hd ih =>
    have := hd.le
    rw [expLoop, if_pos ((isJsonDigit_iff _).mpr hc)]
    dsimp only
    rw [if_neg (by omega)]
    exact ih hw hr

lemma expSign_parseExpSign (t : List UInt8) : ExpSign t (parseExpSign t).2 := by
  cases t with
  | nil => exact .absent
  | cons c t =>
    rw [parseExpSign]
    split_ifs with hc
    · exact .present hc
    · exact .absent

/-- Behind the sign of an exponent a digit comes. -/
lemma parseExpSign_of_expSign {c : UInt8} {t u : List UInt8} (h : ExpSign t (c :: u))
    (hc : isDigit c) : (parseExpSign t).2 = c :: u := by
  cases h with
  | absent =>
    have hno : ¬ (c = 43 ∨ c = 45) := by
      rintro (rfl | rfl) <;> exact absurd hc.1 (by decide)
    rw [parseExpSign, if_neg hno]
  | present hsign => rw [parseExpSign, if_pos hsign]

lemma expPart_of_parseExp {v w : Float} {t r : List UInt8} (h : parseExp v t = some (w, r)) :
    ExpPart 300 t r := by
  cases t with
  | nil =>
    cases h
    exact .absent
  | cons e t =>
    rw [parseExp] at h
    split_ifs at h with he
    · dsimp only at h
      by_cases hhead : ((parseExpSign t).2.head?.map isJsonDigit).getD false = true
      · rw [if_pos hhead] at h
        obtain ⟨c, u, hsign, hc⟩ := (head_isDigit_iff _).mp hhead
        split at h
        · cases h
        · next exp r' hloop =>
          obtain ⟨-, rfl⟩ := Prod.mk.inj (Option.some.inj h)
          have hfrom := expSign_parseExpSign t
          rw [hsign] at hfrom hloop
          obtain ⟨hd, hexp⟩ := digits_of_expLoop hloop (Nat.zero_le _)
          exact .present he hfrom hc hd hexp
      · rw [if_neg hhead] at h
        cases h
    · cases h
      exact .absent

lemma parseExp_of_expPart (v : Float) {t r : List UInt8} (h : ExpPart 300 t r) (hr : NoDigit r)
    (he : ∀ c ∈ r.head?, ¬ (c = 101 ∨ c = 69)) : ∃ w, parseExp v t = some (w, r) := by
  cases h with
  | absent =>
    cases t with
    | nil => exact ⟨v, rfl⟩
    | cons c t => exact ⟨v, by rw [parseExp, if_neg (he c rfl)]⟩
  | @present e c t u _ exp hmark hsign hc h hexp =>
    have hafter := parseExpSign_of_expSign hsign hc
    have hhead := (head_isDigit_iff (c :: u)).mpr ⟨c, u, rfl, hc⟩
    exact ⟨_, by
      rw [parseExp, if_pos hmark]
      dsimp only
      rw [hafter, if_pos hhead, expLoop_of_digits h hexp hr]⟩

/-- The bytes behind a number do not extend it. -/
structure NumberEnd (r : List UInt8) : Prop where
  /-- No digit. -/
  digit : NoDigit r
  /-- No fraction. -/
  dot : r.head? ≠ some 46
  /-- No exponent. -/
  exp : ∀ c ∈ r.head?, ¬ (c = 101 ∨ c = 69)

/-- What `parse_number` consumes is a number. -/
lemma number_of_parseNumber {t r : List UInt8} {v : Float} (h : parseNumber t = some (v, r)) :
    Number 300 t r := by
  simp only [parseNumber, Option.bind_eq_bind, Option.bind_eq_some_iff] at h
  obtain ⟨⟨v₁, frac⟩, hint, ⟨v₂, exp⟩, hfrac, ⟨v₃, r'⟩, hexp, h⟩ := h
  obtain ⟨-, rfl⟩ := Prod.mk.inj (Option.some.inj h)
  refine ⟨_, _, _, ?_, intPart_of_parseInt hint, fracPart_of_parseFrac hfrac,
    expPart_of_parseExp hexp⟩
  cases t with
  | nil => exact .absent
  | cons c t =>
    by_cases hc : c = 45
    · subst hc
      exact .present
    · simp only [List.head?_cons, Option.some.injEq, hc, if_false]
      exact .absent

/-- `parse_number` consumes a number that the bytes behind it do not extend. -/
lemma parseNumber_of_number {t r : List UInt8} (h : Number 300 t r) (hr : NumberEnd r) :
    ∃ v, parseNumber t = some (v, r) := by
  obtain ⟨int, frac, exp, hminus, hint, hfrac, hexp⟩ := h
  have hexpHead : NoDigit exp ∧ exp.head? ≠ some 46 := by
    cases hexp with
    | absent => exact ⟨hr.digit, hr.dot⟩
    | present he =>
      rcases he with rfl | rfl
      all_goals exact ⟨fun c hc => by cases hc; decide, by simp⟩
  have hfracHead : NoDigit frac := by
    cases hfrac with
    | absent => exact hexpHead.1
    | present => exact fun c hc => by cases hc; decide
  obtain ⟨v₁, hint'⟩ := parseInt_of_intPart hint hfracHead
  obtain ⟨v₂, hfrac'⟩ := parseFrac_of_fracPart v₁ hfrac hexpHead.1 hexpHead.2
  obtain ⟨v₃, hexp'⟩ := parseExp_of_expPart v₂ hexp hr.digit hr.exp
  have hneg : (if t.head? = some 45 then t.tail else t) = int := by
    cases hminus with
    | present => rfl
    | absent =>
      cases hint with
      | zero => rfl
      | digits hc =>
        rw [if_neg]
        rintro ⟨⟩
        exact absurd hc.1 (by decide)
  refine ⟨if t.head? = some 45 then -v₃ else v₃, ?_⟩
  simp only [parseNumber, hneg, hint', Option.bind_eq_bind, Option.bind_some,
    hfrac', hexp']

end Prospero
