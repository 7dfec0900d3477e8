import Prospero.Lib.Buffer
import Prospero.Lib.Nesting
import Prospero.Gateway.WriteBuffer

/-!
# The JSON object of a reply

`extract_json_object` of `gateway/gateway.c`, and what `handle_completions` does with its result in JSON
mode: the reply is cut to its object, and a terminator is stored behind it.

The texts are those of `Nesting`, with the double quote, the backslash and the braces.  The scan finds the
first bracketed part as long as the first brace outside the literals is an opening one that has a partner
(`scan_group`); it takes a stray closing brace for an object, and gives up on a text whose first opening
brace stays open (`scan_open`).

### Outline

* the scan and the use of its result;
* the scan over literals, balanced texts and texts that stay open;
* `keepsObject_iff`, and a stray closing brace.
-/

namespace Prospero

open Nesting Buffer WriteBuffer

/-! ## The code -/

/-- The variables of `extract_json_object`. -/
structure ObjectScan where
  /-- `in_str` -/
  inStr : Bool
  /-- `esc` -/
  esc : Bool
  /-- `depth`, a 32-bit `int`. -/
  depth : ℤ
  /-- `start` -/
  start : ℕ

/-- A value as a 32-bit `int`. -/
def toInt (v : ℤ) : ℤ := Int.bmod v 0x100000000

/-- The loop of `extract_json_object` from index `i` on: where the object starts, and its length. -/
def scanObject : List UInt8 → ℕ → ObjectScan → Option (ℕ × ℕ)
  | [], _, _ => none
  | ch :: rest, i, scan =>
    if scan.inStr then
      if scan.esc then scanObject rest (i + 1) { scan with esc := false }
      else if ch = 92 then scanObject rest (i + 1) { scan with esc := true }
      else if ch = 34 then scanObject rest (i + 1) { scan with inStr := false }
      else scanObject rest (i + 1) scan
    else if ch = 34 then scanObject rest (i + 1) { scan with inStr := true }
    else if ch = 123 then
      scanObject rest (i + 1) { scan with
        start := if scan.depth = 0 then i else scan.start
        depth := toInt (scan.depth + 1) }
    else if ch = 125 then
      let depth := if 0 < scan.depth then toInt (scan.depth - 1) else scan.depth
      if depth = 0 then some (scan.start, i + 1 - scan.start)
      else scanObject rest (i + 1) { scan with depth := depth }
    else scanObject rest (i + 1) scan

/-- `extract_json_object`: the length it returns, and the text with the object moved to the front. -/
def extractJsonObject (s : List UInt8) : ℕ × List UInt8 :=
  match scanObject s 0 ⟨false, false, 0, 0⟩ with
  | none => (0, s)
  | some (start, n) => (n, if 0 < start then overwrite s 0 (slice s start n) else s)

/-- How a reply in JSON mode is not kept. -/
inductive KeepStop where
  /-- The request is answered with 400. -/
  | refused
  /-- The terminator is stored outside the block. -/
  | outside
deriving DecidableEq

/-- The reply in JSON mode: cut to its object, with a terminator. -/
def keepObject (wb : WriteBuffer.JsonWb) : Except KeepStop WriteBuffer.JsonWb :=
  let (objLen, s) := extractJsonObject (wb.buf.take wb.len)
  if objLen = 0 then .error .refused
  else
    let buf := overwrite wb.buf 0 s
    if buf = [] then .ok { wb with buf := buf, len := objLen }
    else if objLen < buf.length then .ok { wb with buf := overwrite buf objLen [0], len := objLen }
    else .error .outside

/-! ## What is promised -/

/-- The double quote, the backslash and the braces. -/
def braces : Marks UInt8 where
  quote := 34
  escape := 92
  opening := 123
  closing := 125
  quote_ne_escape := by decide
  opening_ne_quote := by decide
  closing_ne_quote := by decide
  closing_ne_opening := by decide

/-- The first balanced object of a text is moved to the front and its length returned; zero is returned
when there is none.  The result is used inside the block. -/
structure KeepsObject (wb : WriteBuffer.JsonWb) (text : List UInt8) : Prop where
  /-- When zero is returned. -/
  zero_iff : (extractJsonObject text).1 = 0 ↔ ¬ HasGroup braces text
  /-- The object. -/
  front : ∀ pre obj, FirstGroup braces text pre obj →
    (extractJsonObject text).1 = obj.length ∧ (extractJsonObject text).2.take obj.length = obj
  /-- The terminator. -/
  inside : keepObject wb ≠ .error .outside

/-- The first brace of a text outside its literals is no closing one, and if it is an opening one, it has a
partner or no brace has one. -/
structure OpensFirst (text : List UInt8) : Prop where
  /-- No closing brace comes first. -/
  not_closing : ∀ c r, Calm braces c → text ≠ c ++ braces.closing :: r
  /-- An opening brace that comes first has a partner, unless there is no object. -/
  partner : ∀ c r, Calm braces c → text = c ++ braces.opening :: r →
    Closes braces r ∨ ¬ HasGroup braces text

/-! ## The scan -/

/-- The variables outside the literals. -/
def outsideAt (depth : ℤ) (start : ℕ) : ObjectScan := ⟨false, false, depth, start⟩

lemma toInt_of_lt {k : ℕ} (h : k < 0x80000000) : toInt k = k := by
  rw [toInt]
  exact Int.bmod_eq_of_le (by omega) (by omega)

lemma toInt_succ {k : ℕ} (h : k + 1 < 0x80000000) : toInt ((k : ℤ) + 1) = ((k + 1 : ℕ) : ℤ) := by
  rw [← Nat.cast_succ, toInt_of_lt h]

section Scan

variable {t : List UInt8} {i start : ℕ} {depth : ℤ}

lemma scan_escape : scanObject (braces.escape :: t) i ⟨true, false, depth, start⟩ =
    scanObject t (i + 1) ⟨true, true, depth, start⟩ := rfl

lemma scan_escaped (c : UInt8) : scanObject (c :: t) i ⟨true, true, depth, start⟩ =
    scanObject t (i + 1) ⟨true, false, depth, start⟩ := rfl

lemma scan_unquote : scanObject (braces.quote :: t) i ⟨true, false, depth, start⟩ =
    scanObject t (i + 1) (outsideAt depth start) := rfl

lemma scan_quote : scanObject (braces.quote :: t) i (outsideAt depth start) =
    scanObject t (i + 1) ⟨true, false, depth, start⟩ := rfl

lemma scan_unit {c : UInt8} (hquote : c ≠ braces.quote) (hescape : c ≠ braces.escape) :
    scanObject (c :: t) i ⟨true, false, depth, start⟩ =
      scanObject t (i + 1) ⟨true, false, depth, start⟩ := by
  change c ≠ 34 at hquote
  change c ≠ 92 at hescape
  rw [scanObject, if_pos rfl, if_neg Bool.false_ne_true, if_neg hescape, if_neg hquote]

lemma scan_plain {c : UInt8} (hquote : c ≠ braces.quote) (hopening : c ≠ braces.opening)
    (hclosing : c ≠ braces.closing) : scanObject (c :: t) i (outsideAt depth start) =
      scanObject t (i + 1) (outsideAt depth start) := by
  change c ≠ 34 at hquote
  change c ≠ 123 at hopening
  change c ≠ 125 at hclosing
  rw [outsideAt, scanObject, if_neg Bool.false_ne_true, if_neg hquote, if_neg hopening, if_neg hclosing]

lemma scan_opening : scanObject (braces.opening :: t) i (outsideAt depth start) =
    scanObject t (i + 1) (outsideAt (toInt (depth + 1)) (if depth = 0 then i else start)) := rfl

lemma scan_closing {k : ℕ} (hk : k < 0x80000000) :
    scanObject (braces.closing :: t) i (outsideAt ((k + 1 : ℕ) : ℤ) start) =
      if k = 0 then some (start, i + 1 - start)
      else scanObject t (i + 1) (outsideAt k start) := by
  have hdepth : toInt (((k + 1 : ℕ) : ℤ) - 1) = k := by
    rw [Nat.cast_succ, add_sub_cancel_right, toInt_of_lt hk]
  have hpos : 0 < ((k + 1 : ℕ) : ℤ) := by omega
  change scanObject (125 :: t) i _ = _
  rw [outsideAt, scanObject, if_neg Bool.false_ne_true, if_neg (by decide), if_neg (by decide), if_pos rfl]
  simp only [if_pos hpos, hdepth, Nat.cast_eq_zero, outsideAt]

/-- The inside of a literal changes nothing. -/
lemma scan_units {u : List UInt8} (h : Units braces u) :
    scanObject (u ++ t) i ⟨true, false, depth, start⟩ =
      scanObject t (i + u.length) ⟨true, false, depth, start⟩ := by
  induction h generalizing i with
  | nil => rfl
  | plain hquote hescape _ ih =>
    rw [List.cons_append, scan_unit hquote hescape, ih, List.length_cons, Nat.add_right_comm,
      ← Nat.add_assoc]
  | escaped _ ih =>
    rw [List.cons_append, List.cons_append, scan_escape, scan_escaped, ih, List.length_cons,
      List.length_cons]
    congr 1
    omega

/-- A literal changes nothing. -/
lemma scan_literal {l : List UInt8} (h : IsLiteral braces l) :
    scanObject (l ++ t) i (outsideAt depth start) =
      scanObject t (i + l.length) (outsideAt depth start) := by
  obtain ⟨u, hu, rfl⟩ := h
  rw [List.cons_append, List.append_assoc, scan_quote, scan_units hu, List.singleton_append, scan_unquote]
  congr 1
  rw [List.length_cons, List.length_append, List.length_singleton]
  omega

/-- A text without braces changes nothing. -/
lemma scan_calm {c : List UInt8} (h : Calm braces c) :
    scanObject (c ++ t) i (outsideAt depth start) =
      scanObject t (i + c.length) (outsideAt depth start) := by
  induction h generalizing i with
  | nil => rfl
  | plain hquote hc _ ih =>
    rw [List.cons_append, scan_plain hquote hc.1 hc.2, ih, List.length_cons, Nat.add_right_comm,
      ← Nat.add_assoc]
  | literal hl _ ih => rw [List.append_assoc, scan_literal hl, ih, List.length_append, Nat.add_assoc]

/-- A balanced text changes nothing, inside an object. -/
lemma scan_balanced {b : List UInt8} (h : Balanced braces b) {k : ℕ} (hk : 0 < k)
    (hlen : k + b.length ≤ 0x80000000) :
    scanObject (b ++ t) i (outsideAt k start) = scanObject t (i + b.length) (outsideAt k start) := by
  induction h generalizing i k t with
  | calm hc => exact scan_calm hc
  | @group c b r hc _ _ ihb ihr =>
    rw [List.length_append, List.length_cons, List.length_append, List.length_cons] at hlen
    rw [List.append_assoc, scan_calm hc, List.cons_append, scan_opening, List.append_assoc,
      if_neg (by omega), toInt_succ (by omega), ihb (by omega) (by omega), List.cons_append,
      scan_closing (by omega), if_neg (by omega), ihr hk (by omega)]
    congr 1
    rw [List.length_append, List.length_cons, List.length_append, List.length_cons]
    omega

/-- A bracketed text is found. -/
lemma scan_group {b : List UInt8} (h : Balanced braces b) (hlen : 1 + b.length ≤ 0x80000000) :
    scanObject (braces.opening :: (b ++ braces.closing :: t)) i (outsideAt 0 start) =
      some (i, b.length + 2) := by
  have hone : toInt (0 + 1) = ((0 + 1 : ℕ) : ℤ) := rfl
  rw [scan_opening, if_pos rfl, hone, scan_balanced h (by omega) hlen, scan_closing (by decide), if_pos rfl]
  congr 2
  omega

/-- At the end nothing was found. -/
lemma scan_ended {e : List UInt8} (h : Ended braces e) :
    scanObject e i (outsideAt depth start) = none := by
  obtain rfl | ⟨_, rfl, u, hu, rfl | rfl⟩ := h
  · rw [scanObject]
  · have hrun := @scan_units [] (i + 1) start depth _ hu
    rw [List.append_nil] at hrun
    rw [scan_quote, hrun, scanObject]
  · rw [scan_quote, scan_units hu, scan_escape, scanObject]

/-- Nothing is found behind a brace that stays open. -/
lemma scan_open {r : List UInt8} (h : ¬ Closes braces r) {k : ℕ} (hk : 0 < k)
    (hlen : k + r.length ≤ 0x80000000) : scanObject r i (outsideAt k start) = none := by
  induction hn : r.length using Nat.strongRecOn generalizing r i k with
  | ind n ih =>
    obtain hcloses | ⟨b, s, hb, rfl, hs⟩ | ⟨b, e, hb, he, rfl⟩ := closes_or (m := braces) r
    · exact absurd hcloses h
    · rw [List.length_append, List.length_cons] at hlen hn
      rw [scan_balanced hb hk (by omega), scan_opening, if_neg (by omega)]
      by_cases hmax : k + 1 < 0x80000000
      · rw [toInt_succ hmax]
        exact ih _ (by omega) hs (by omega) (by omega) rfl
      · -- the counter wraps on the last byte of the largest text
        obtain rfl : s = [] := List.length_eq_zero_iff.mp (by omega)
        rw [scanObject]
    · rw [List.length_append] at hlen
      rw [scan_balanced hb hk (by omega), scan_ended he]

end Scan

/-! ## The object of a text -/

/-- The object behind a text without braces is moved to the front. -/
lemma extract_group {c b r : List UInt8} (hc : Calm braces c) (hb : Balanced braces b)
    (hlen : (c ++ braces.opening :: (b ++ braces.closing :: r)).length ≤ 0x80000000) :
    (extractJsonObject (c ++ braces.opening :: (b ++ braces.closing :: r))).1 = b.length + 2 ∧
      (extractJsonObject (c ++ braces.opening :: (b ++ braces.closing :: r))).2.take (b.length + 2) =
        braces.opening :: (b ++ [braces.closing]) ∧
      (extractJsonObject (c ++ braces.opening :: (b ++ braces.closing :: r))).2.length =
        (c ++ braces.opening :: (b ++ braces.closing :: r)).length := by
  have hsplit : c ++ braces.opening :: (b ++ braces.closing :: r) =
      c ++ ((braces.opening :: (b ++ [braces.closing])) ++ r) := by simp
  have hobj : (braces.opening :: (b ++ [braces.closing])).length = b.length + 2 := by simp
  have hscan : scanObject (c ++ braces.opening :: (b ++ braces.closing :: r)) 0 (outsideAt 0 0) =
      some (c.length, b.length + 2) := by
    rw [List.length_append, List.length_cons, List.length_append, List.length_cons] at hlen
    rw [scan_calm hc, Nat.zero_add, scan_group hb (by omega)]
  rw [extractJsonObject, show (⟨false, false, 0, 0⟩ : ObjectScan) = outsideAt 0 0 from rfl, hscan]
  refine ⟨rfl, ?_⟩
  dsimp only
  rw [hsplit]
  split_ifs with hmove
  · have hslice : slice (c ++ ((braces.opening :: (b ++ [braces.closing])) ++ r)) c.length (b.length + 2) =
        braces.opening :: (b ++ [braces.closing]) := by
      rw [slice, List.drop_left, ← hobj, List.take_left]
    constructor
    · rw [hslice, overwrite, List.take_zero, List.nil_append, ← hobj, List.take_left]
    · rw [hslice, length_overwrite]
      rw [hobj, List.length_append, List.length_append, hobj]
      omega
  · obtain rfl : c = [] := List.length_eq_zero_iff.mp (by omega)
    exact ⟨by rw [List.nil_append, ← hobj, List.take_left], rfl⟩

/-- A closing brace that comes first is taken for an object. -/
lemma extract_closing {c r : List UInt8} (hc : Calm braces c) :
    extractJsonObject (c ++ braces.closing :: r) = (c.length + 1, c ++ braces.closing :: r) := by
  have hscan : scanObject (c ++ braces.closing :: r) 0 (outsideAt 0 0) = some (0, c.length + 1) := by
    rw [scan_calm hc, Nat.zero_add]
    rfl
  rw [extractJsonObject, show (⟨false, false, 0, 0⟩ : ObjectScan) = outsideAt 0 0 from rfl, hscan]
  rfl

/-- Nothing is found behind a first brace that stays open. -/
lemma extract_open {c r : List UInt8} (hc : Calm braces c) (hr : ¬ Closes braces r)
    (hlen : (c ++ braces.opening :: r).length ≤ 0x80000000) :
    extractJsonObject (c ++ braces.opening :: r) = (0, c ++ braces.opening :: r) := by
  have hone : toInt (0 + 1) = ((1 : ℕ) : ℤ) := rfl
  have hscan : scanObject (c ++ braces.opening :: r) 0 (outsideAt 0 0) = none := by
    rw [List.length_append, List.length_cons] at hlen
    rw [scan_calm hc, scan_opening, hone, scan_open hr Nat.one_pos (by omega)]
  rw [extractJsonObject, show (⟨false, false, 0, 0⟩ : ObjectScan) = outsideAt 0 0 from rfl, hscan]

/-- Nothing is found in a text without braces. -/
lemma extract_ended {c e : List UInt8} (hc : Calm braces c) (he : Ended braces e) :
    extractJsonObject (c ++ e) = (0, c ++ e) := by
  have hscan : scanObject (c ++ e) 0 (outsideAt 0 0) = none := by rw [scan_calm hc, scan_ended he]
  rw [extractJsonObject, show (⟨false, false, 0, 0⟩ : ObjectScan) = outsideAt 0 0 from rfl, hscan]

/-- The first object starts with the first brace, and ends at its partner. -/
lemma firstGroup_eq {c b r pre obj : List UInt8} (hc : Calm braces c) (hb : Balanced braces b)
    (hlen : (c ++ braces.opening :: (b ++ braces.closing :: r)).length ≤ 0x80000000)
    (h : FirstGroup braces (c ++ braces.opening :: (b ++ braces.closing :: r)) pre obj) :
    obj = braces.opening :: (b ++ [braces.closing]) := by
  have hsplit : c ++ braces.opening :: (b ++ braces.closing :: r) =
      c ++ ((braces.opening :: (b ++ [braces.closing])) ++ r) := by simp
  obtain ⟨post, hpost⟩ := h.split
  obtain ⟨b', hb', rfl⟩ := h.group
  have hle := h.first c _ r hsplit hc.outside ⟨b, hb, rfl⟩
  have hge := hc.le_length h.outside (by rw [hpost, List.cons_append])
  obtain ⟨rfl, hrest⟩ := List.append_inj hpost (by omega)
  have hrest' : b ++ braces.closing :: r = b' ++ braces.closing :: post := by
    rw [List.cons_append, List.append_assoc] at hrest
    exact (List.cons.inj hrest).2
  rw [List.length_append, List.length_cons, List.length_append, List.length_cons] at hlen
  have hlen' := congrArg List.length hrest'
  rw [List.length_append, List.length_append, List.length_cons, List.length_cons] at hlen'
  have hscan := @scan_group r 0 0 b hb (by omega)
  rw [hrest', scan_group hb' (by omega)] at hscan
  have hb_eq : b'.length = b.length := by
    have hpair := Option.some_inj.mp hscan
    have hsnd := (Prod.mk.inj hpair).2
    omega
  rw [(List.append_inj hrest' hb_eq.symm).1]

/-! ## The reply -/

/-- What becomes of the reply. -/
lemma keepObject_eq {wb : WriteBuffer.JsonWb} {text : List UInt8} (h : Holds wb text)
    (hlen : (extractJsonObject text).2.length = text.length) :
    keepObject wb = .error .outside ↔
      (extractJsonObject text).1 ≠ 0 ∧ wb.buf ≠ [] ∧ wb.cap ≤ (extractJsonObject text).1 := by
  have hfits : (extractJsonObject text).2.length ≤ wb.buf.length := by
    rw [hlen, ← h.len, ← h.cap]
    exact h.room
  have hbuf : (overwrite wb.buf 0 (extractJsonObject text).2).length = wb.buf.length :=
    length_overwrite (by omega)
  have hnil : overwrite wb.buf 0 (extractJsonObject text).2 = [] ↔ wb.buf = [] := by
    rw [← List.length_eq_zero_iff, hbuf, List.length_eq_zero_iff]
  rw [keepObject, h.bytes]
  dsimp only
  rw [hbuf, ← h.cap]
  split_ifs with hzero hempty hroom
  · simp [hzero]
  · simp [hnil.mp hempty]
  · simp only [false_iff, not_and, not_le]
    exact fun _ _ => hroom
  · simp only [true_iff]
    exact ⟨hzero, fun hbuf => hempty (hnil.mpr hbuf), not_lt.mp hroom⟩

lemma length_extract {text : List UInt8} (hlen : text.length ≤ 0x80000000) :
    (extractJsonObject text).2.length = text.length := by
  obtain ⟨c, r, hc, rfl⟩ | ⟨c, r, hc, rfl⟩ | ⟨c, e, hc, he, rfl⟩ := first_bracket (m := braces) text
  · by_cases hcloses : Closes braces r
    · obtain ⟨b, r, hb, rfl⟩ := hcloses
      exact (extract_group hc hb hlen).2.2
    · rw [extract_open hc hcloses hlen]
  · rw [extract_closing hc]
  · rw [extract_ended hc he]

/-- **The object of a reply.**  The code keeps the first balanced object of a reply exactly when the first
brace outside the literals opens it, or there is none, and the object does not fill the block. -/
theorem keepsObject_iff {wb : WriteBuffer.JsonWb} {text : List UInt8} (h : Holds wb text) :
    KeepsObject wb text ↔ OpensFirst text ∧ ¬ (IsGroup braces text ∧ text.length = wb.cap) := by
  have hroom : text.length ≤ wb.cap := h.len ▸ h.room
  have hlen : text.length ≤ 0x80000000 := hroom.trans h.cap_le
  have hkeep := keepObject_eq h (length_extract hlen)
  constructor
  · rintro ⟨hzero, hfront, hinside⟩
    refine ⟨⟨fun c r hc htext => ?_, fun c r hc htext => ?_⟩, fun ⟨⟨b, hb, htext⟩, hfull⟩ => ?_⟩
    · -- the text up to the stray brace is no object
      subst htext
      have hne : (extractJsonObject (c ++ braces.closing :: r)).1 ≠ 0 := by
        rw [extract_closing hc]
        exact Nat.succ_ne_zero _
      have hgroup : HasGroup braces (c ++ braces.closing :: r) := by
        by_contra hnone
        exact hne (hzero.mpr hnone)
      obtain ⟨pre, obj, hfirst⟩ := hgroup.first
      obtain ⟨b, -, hobj⟩ := hfirst.group
      have htake := (hfront pre obj hfirst).2
      rw [extract_closing hc] at htake
      have hhead : c ++ braces.closing :: r =
          braces.opening :: (b ++ [braces.closing] ++ (c ++ braces.closing :: r).drop obj.length) := by
        rw [← List.cons_append, ← hobj]
        conv_lhs => rw [← List.take_append_drop obj.length (c ++ braces.closing :: r)]
        rw [htake]
      exact hc.head_ne_opening hhead
    · subst htext
      by_cases hcloses : Closes braces r
      · exact Or.inl hcloses
      · exact Or.inr (hzero.mp (by rw [extract_open hc hcloses hlen]))
    · have htext' : text = [] ++ braces.opening :: (b ++ braces.closing :: []) := htext
      have hwhole : (extractJsonObject text).1 = text.length := by
        have hgroup := @extract_group [] b [] .nil hb (by rw [← htext']; exact hlen)
        rw [← htext'] at hgroup
        rw [hgroup.1, htext]
        simp
      refine hinside (hkeep.mpr ⟨?_, ?_, ?_⟩)
      · rw [hwhole, htext]
        exact Nat.succ_ne_zero _
      · intro hnil
        have hcap := h.cap
        rw [hnil, List.length_nil, ← hfull, htext] at hcap
        exact Nat.succ_ne_zero _ hcap
      · rw [hwhole, hfull]
  · rintro ⟨⟨hclosing, hpartner⟩, hfull⟩
    obtain ⟨c, r, hc, rfl⟩ | ⟨c, r, hc, rfl⟩ | ⟨c, e, hc, he, rfl⟩ := first_bracket (m := braces) text
    · by_cases hcloses : Closes braces r
      · obtain ⟨b, r, hb, rfl⟩ := hcloses
        obtain ⟨hn, htake, -⟩ := extract_group hc hb hlen
        have hgroup : HasGroup braces (c ++ braces.opening :: (b ++ braces.closing :: r)) :=
          ⟨c, braces.opening :: (b ++ [braces.closing]), r, by simp, hc.outside, b, hb, rfl⟩
        have hobj : (braces.opening :: (b ++ [braces.closing])).length = b.length + 2 := by simp
        refine ⟨iff_of_false (by omega) (not_not_intro hgroup), fun pre obj hfirst => ?_, fun hout => ?_⟩
        · rw [firstGroup_eq hc hb hlen hfirst, hobj]
          exact ⟨hn, htake⟩
        · obtain ⟨-, -, hcap⟩ := hkeep.mp hout
          rw [hn] at hcap
          rw [List.length_append, List.length_cons, List.length_append, List.length_cons] at hroom
          obtain rfl : c = [] := List.length_eq_zero_iff.mp (by omega)
          obtain rfl : r = [] := List.length_eq_zero_iff.mp (by omega)
          refine hfull ⟨⟨b, hb, rfl⟩, ?_⟩
          rw [List.nil_append, hobj]
          omega
      · have hnone := (hpartner c r hc rfl).resolve_left hcloses
        have hrun := extract_open hc hcloses hlen
        refine ⟨iff_of_true (by rw [hrun]) hnone, fun pre obj hfirst => absurd hfirst.hasGroup hnone,
          fun hout => ?_⟩
        exact (hkeep.mp hout).1 (by rw [hrun])
    · exact absurd rfl (hclosing c r hc)
    · have hrun := extract_ended hc he
      have hnone : ¬ HasGroup braces (c ++ e) :=
        not_hasGroup_of_brackets (by rw [brackets_calm hc, brackets_ended he])
      refine ⟨iff_of_true (by rw [hrun]) hnone, fun pre obj hfirst => absurd hfirst.hasGroup hnone,
        fun hout => ?_⟩
      exact (hkeep.mp hout).1 (by rw [hrun])

/-- A buffer of 256 bytes that holds a text. -/
def replyBuffer (text : List UInt8) : WriteBuffer.JsonWb :=
  ⟨text ++ List.replicate (256 - text.length) 0, text.length, 256, 1⟩

lemma holds_replyBuffer {text : List UInt8} (h : text.length ≤ 256) : Holds (replyBuffer text) text where
  len := rfl
  room := h
  cap := by
    rw [replyBuffer, List.length_append, List.length_replicate]
    dsimp only
    omega
  bytes := List.take_left
  doubled := Or.inr ⟨8, le_refl _, by decide, rfl⟩

/-- The reply `{}`. -/
theorem keepsObject_iff_braces :
    Holds (replyBuffer [123, 125]) [123, 125] ∧
      (KeepsObject (replyBuffer [123, 125]) [123, 125] ↔ OpensFirst [123, 125] ∧
        ¬ (IsGroup braces [123, 125] ∧ ([123, 125] : List UInt8).length = 256)) :=
  ⟨holds_replyBuffer (by decide), keepsObject_iff (holds_replyBuffer (by decide))⟩

/-- The reply `} {}` is cut to `}`. -/
theorem keepObject_stray :
    Holds (replyBuffer [125, 32, 123, 125]) [125, 32, 123, 125] ∧
      extractJsonObject [125, 32, 123, 125] = (1, [125, 32, 123, 125]) ∧
      ¬ KeepsObject (replyBuffer [125, 32, 123, 125]) [125, 32, 123, 125] := by
  have hrun : extractJsonObject [125, 32, 123, 125] = (1, [125, 32, 123, 125]) := by decide
  refine ⟨holds_replyBuffer (by decide), hrun, fun hkeeps => ?_⟩
  have hgroup : HasGroup braces [125, 32, 123, 125] :=
    ⟨[125, 32], [123, 125], [], rfl, .plain (by decide) trivial (.plain (by decide) trivial .nil),
      [], .calm .nil, rfl⟩
  obtain ⟨pre, obj, hfirst⟩ := hgroup.first
  obtain ⟨b, -, hobj⟩ := hfirst.group
  have hlen := (hkeeps.front pre obj hfirst).1
  rw [hrun, hobj] at hlen
  simp at hlen

end Prospero
