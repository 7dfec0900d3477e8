import Mathlib.Data.List.Forall2
import Prospero.Gateway.Http

/-!
# The framing of requests

Where the headers of a request end and which bytes are its body, over the bytes as they are, and what
`pai_http_parse_request` makes of them.  The code reads a line as a C string, takes the first header of a
name, and looks for `Transfer-Encoding` only when there is no `Content-Length`.

### Outline

* `IsLine`, `Lines` and `HeaderSection`: lines of raw bytes; `headerName` and `headerValue`;
* the lines the code reads (`lines_of_headerLoop`), and its reading of a header (`header_of_parse`);
* `framed_iff`, and a request with both framing headers.
-/

namespace Prospero

/-! ## Lines and headers -/

/-- The first line of some bytes, and the bytes behind its end: a line feed, or one with a carriage return
in front. -/
inductive IsLine : List UInt8 → List UInt8 → List UInt8 → Prop
  | crlf {rest : List UInt8} : IsLine (13 :: 10 :: rest) [] rest
  | lf {rest : List UInt8} : IsLine (10 :: rest) [] rest
  | byte {b : UInt8} {data line rest : List UInt8} (hlf : b ≠ 10) (hcr : ¬ (b = 13 ∧ data.head? = some 10))
      (h : IsLine data line rest) : IsLine (b :: data) (b :: line) rest

/-- Lines one behind the other. -/
inductive Lines : List UInt8 → List (List UInt8) → List UInt8 → Prop
  | nil {data : List UInt8} : Lines data [] data
  | cons {data line data' rest : List UInt8} {lines : List (List UInt8)} (hline : IsLine data line data')
      (h : Lines data' lines rest) : Lines data (line :: lines) rest

/-- Header lines, up to an empty line. -/
def HeaderSection (data : List UInt8) (lines : List (List UInt8)) (rest : List UInt8) : Prop :=
  ∃ data', Lines data lines data' ∧ (∀ line ∈ lines, line ≠ []) ∧ IsLine data' [] rest

/-- The bytes of a line in front of its colon. -/
def headerName (line : List UInt8) : List UInt8 := line.takeWhile (· ≠ 58)

/-- The bytes of a line behind its colon, without spaces and tabs in front. -/
def headerValue (line : List UInt8) : List UInt8 :=
  ((line.dropWhile (· ≠ 58)).drop 1).dropWhile fun c => c = 32 || c = 9

/-- The line is a header with a name, in any case. -/
def Named (name line : List UInt8) : Prop := asciiIeq (headerName line) name = true

/-- The decimal digits of a number. -/
def IsDecimal (s : List UInt8) (n : ℕ) : Prop :=
  s ≠ [] ∧ (∀ c ∈ s, 48 ≤ c ∧ c ≤ 57) ∧ s.foldl (fun v c => v * 10 + (c.toNat - 48)) 0 = n

/-! ## What is promised -/

/-- The headers of a request end with an empty line, none is `Transfer-Encoding`, every `Content-Length`
is the length of the body, and the body is what follows the empty line. -/
def Framed (data : List UInt8) (req : HttpReq) : Prop :=
  ∃ first data' lines rest, IsLine data first data' ∧ HeaderSection data' lines rest ∧
    lines.length = req.headers.length ∧ (∀ line ∈ lines, ¬ Named transferEncoding line) ∧
    (∀ line ∈ lines, Named contentLength line → IsDecimal (headerValue line) req.body.length) ∧
    ((∀ line ∈ lines, ¬ Named contentLength line) → req.body = []) ∧ req.body <+: rest

/-- No header line starts with a zero byte, only one of the two framing headers is there, and every
`Content-Length` is the same number. -/
def Unambiguous (data : List UInt8) : Prop :=
  ∃ first data' lines rest, IsLine data first data' ∧ HeaderSection data' lines rest ∧
    (∀ line ∈ lines, line.head? ≠ some 0) ∧
    ¬ ((∃ line ∈ lines, Named contentLength line) ∧ ∃ line ∈ lines, Named transferEncoding line) ∧
    ∃ n, ∀ line ∈ lines, Named contentLength line → IsDecimal (headerValue line) n

/-! ## Lines are unique -/

lemma IsLine.unique {data line rest line' rest' : List UInt8} (h : IsLine data line rest)
    (h' : IsLine data line' rest') : line = line' ∧ rest = rest' := by
  induction h generalizing line' with
  | crlf =>
    cases h' with
    | crlf => exact ⟨rfl, rfl⟩
    | byte hlf hcr _ => exact absurd ⟨rfl, rfl⟩ hcr
  | lf =>
    cases h' with
    | lf => exact ⟨rfl, rfl⟩
    | byte hlf hcr _ => exact absurd rfl hlf
  | @byte b data line rest hlf hcr _ ih =>
    cases h' with
    | crlf => exact absurd ⟨rfl, rfl⟩ hcr
    | lf => exact absurd rfl hlf
    | byte _ _ h' =>
      obtain ⟨rfl, hrest⟩ := ih h'
      exact ⟨rfl, hrest⟩

/-- As many lines are the same lines. -/
lemma Lines.unique {data rest rest' : List UInt8} {lines lines' : List (List UInt8)}
    (h : Lines data lines rest) (h' : Lines data lines' rest') (hlen : lines.length = lines'.length) :
    lines = lines' ∧ rest = rest' := by
  induction h generalizing lines' with
  | nil =>
    cases h' with
    | nil => exact ⟨rfl, rfl⟩
    | cons => cases hlen
  | cons hline _ ih =>
    cases h' with
    | nil => cases hlen
    | cons hline' h' =>
      obtain ⟨rfl, rfl⟩ := hline.unique hline'
      obtain ⟨rfl, hrest⟩ := ih h' (Nat.succ.inj hlen)
      exact ⟨rfl, hrest⟩

/-- Lines up to the first that has a property are the same lines. -/
lemma Lines.unique_until {data data₁ data₂ rest₁ rest₂ last₁ last₂ : List UInt8}
    {lines₁ lines₂ : List (List UInt8)} {p : List UInt8 → Prop}
    (h₁ : Lines data lines₁ data₁) (hbefore₁ : ∀ line ∈ lines₁, ¬ p line)
    (hlast₁ : IsLine data₁ last₁ rest₁) (hp₁ : p last₁)
    (h₂ : Lines data lines₂ data₂) (hbefore₂ : ∀ line ∈ lines₂, ¬ p line)
    (hlast₂ : IsLine data₂ last₂ rest₂) (hp₂ : p last₂) :
    lines₁ = lines₂ ∧ last₁ = last₂ ∧ rest₁ = rest₂ := by
  induction h₁ generalizing lines₂ with
  | nil =>
    cases h₂ with
    | nil => exact ⟨rfl, hlast₁.unique hlast₂⟩
    | cons hline _ =>
      obtain ⟨rfl, -⟩ := hlast₁.unique hline
      exact absurd hp₁ (hbefore₂ _ List.mem_cons_self)
  | cons hline _ ih =>
    cases h₂ with
    | nil =>
      obtain ⟨rfl, -⟩ := hlast₂.unique hline
      exact absurd hp₂ (hbefore₁ _ List.mem_cons_self)
    | cons hline₂ h₂ =>
      obtain ⟨rfl, rfl⟩ := hline.unique hline₂
      obtain ⟨rfl, hlast, hrest⟩ := ih (fun l hl => hbefore₁ l (List.mem_cons_of_mem _ hl)) hlast₁ h₂
        (fun l hl => hbefore₂ l (List.mem_cons_of_mem _ hl))
      exact ⟨rfl, hlast, hrest⟩

/-! ## What the code reads -/

lemma isLine_of_nextLineLoop {data out line rest : List UInt8}
    (h : nextLineLoop data out = some (line, rest)) :
    ∃ raw, line = out ++ raw ∧ IsLine data raw rest := by
  induction data generalizing out with
  | nil => cases h
  | cons b data ih =>
    rw [nextLineLoop] at h
    split_ifs at h with hlong hcrlf hlf
    · cases h
      obtain ⟨rfl, hhead⟩ := hcrlf
      obtain ⟨data, rfl⟩ := List.head?_eq_some_iff.mp hhead
      exact ⟨[], (List.append_nil _).symm, .crlf⟩
    · cases h
      subst hlf
      exact ⟨[], (List.append_nil _).symm, .lf⟩
    · obtain ⟨raw, rfl, hline⟩ := ih h
      exact ⟨b :: raw, by rw [List.append_assoc]; rfl, .byte hlf hcrlf hline⟩

/-- A line of the code is the C string of a line. -/
lemma isLine_of_nextLine {data line rest : List UInt8} (h : nextLine data = some (line, rest)) :
    ∃ raw, line = cString raw ∧ IsLine data raw rest := by
  obtain ⟨⟨raw, rest'⟩, hloop, heq⟩ := Option.map_eq_some_iff.mp h
  cases heq
  obtain ⟨raw', hraw, hline⟩ := isLine_of_nextLineLoop hloop
  rw [List.nil_append] at hraw
  subst hraw
  exact ⟨_, rfl, hline⟩

/-- The header loop reads lines, up to one whose C string is empty. -/
lemma lines_of_headerLoop {total slots : ℕ} {data rest : List UInt8}
    {headers headers' : List (List UInt8 × List UInt8)}
    (h : headerLoop total slots data headers = .ok (headers', rest)) :
    ∃ lines hs last data', headers' = headers ++ hs ∧ Lines data lines data' ∧
      List.Forall₂ (fun line header => cString line ≠ [] ∧ parseHeader (cString line) = some header)
        lines hs ∧
      IsLine data' last rest ∧ cString last = [] := by
  induction slots generalizing data headers with
  | zero =>
    rw [headerLoop] at h
    cases hnext : nextLine data with
    | none =>
      rw [hnext] at h
      cases h
    | some found =>
      obtain ⟨line, data'⟩ := found
      obtain ⟨raw, rfl, hline⟩ := isLine_of_nextLine hnext
      rw [hnext] at h
      dsimp only at h
      split_ifs at h with hempty
      cases h
      exact ⟨[], [], raw, data, (List.append_nil _).symm, .nil, .nil, hline, hempty⟩
  | succ slots ih =>
    rw [headerLoop] at h
    cases hnext : nextLine data with
    | none =>
      rw [hnext] at h
      cases h
    | some found =>
      obtain ⟨line, data'⟩ := found
      obtain ⟨raw, rfl, hline⟩ := isLine_of_nextLine hnext
      rw [hnext] at h
      dsimp only at h
      split_ifs at h with hempty
      · cases h
        exact ⟨[], [], raw, data, (List.append_nil _).symm, .nil, .nil, hline, hempty⟩
      · cases hheader : parseHeader (cString raw) with
        | none =>
          rw [hheader] at h
          cases h
        | some header =>
          rw [hheader] at h
          obtain ⟨lines, hs, last, data'', rfl, hlines, hall, hlast, hnil⟩ := ih h
          exact ⟨raw :: lines, header :: hs, last, data'', by rw [List.append_assoc]; rfl,
            .cons hline hlines, .cons ⟨hempty, hheader⟩ hall, hlast, hnil⟩

/-! ## What the code makes of a header -/

lemma takeWhile_append_cons {p : UInt8 → Bool} {f r : List UInt8} {c : UInt8} (hf : ∀ b ∈ f, p b = true)
    (hc : p c = false) : (f ++ c :: r).takeWhile p = f := by
  rw [List.takeWhile_append_of_pos hf, List.takeWhile_cons, hc]
  simp

lemma dropWhile_append_cons {p : UInt8 → Bool} {f r : List UInt8} {c : UInt8} (hf : ∀ b ∈ f, p b = true)
    (hc : p c = false) : (f ++ c :: r).dropWhile p = c :: r := by
  rw [List.dropWhile_append_of_pos hf, List.dropWhile_cons, hc]
  simp

/-- A text that is split at a symbol. -/
lemma eq_of_splitChar {c : UInt8} {text f r : List UInt8} (h : splitChar c text = some (f, r)) :
    text = f ++ c :: r ∧ c ∉ f := by
  rw [splitChar] at h
  split_ifs at h with hmem
  obtain ⟨rfl, rfl⟩ := Prod.mk.inj (Option.some_inj.mp h)
  have hnot : c ∉ text.takeWhile (· ≠ c) := fun hc => by
    have hp := List.mem_takeWhile_imp hc
    simp at hp
  refine ⟨?_, hnot⟩
  clear h hnot
  induction text with
  | nil => cases hmem
  | cons b text ih =>
    by_cases hb : b = c
    · subst hb
      simp
    · have htext := ih ((List.mem_cons.mp hmem).resolve_left (Ne.symm hb))
      have htake : (b :: text).takeWhile (· ≠ c) = b :: text.takeWhile (· ≠ c) := by simp [hb]
      rw [htake, List.length_cons, List.drop_succ_cons, List.cons_append, ← htext]

lemma cString_append_cons {f r : List UInt8} {c : UInt8} (hf : 0 ∉ f) (hc : c ≠ 0) :
    cString (f ++ c :: r) = f ++ c :: cString r := by
  have hf' : ∀ b ∈ f, decide (b ≠ 0) = true := fun b hb => decide_eq_true fun h0 => hf (h0 ▸ hb)
  rw [cString, List.takeWhile_append_of_pos hf', List.takeWhile_cons, if_pos (decide_eq_true hc), cString]

lemma cString_dropWhile (a : List UInt8) :
    (cString a).dropWhile (fun c => c = 32 || c = 9) =
      cString (a.dropWhile fun c => c = 32 || c = 9) := by
  induction a with
  | nil => rfl
  | cons c a ih =>
    by_cases hc : c = 0
    · subst hc
      rfl
    · have hcs : cString (c :: a) = c :: cString a := cString_append_cons (f := []) (by simp) hc
      rw [hcs, List.dropWhile_cons, List.dropWhile_cons]
      split_ifs with hws
      · exact ih
      · exact hcs.symm

/-- Name and value of a header that the code reads. -/
lemma header_of_parse {line : List UInt8} {header : List UInt8 × List UInt8}
    (h : parseHeader (cString line) = some header) :
    header.1 = headerName line ∧ header.2 = cString (headerValue line) := by
  rw [parseHeader] at h
  obtain ⟨⟨name, rest⟩, hsplit, h⟩ := Option.bind_eq_some_iff.mp h
  dsimp only at h
  split_ifs at h
  cases h
  obtain ⟨hline, hcolon⟩ := eq_of_splitChar hsplit
  -- the colon is in front of the first zero byte
  have hzero : 0 ∉ name := fun hmem => by
    have hc : (0 : UInt8) ∈ cString line := by
      rw [hline]
      exact List.mem_append_left _ hmem
    have hp := List.mem_takeWhile_imp hc
    simp at hp
  obtain ⟨a, hraw⟩ : ∃ a, line = name ++ 58 :: a := by
    have hprefix : name ++ 58 :: rest <+: line := hline ▸ List.takeWhile_prefix _
    obtain ⟨more, hmore⟩ := hprefix
    exact ⟨rest ++ more, by rw [← hmore, List.append_assoc, List.cons_append]⟩
  have hrest : rest = cString a := by
    rw [hraw, cString_append_cons hzero (by decide)] at hline
    exact (List.cons.inj (List.append_cancel_left hline)).2.symm
  have hname : ∀ b ∈ name, decide (b ≠ 58) = true := fun b hb =>
    decide_eq_true fun h58 => hcolon (h58 ▸ hb)
  subst hraw
  constructor
  · exact (takeWhile_append_cons hname (by decide)).symm
  · rw [headerValue, dropWhile_append_cons hname (by decide), List.drop_one, List.tail_cons, hrest,
      cString_dropWhile]

/-- A number that the code reads. -/
lemma isDecimal_of_parseU64 {s : List UInt8} {n : ℕ} (h : parseU64 s = some n) : IsDecimal s n := by
  have hdigits : ∀ v, parseDigits v s = some n → (∀ c ∈ s, 48 ≤ c ∧ c ≤ 57) ∧
      s.foldl (fun v c => v * 10 + (c.toNat - 48)) v = n := by
    clear h
    induction s with
    | nil => exact fun v h => ⟨fun c hc => (List.not_mem_nil hc).elim, Option.some_inj.mp h⟩
    | cons c s ih =>
      intro v h
      rw [parseDigits] at h
      dsimp only at h
      split_ifs at h with hrange hmax
      obtain ⟨hmore, hvalue⟩ := ih _ h
      refine ⟨fun d hd => ?_, hvalue⟩
      obtain rfl | hd := List.mem_cons.mp hd
      · exact ⟨UInt8.not_lt.mp fun hlt => hrange (Or.inl hlt),
          UInt8.not_lt.mp fun hlt => hrange (Or.inr hlt)⟩
      · exact hmore d hd
  rw [parseU64] at h
  split_ifs at h with hnil
  exact ⟨hnil, hdigits 0 h⟩

lemma IsDecimal.unique {s : List UInt8} {n n' : ℕ} (h : IsDecimal s n) (h' : IsDecimal s n') : n = n' :=
  h.2.2.symm.trans h'.2.2

/-- A number has no zero byte. -/
lemma IsDecimal.cString {s : List UInt8} {n : ℕ} (h : IsDecimal s n) : cString s = s := by
  rw [Prospero.cString, List.takeWhile_eq_self_iff]
  intro c hc
  refine decide_eq_true fun h0 => ?_
  have hle := (h.2.1 c hc).1
  rw [h0] at hle
  exact absurd hle (by decide)

/-! ## Accepted requests -/

/-- What an accepted request is: a line, headers the code reads, a line it takes for the end, and a
body. -/
lemma parse_ok {data : List UInt8} {req : HttpReq} (h : paiHttpParseRequest data = .ok req) :
    ∃ first data' lines last data'' rest, IsLine data first data' ∧ Lines data' lines data'' ∧
      List.Forall₂ (fun line header => cString line ≠ [] ∧ parseHeader (cString line) = some header)
        lines req.headers ∧
      IsLine data'' last rest ∧ cString last = [] ∧ parseBody req.headers rest = .ok req.body := by
  rw [paiHttpParseRequest] at h
  cases hnext : nextLine data with
  | none =>
    rw [hnext] at h
    cases h
  | some found =>
    obtain ⟨line, data'⟩ := found
    obtain ⟨first, -, hfirst⟩ := isLine_of_nextLine hnext
    rw [hnext] at h
    dsimp only at h
    cases hreq : parseRequestLine line with
    | none =>
      rw [hreq] at h
      cases h
    | some start =>
      rw [hreq] at h
      dsimp only at h
      cases hloop : headerLoop data.length paiHttpMaxHeaders data' [] with
      | error st =>
        rw [hloop] at h
        cases h
      | ok result =>
        obtain ⟨headers, rest⟩ := result
        rw [hloop] at h
        dsimp only at h
        cases hbody : parseBody headers rest with
        | error st =>
          rw [hbody] at h
          cases h
        | ok body =>
          rw [hbody] at h
          cases h
          obtain ⟨lines, hs, last, data'', rfl, hlines, hall, hlast, hnil⟩ := lines_of_headerLoop hloop
          exact ⟨first, data', lines, last, data'', rest, hfirst, hlines, hall, hlast, hnil, hbody⟩

/-- The body the code takes. -/
lemma parseBody_ok {headers : List (List UInt8 × List UInt8)} {rest body : List UInt8}
    (h : parseBody headers rest = .ok body) :
    body <+: rest ∧
      ((∃ cl, paiHttpHeader headers contentLength = some cl ∧ parseU64 cl = some body.length) ∨
        paiHttpHeader headers contentLength = none ∧ paiHttpHeader headers transferEncoding = none ∧
          body = []) := by
  rw [parseBody] at h
  cases hcl : paiHttpHeader headers contentLength with
  | some cl =>
    rw [hcl] at h
    dsimp only at h
    cases hlen : parseU64 cl with
    | none =>
      rw [hlen] at h
      cases h
    | some bodyLen =>
      rw [hlen] at h
      dsimp only at h
      split_ifs at h with hmax hmore
      cases h
      refine ⟨List.take_prefix _ _, Or.inl ⟨cl, rfl, ?_⟩⟩
      rw [hlen, List.length_take, min_eq_left (not_lt.mp hmore)]
  | none =>
    rw [hcl] at h
    dsimp only at h
    cases hte : paiHttpHeader headers transferEncoding with
    | some te =>
      rw [hte] at h
      cases h
    | none =>
      rw [hte] at h
      cases h
      exact ⟨List.nil_prefix, Or.inr ⟨rfl, rfl, rfl⟩⟩

lemma cString_eq_nil_iff (line : List UInt8) : cString line = [] ↔ line = [] ∨ line.head? = some 0 := by
  cases line with
  | nil => simp [cString]
  | cons b line =>
    rw [cString, List.takeWhile_cons]
    by_cases hb : b = 0
    · simp [hb]
    · simp [hb]

section Accepted

variable {lines : List (List UInt8)} {headers : List (List UInt8 × List UInt8)} {name : List UInt8}

lemma read_of_headers
    (h : List.Forall₂ (fun line header => cString line ≠ [] ∧ parseHeader (cString line) = some header)
      lines headers) : ∀ line ∈ lines, cString line ≠ [] := by
  induction h with
  | nil => exact fun line hline => (List.not_mem_nil hline).elim
  | cons hhead _ ih =>
    intro line hline
    obtain rfl | hline := List.mem_cons.mp hline
    · exact hhead.1
    · exact ih line hline

/-- A header the code finds is the first line of that name. -/
lemma named_of_header
    (h : List.Forall₂ (fun line header => cString line ≠ [] ∧ parseHeader (cString line) = some header)
      lines headers) {value : List UInt8} (hvalue : paiHttpHeader headers name = some value) :
    ∃ line ∈ lines, Named name line ∧ value = cString (headerValue line) := by
  induction h with
  | nil => cases hvalue
  | @cons line header lines headers hhead _ ih =>
    obtain ⟨hname, hval⟩ := header_of_parse hhead.2
    rw [paiHttpHeader, List.find?_cons] at hvalue
    cases hmatch : asciiIeq header.1 name with
    | true =>
      rw [hmatch] at hvalue
      refine ⟨line, List.mem_cons_self, ?_, ?_⟩
      · rw [Named, ← hname]
        exact hmatch
      · exact (Option.some_inj.mp hvalue).symm.trans hval
    | false =>
      rw [hmatch] at hvalue
      obtain ⟨line', hmem, hnamed⟩ := ih hvalue
      exact ⟨line', List.mem_cons_of_mem _ hmem, hnamed⟩

/-- No line has a name that the code does not find. -/
lemma not_named_of_header
    (h : List.Forall₂ (fun line header => cString line ≠ [] ∧ parseHeader (cString line) = some header)
      lines headers) (hnone : paiHttpHeader headers name = none) : ∀ line ∈ lines, ¬ Named name line := by
  induction h with
  | nil => exact fun line hline => (List.not_mem_nil hline).elim
  | @cons line header lines headers hhead _ ih =>
    obtain ⟨hname, -⟩ := header_of_parse hhead.2
    rw [paiHttpHeader, List.find?_cons] at hnone
    cases hmatch : asciiIeq header.1 name with
    | true =>
      rw [hmatch] at hnone
      cases hnone
    | false =>
      rw [hmatch] at hnone
      intro line' hline'
      obtain rfl | hline' := List.mem_cons.mp hline'
      · rw [Named, ← hname, hmatch]
        exact Bool.false_ne_true
      · exact ih hnone line' hline'

end Accepted

/-- **Framing.**  An accepted request is framed as promised exactly when no header line starts with a zero
byte, `Content-Length` and `Transfer-Encoding` do not stand together, and every `Content-Length` is the
same number. -/
theorem framed_iff {data : List UInt8} {req : HttpReq} (h : paiHttpParseRequest data = .ok req) :
    Framed data req ↔ Unambiguous data := by
  obtain ⟨first, data', lines, last, data'', rest, hfirst, hlines, hall, hlast, hnil, hbody⟩ := parse_ok h
  have hread := read_of_headers hall
  obtain ⟨hbytes, hlength⟩ := parseBody_ok hbody
  constructor
  · rintro ⟨first₂, data₂, lines₂, rest₂, hfirst₂, ⟨data₃, hlines₂, hne, hempty⟩, hcount, hte, hcl, -, -⟩
    obtain ⟨rfl, rfl⟩ := hfirst.unique hfirst₂
    obtain ⟨rfl, rfl⟩ := hlines.unique hlines₂ (hall.length_eq.trans hcount.symm)
    refine ⟨first, data', lines, rest₂, hfirst, ⟨data'', hlines, hne, hempty⟩, fun line hline hzero => ?_,
      fun hboth => ?_, req.body.length, hcl⟩
    · exact hread line hline ((cString_eq_nil_iff line).mpr (Or.inr hzero))
    · obtain ⟨-, line, hline, hnamed⟩ := hboth
      exact hte line hline hnamed
  · rintro ⟨first₂, data₂, lines₂, rest₂, hfirst₂, ⟨data₃, hlines₂, hne, hempty⟩, hzero, hboth, n, hcl⟩
    obtain ⟨rfl, rfl⟩ := hfirst.unique hfirst₂
    obtain ⟨rfl, rfl, rfl⟩ := Lines.unique_until (p := fun line => cString line = []) hlines hread hlast hnil
      hlines₂ (fun line hline hline0 => ((cString_eq_nil_iff line).mp hline0).elim (hne line hline)
        (hzero line hline)) hempty rfl
    refine ⟨first, data', lines, rest, hfirst, ⟨data'', hlines, hne, hlast⟩, hall.length_eq, ?_, ?_, ?_,
      hbytes⟩
    · obtain ⟨cl, hfound, -⟩ | ⟨-, hnone, -⟩ := hlength
      · obtain ⟨line, hline, hnamed, -⟩ := named_of_header hall hfound
        exact fun line' hline' hnamed' => hboth ⟨⟨line, hline, hnamed⟩, line', hline', hnamed'⟩
      · exact not_named_of_header hall hnone
    · obtain ⟨cl, hfound, hnumber⟩ | ⟨hnone, -, -⟩ := hlength
      · obtain ⟨line, hline, hnamed, rfl⟩ := named_of_header hall hfound
        have hdecimal := hcl line hline hnamed
        rw [hdecimal.cString] at hnumber
        rw [(isDecimal_of_parseU64 hnumber).unique hdecimal]
        exact hcl
      · exact fun line hline hnamed => absurd hnamed (not_named_of_header hall hnone line hline)
    · obtain ⟨cl, hfound, -⟩ | ⟨-, -, hempty⟩ := hlength
      · obtain ⟨line, hline, hnamed, -⟩ := named_of_header hall hfound
        exact fun hno => absurd hnamed (hno line hline)
      · exact fun _ => hempty

lemma parse_of_toOption {data : List UInt8} {α : Type} {f : HttpReq → Option α} {a : α}
    (h : (paiHttpParseRequest data).toOption.bind f = some a) :
    ∃ req, paiHttpParseRequest data = .ok req ∧ f req = some a := by
  cases hrun : paiHttpParseRequest data with
  | error st =>
    rw [hrun] at h
    cases h
  | ok req =>
    rw [hrun] at h
    exact ⟨req, rfl, h⟩

/-- A request without headers. -/
theorem framed_iff_getRoot :
    ∃ req, paiHttpParseRequest (getRoot ++ [10, 10]) = .ok req ∧
      (Framed (getRoot ++ [10, 10]) req ↔ Unambiguous (getRoot ++ [10, 10])) := by
  have hrun : (paiHttpParseRequest (getRoot ++ [10, 10])).toOption.bind (fun req => some req.body) =
      some [] := by decide +kernel
  obtain ⟨req, hreq, -⟩ := parse_of_toOption hrun
  exact ⟨req, hreq, framed_iff hreq⟩

/-- `Content-Length: 0` and `Transfer-Encoding: c`. -/
def bothFramings : List UInt8 :=
  getRoot ++ 10 :: (contentLength ++ [58, 48, 10] ++ transferEncoding ++ [58, 99, 10, 10])

/-- A request with both framing headers is accepted. -/
theorem bothFramings_not_framed :
    ∃ req, paiHttpParseRequest bothFramings = .ok req ∧ ¬ Framed bothFramings req := by
  have hrun : (paiHttpParseRequest bothFramings).toOption.bind
      (fun req => paiHttpHeader req.headers transferEncoding) = some [99] := by decide +kernel
  obtain ⟨req, hreq, hte⟩ := parse_of_toOption hrun
  refine ⟨req, hreq, ?_⟩
  rintro ⟨first, data', lines, rest, hfirst, ⟨data'', hlines, -, -⟩, hcount, hnone, -⟩
  obtain ⟨first₂, data₂, lines₂, last, data₃, rest₂, hfirst₂, hlines₂, hall, -⟩ := parse_ok hreq
  obtain ⟨rfl, rfl⟩ := hfirst.unique hfirst₂
  obtain ⟨rfl, rfl⟩ := hlines.unique hlines₂ (hcount.trans hall.length_eq.symm)
  obtain ⟨line, hline, hnamed, -⟩ := named_of_header hall hte
  exact hnone line hline hnamed

end Prospero
