import Prospero.Models.Tokenizer

/-!
# HTTP requests

The request side of `gateway/http.c`: `pai_http_parse_request` parses a request from the bytes received
so far, and the read loop of `gw_conn_thread` parses again after every `recv` until the verdict is not
`PAI_ERR_MISMATCH`.

The cursor into the received bytes is the list of the bytes that are left.  A parsed line is a C string:
the bytes in front of its first zero byte.

A verdict on a prefix of a stream is the verdict on the stream (`paiHttpParseRequest_append`): a line
that was found does not change when bytes follow, and the size limits apply only to lines that are too
long whatever follows.  So what a connection answers does not depend on how the stream was cut
(`gwConnThread_segmentation`).
-/

namespace Prospero

/-- `PAI_HTTP_MAX_HEADER_BYTES`. -/
abbrev paiHttpMaxHeaderBytes : ℕ := 0x100000
/-- `PAI_HTTP_MAX_BODY`. -/
abbrev paiHttpMaxBody : ℕ := 0x1000000
/-- `PAI_HTTP_MAX_HEADERS`. -/
abbrev paiHttpMaxHeaders : ℕ := 32
/-- `sizeof(line)`. -/
abbrev httpLineSize : ℕ := 1024

/-- `pai_http_req_t`, with the target split into path and query. -/
structure HttpReq where
  /-- Request method. -/
  method : List UInt8
  /-- Target in front of `?`. -/
  path : List UInt8
  /-- Target behind `?`. -/
  query : List UInt8
  /-- Protocol version. -/
  version : List UInt8
  /-- Names and values in order. -/
  headers : List (List UInt8 × List UInt8)
  /-- Body. -/
  body : List UInt8
deriving DecidableEq

/-! ## Lines -/

/-- The loop of `next_line`: the line, and the bytes behind it; `out` is the line so far. -/
def nextLineLoop : List UInt8 → List UInt8 → Option (List UInt8 × List UInt8)
  | [], _ => none
  | b :: bs, out =>
    if httpLineSize ≤ out.length + 1 then none
    else if b = 13 ∧ bs.head? = some 10 then some (out, bs.tail)
    else if b = 10 then some (out, bs)
    else nextLineLoop bs (out ++ [b])

/-- `next_line`: the next line as a C string; `none` when it is too long or not complete. -/
def nextLine (rest : List UInt8) : Option (List UInt8 × List UInt8) :=
  (nextLineLoop rest []).map fun r => (cString r.1, r.2)

/-- `strchr`: the text in front of the first `c` and the text behind it. -/
def splitChar (c : UInt8) (text : List UInt8) : Option (List UInt8 × List UInt8) :=
  if c ∈ text then
    let front := text.takeWhile (· ≠ c)
    some (front, text.drop (front.length + 1))
  else none

/-- `HTTP/1.`. -/
def httpVersionStart : List UInt8 := [72, 84, 84, 80, 47, 49, 46]

/-- Path and query of a target. -/
def splitTarget (target : List UInt8) : List UInt8 × List UInt8 :=
  (splitChar 63 target).getD (target, [])

/-- The request line. -/
def parseRequestLine (line : List UInt8) : Option HttpReq := do
  let (method, rest) ← splitChar 32 line
  if method.length = 0 ∨ 16 ≤ method.length then none
  else do
    let (target, version) ← splitChar 32 rest
    if target.length = 0 ∨ 1024 ≤ target.length then none
    else if 16 ≤ version.length then none
    else if version.take 7 ≠ httpVersionStart then none
    else
      let (path, query) := splitTarget target
      if 512 ≤ query.length then none
      else if path.length = 0 ∨ 1024 ≤ path.length then none
      else some ⟨method, path, query, version, [], []⟩

/-- A header line: name and value. -/
def parseHeader (line : List UInt8) : Option (List UInt8 × List UInt8) := do
  let (name, rest) ← splitChar 58 line
  if name.length = 0 ∨ 64 ≤ name.length then none
  else
    let value := rest.dropWhile fun c => c = 32 || c = 9
    if 511 ≤ value.length then none else some (name, value)

/-! ## Requests -/

/-- The status for a line that is too long or not complete. -/
def lineMissing (total : ℕ) : PaiStatus :=
  if paiHttpMaxHeaderBytes ≤ total then paiErrNomem else paiErrMismatch

/-- The header loop with room for `slots` more headers: the headers, and the bytes behind the blank
line.  `total` is the number of all bytes received. -/
def headerLoop (total : ℕ) : ℕ → List UInt8 → List (List UInt8 × List UInt8) →
    Except PaiStatus (List (List UInt8 × List UInt8) × List UInt8)
  | slots, rest, headers =>
    match nextLine rest with
    | none => .error (lineMissing total)
    | some (line, rest) =>
      if line = [] then .ok (headers, rest)
      else
        match slots with
        | 0 => .error paiErrNomem
        | slots + 1 =>
          match parseHeader line with
          | none => .error paiErrProtocol
          | some header => headerLoop total slots rest (headers ++ [header])

/-- The lower case of an ASCII letter. -/
def asciiLower (c : UInt8) : UInt8 := if 65 ≤ c ∧ c ≤ 90 then c + 32 else c

/-- `ascii_ieq`. -/
def asciiIeq (a b : List UInt8) : Bool := a.map asciiLower == b.map asciiLower

/-- `pai_http_header`: the first value of a name. -/
def paiHttpHeader (headers : List (List UInt8 × List UInt8)) (name : List UInt8) :
    Option (List UInt8) :=
  (headers.find? fun h => asciiIeq h.1 name).map Prod.snd

/-- The loop of `parse_u64`. -/
def parseDigits : ℕ → List UInt8 → Option ℕ
  | v, [] => some v
  | v, c :: cs =>
    if c < 48 ∨ 57 < c then none
    else
      let v := v * 10 + (c.toNat - 48)
      if paiHttpMaxBody < v then none else parseDigits v cs

/-- `parse_u64`. -/
def parseU64 (s : List UInt8) : Option ℕ := if s = [] then none else parseDigits 0 s

/-- `Content-Length`. -/
def contentLength : List UInt8 := "Content-Length".toUTF8.toList
/-- `Transfer-Encoding`. -/
def transferEncoding : List UInt8 := "Transfer-Encoding".toUTF8.toList

/-- The body, from the headers and the bytes behind them. -/
def parseBody (headers : List (List UInt8 × List UInt8)) (rest : List UInt8) :
    Except PaiStatus (List UInt8) :=
  match paiHttpHeader headers contentLength with
  | some cl =>
    match parseU64 cl with
    | none => .error paiErrProtocol
    | some bodyLen =>
      if paiHttpMaxBody < bodyLen then .error paiErrNomem
      else if rest.length < bodyLen then .error paiErrMismatch
      else .ok (rest.take bodyLen)
  | none =>
    if (paiHttpHeader headers transferEncoding).isSome then .error paiErrUnsupported else .ok []

/-- `pai_http_parse_request`. -/
def paiHttpParseRequest (data : List UInt8) : Except PaiStatus HttpReq :=
  match nextLine data with
  | none => .error (lineMissing data.length)
  | some (line, rest) =>
    match parseRequestLine line with
    | none => .error paiErrProtocol
    | some req =>
      match headerLoop data.length paiHttpMaxHeaders rest [] with
      | .error st => .error st
      | .ok (headers, rest) =>
        match parseBody headers rest with
        | .error st => .error st
        | .ok body => .ok { req with
            headers := headers
            body := body }

/-! ## Connections -/

/-- What `gw_conn_thread` does with what it receives. -/
inductive ConnOutcome where
  /-- The handler is called. -/
  | handled (req : HttpReq)
  /-- An error is answered: status and text. -/
  | answered (status : ℕ) (text : String)
  /-- The stream ended before there was a verdict. -/
  | closed
  /-- The buffer could not grow. -/
  | dropped
deriving DecidableEq

/-- The capacity after doubling until `need` bytes fit. -/
def growReadBuf : ℕ → ℕ → ℕ → ℕ
  | 0, ncap, _ => ncap
  | fuel + 1, ncap, need => if ncap < need then growReadBuf fuel (ncap * 2) need else ncap

/-- The answer to a request with an error. -/
def errorAnswer (st : PaiStatus) : ConnOutcome :=
  .answered (if st = paiErrUnsupported then 501 else if st = paiErrNomem then 413 else 400)
    "bad request\n"

/-- The read loop of `gw_conn_thread`: the list has what the calls of `recv` return, `buf` what was
received before. -/
def gwReadLoop (realloc : ℕ → Bool) : ℕ → List UInt8 → List (List UInt8) → ConnOutcome
  | _, _, [] => .closed
  | cap, buf, chunk :: chunks =>
    if chunk = [] then .closed
    else
      let len := buf.length + chunk.length
      let ncap := if cap < len then growReadBuf 32 (if cap = 0 then 8192 else cap * 2) len else cap
      if cap < len ∧ realloc ncap = false then .dropped
      else
        match paiHttpParseRequest (buf ++ chunk) with
        | .ok req => .handled req
        | .error st =>
          if st = paiErrMismatch then
            if paiHttpMaxHeaderBytes + paiHttpMaxBody ≤ len then .answered 413 "request too large\n"
            else gwReadLoop realloc ncap (buf ++ chunk) chunks
          else errorAnswer st

/-- `gw_conn_thread` up to the call of the handler. -/
def gwConnThread (realloc : ℕ → Bool) (chunks : List (List UInt8)) : ConnOutcome :=
  gwReadLoop realloc 0 [] chunks

/-! ## Lines and what follows them -/

/-- A line that is found stays the same when bytes follow. -/
lemma nextLineLoop_append {p out line rest : List UInt8} (h : nextLineLoop p out = some (line, rest))
    (e : List UInt8) : nextLineLoop (p ++ e) out = some (line, rest ++ e) := by
  induction p generalizing out with
  | nil => exact absurd h (by simp [nextLineLoop])
  | cons b bs ih =>
    rw [nextLineLoop] at h
    rw [List.cons_append, nextLineLoop]
    by_cases hlong : httpLineSize ≤ out.length + 1
    · rw [if_pos hlong] at h
      cases h
    rw [if_neg hlong] at h ⊢
    -- a carriage return at the end of the bytes is not yet a line end, but then no line was found
    match bs, h with
    | [], h =>
      by_cases hlf : b = 10
      · subst hlf
        rw [if_neg (by simp), if_pos rfl] at h
        rw [if_neg (by simp), if_pos rfl]
        cases h
        rfl
      · rw [if_neg (by simp), if_neg hlf, nextLineLoop] at h
        cases h
    | c :: cs, h =>
      have hhead : (c :: cs ++ e).head? = (c :: cs).head? := rfl
      rw [hhead]
      by_cases hcrlf : b = 13 ∧ (c :: cs).head? = some 10
      · rw [if_pos hcrlf] at h ⊢
        cases h
        rfl
      · rw [if_neg hcrlf] at h ⊢
        by_cases hlf : b = 10
        · rw [if_pos hlf] at h ⊢
          cases h
          rfl
        · rw [if_neg hlf] at h ⊢
          exact ih h

/-- A line that is too long stays too long. -/
lemma nextLineLoop_none_append {p out : List UInt8} (h : nextLineLoop p out = none)
    (hlen : httpLineSize ≤ out.length + p.length) (e : List UInt8) :
    nextLineLoop (p ++ e) out = none := by
  induction p generalizing out with
  | nil =>
    rw [List.length_nil] at hlen
    match e with
    | [] => rfl
    | b :: bs => rw [List.nil_append, nextLineLoop, if_pos (by omega)]
  | cons b bs ih =>
    rw [nextLineLoop] at h
    rw [List.cons_append, nextLineLoop]
    by_cases hlong : httpLineSize ≤ out.length + 1
    · rw [if_pos hlong]
    rw [if_neg hlong] at h ⊢
    rw [List.length_cons] at hlen
    cases bs with
    | nil =>
      rw [List.length_nil] at hlen
      omega
    | cons c cs =>
      have hhead : (c :: cs ++ e).head? = (c :: cs).head? := rfl
      rw [hhead]
      by_cases hcrlf : b = 13 ∧ (c :: cs).head? = some 10
      · rw [if_pos hcrlf] at h
        cases h
      · rw [if_neg hcrlf] at h ⊢
        by_cases hlf : b = 10
        · rw [if_pos hlf] at h
          cases h
        · rw [if_neg hlf] at h ⊢
          exact ih h (by rw [List.length_append, List.length_singleton]; omega)

/-- A line takes at most the size of its buffer. -/
lemma length_of_nextLineLoop {p out line rest : List UInt8}
    (h : nextLineLoop p out = some (line, rest)) :
    out.length + p.length ≤ rest.length + httpLineSize := by
  induction p generalizing out with
  | nil => exact absurd h (by simp [nextLineLoop])
  | cons b bs ih =>
    rw [nextLineLoop] at h
    rw [List.length_cons]
    split_ifs at h with hlong hcrlf hlf
    · cases h
      rw [List.length_tail]
      omega
    · cases h
      omega
    · have := ih h
      rw [List.length_append, List.length_singleton] at this
      omega

lemma nextLine_append {p line rest : List UInt8} (h : nextLine p = some (line, rest))
    (e : List UInt8) : nextLine (p ++ e) = some (line, rest ++ e) := by
  obtain ⟨⟨raw, r⟩, hloop, hraw⟩ := Option.map_eq_some_iff.mp h
  cases hraw
  rw [nextLine, nextLineLoop_append hloop e]
  rfl

lemma nextLine_none_append {p : List UInt8} (h : nextLine p = none) (hlen : httpLineSize ≤ p.length)
    (e : List UInt8) : nextLine (p ++ e) = none := by
  have hloop := Option.map_eq_none_iff.mp h
  rw [nextLine, nextLineLoop_none_append hloop (by rw [List.length_nil]; omega) e]
  rfl

lemma length_of_nextLine {p line rest : List UInt8} (h : nextLine p = some (line, rest)) :
    p.length ≤ rest.length + httpLineSize := by
  obtain ⟨⟨raw, r⟩, hloop, hraw⟩ := Option.map_eq_some_iff.mp h
  cases hraw
  have hlen := length_of_nextLineLoop hloop
  rwa [List.length_nil, Nat.zero_add] at hlen

/-- When there is a verdict about a missing line, so many bytes were received that the line is too
long. -/
lemma lineMissing_ne_mismatch {total : ℕ} (h : lineMissing total ≠ paiErrMismatch) :
    paiHttpMaxHeaderBytes ≤ total := by
  unfold lineMissing at h
  split_ifs at h with hle
  · exact hle
  · exact absurd rfl h

lemma lineMissing_add {total : ℕ} (h : lineMissing total ≠ paiErrMismatch) (n : ℕ) :
    lineMissing (total + n) = lineMissing total := by
  have hle := lineMissing_ne_mismatch h
  rw [lineMissing, lineMissing, if_pos hle, if_pos (Nat.le_add_right_of_le hle)]

/-! ## Requests and what follows them -/

/-- The header loop has the same verdict when bytes follow.  The request line and the headers before
take less than the limit for all lines, so that a verdict about a missing line is one about a line
that is too long. -/
lemma headerLoop_append {total slots : ℕ} {rest : List UInt8}
    {headers : List (List UInt8 × List UInt8)}
    (hread : total + slots * 1024 ≤ rest.length + 33 * 1024)
    (h : headerLoop total slots rest headers ≠ .error paiErrMismatch) (e : List UInt8) :
    headerLoop (total + e.length) slots (rest ++ e) headers =
      (headerLoop total slots rest headers).map fun r => (r.1, r.2 ++ e) := by
  induction slots using Nat.strong_induction_on generalizing rest headers with
  | _ slots ih =>
    rw [headerLoop] at h ⊢
    rw [headerLoop]
    cases hline : nextLine rest with
    | none =>
      rw [hline] at h
      have hne : lineMissing total ≠ paiErrMismatch := fun heq => h (by rw [heq])
      have hmax : 0x100000 ≤ total := lineMissing_ne_mismatch hne
      have hlong : 1024 ≤ rest.length := by omega
      rw [nextLine_none_append hline hlong e]
      dsimp only
      rw [lineMissing_add hne]
      rfl
    | some r =>
      rw [hline] at h
      rw [nextLine_append hline e]
      dsimp only at h ⊢
      by_cases hblank : r.1 = []
      · rw [if_pos hblank, if_pos hblank]
        rfl
      rw [if_neg hblank] at h ⊢
      rw [if_neg hblank]
      cases slots with
      | zero => rfl
      | succ slots =>
        dsimp only at h ⊢
        cases hheader : parseHeader r.1 with
        | none => rfl
        | some header =>
          rw [hheader] at h
          have hlen : rest.length ≤ r.2.length + 1024 := length_of_nextLine hline
          have hstep : total + slots * 1024 ≤ r.2.length + 33 * 1024 := by
            rw [Nat.succ_mul] at hread
            linarith
          exact ih slots (Nat.lt_succ_self slots) hstep h

/-- The lines of the headers take at most the size of the line buffer each. -/
lemma length_of_headerLoop {total slots : ℕ} {rest : List UInt8}
    {headers : List (List UInt8 × List UInt8)} {r : List (List UInt8 × List UInt8) × List UInt8}
    (h : headerLoop total slots rest headers = .ok r) :
    rest.length ≤ r.2.length + (slots + 1) * 1024 := by
  induction slots using Nat.strong_induction_on generalizing rest headers with
  | _ slots ih =>
    rw [headerLoop] at h
    cases hline : nextLine rest with
    | none =>
      rw [hline] at h
      cases h
    | some q =>
      rw [hline] at h
      have hlen : rest.length ≤ q.2.length + 1024 := length_of_nextLine hline
      dsimp only at h
      by_cases hblank : q.1 = []
      · rw [if_pos hblank] at h
        cases h
        dsimp only
        omega
      rw [if_neg hblank] at h
      cases slots with
      | zero => cases h
      | succ slots =>
        dsimp only at h
        cases hheader : parseHeader q.1 with
        | none =>
          rw [hheader] at h
          cases h
        | some header =>
          rw [hheader] at h
          have := ih slots (Nat.lt_succ_self slots) h
          omega

/-- The header loop asks for more bytes only below the limit for all lines. -/
lemma headerLoop_mismatch {total slots : ℕ} {rest : List UInt8}
    {headers : List (List UInt8 × List UInt8)}
    (h : headerLoop total slots rest headers = .error paiErrMismatch) :
    total < paiHttpMaxHeaderBytes := by
  have hnomem : paiErrNomem ≠ paiErrMismatch := by decide
  have hprotocol : paiErrProtocol ≠ paiErrMismatch := by decide
  induction slots using Nat.strong_induction_on generalizing rest headers with
  | _ slots ih =>
    rw [headerLoop] at h
    cases hline : nextLine rest with
    | none =>
      rw [hline] at h
      by_contra hle
      rw [lineMissing, if_pos (not_lt.mp hle)] at h
      exact hnomem (Except.error.inj h)
    | some q =>
      rw [hline] at h
      dsimp only at h
      by_cases hblank : q.1 = []
      · rw [if_pos hblank] at h
        cases h
      rw [if_neg hblank] at h
      cases slots with
      | zero => exact absurd (Except.error.inj h) hnomem
      | succ slots =>
        dsimp only at h
        cases hheader : parseHeader q.1 with
        | none =>
          rw [hheader] at h
          exact absurd (Except.error.inj h) hprotocol
        | some header =>
          rw [hheader] at h
          exact ih slots (Nat.lt_succ_self slots) h

lemma parseBody_append {headers : List (List UInt8 × List UInt8)} {rest : List UInt8}
    (h : parseBody headers rest ≠ .error paiErrMismatch) (e : List UInt8) :
    parseBody headers (rest ++ e) = parseBody headers rest := by
  unfold parseBody at h ⊢
  cases hcl : paiHttpHeader headers contentLength with
  | none => rfl
  | some cl =>
    rw [hcl] at h
    dsimp only at h ⊢
    cases hlen : parseU64 cl with
    | none => rfl
    | some bodyLen =>
      rw [hlen] at h
      dsimp only at h ⊢
      by_cases hbig : paiHttpMaxBody < bodyLen
      · rw [if_pos hbig, if_pos hbig]
      rw [if_neg hbig] at h ⊢
      rw [if_neg hbig]
      by_cases hshort : rest.length < bodyLen
      · rw [if_pos hshort] at h
        exact absurd rfl h
      · rw [if_neg hshort, if_neg (by rw [List.length_append]; omega),
          List.take_append_of_le_length (not_lt.mp hshort)]

lemma parseBody_mismatch {headers : List (List UInt8 × List UInt8)} {rest : List UInt8}
    (h : parseBody headers rest = .error paiErrMismatch) : rest.length < paiHttpMaxBody := by
  unfold parseBody at h
  cases hcl : paiHttpHeader headers contentLength with
  | none =>
    rw [hcl] at h
    dsimp only at h
    split_ifs at h
    exact absurd (Except.error.inj h) (by decide)
  | some cl =>
    rw [hcl] at h
    dsimp only at h
    cases hlen : parseU64 cl with
    | none =>
      rw [hlen] at h
      exact absurd (Except.error.inj h) (by decide)
    | some bodyLen =>
      rw [hlen] at h
      dsimp only at h
      split_ifs at h with hbig hshort
      · exact absurd (Except.error.inj h) (by decide)
      · omega

/-- The verdict on a prefix of the stream is the verdict on the stream. -/
lemma paiHttpParseRequest_append {p : List UInt8}
    (h : paiHttpParseRequest p ≠ .error paiErrMismatch) (e : List UInt8) :
    paiHttpParseRequest (p ++ e) = paiHttpParseRequest p := by
  unfold paiHttpParseRequest at h ⊢
  cases hline : nextLine p with
  | none =>
    rw [hline] at h
    have hne : lineMissing p.length ≠ paiErrMismatch := fun heq => h (by rw [heq])
    have hmax : 0x100000 ≤ p.length := lineMissing_ne_mismatch hne
    have hlong : 1024 ≤ p.length := by omega
    rw [nextLine_none_append hline hlong e]
    dsimp only
    rw [List.length_append, lineMissing_add hne]
  | some r =>
    rw [hline] at h
    rw [nextLine_append hline e]
    dsimp only at h ⊢
    cases hreq : parseRequestLine r.1 with
    | none => rfl
    | some req =>
      rw [hreq] at h
      dsimp only at h ⊢
      have hlen : p.length ≤ r.2.length + 1024 := length_of_nextLine hline
      have hheaders : headerLoop p.length paiHttpMaxHeaders r.2 [] ≠ .error paiErrMismatch := by
        intro heq
        rw [heq] at h
        exact h rfl
      rw [List.length_append, headerLoop_append (by change _ + 32 * 1024 ≤ _; omega) hheaders e]
      cases hloop : headerLoop p.length paiHttpMaxHeaders r.2 [] with
      | error st => rfl
      | ok q =>
        rw [hloop] at h
        dsimp only [Except.map] at h ⊢
        have hbody : parseBody q.1 q.2 ≠ .error paiErrMismatch := by
          intro heq
          rw [heq] at h
          exact h rfl
        rw [parseBody_append hbody e]

/-- More bytes are asked for only below the limit for a whole request. -/
lemma length_of_mismatch {p : List UInt8} (h : paiHttpParseRequest p = .error paiErrMismatch) :
    p.length < paiHttpMaxHeaderBytes + paiHttpMaxBody := by
  have hheader : paiHttpMaxHeaderBytes = 0x100000 := rfl
  have hbody : paiHttpMaxBody = 0x1000000 := rfl
  unfold paiHttpParseRequest at h
  cases hline : nextLine p with
  | none =>
    rw [hline] at h
    by_contra hle
    rw [lineMissing, if_pos (by omega)] at h
    exact absurd (Except.error.inj h) (by decide)
  | some r =>
    rw [hline] at h
    dsimp only at h
    cases hreq : parseRequestLine r.1 with
    | none =>
      rw [hreq] at h
      exact absurd (Except.error.inj h) (by decide)
    | some req =>
      rw [hreq] at h
      dsimp only at h
      cases hloop : headerLoop p.length paiHttpMaxHeaders r.2 [] with
      | error st =>
        rw [hloop] at h
        cases Except.error.inj h
        have := headerLoop_mismatch hloop
        omega
      | ok q =>
        rw [hloop] at h
        dsimp only at h
        cases hparse : parseBody q.1 q.2 with
        | error st =>
          rw [hparse] at h
          cases Except.error.inj h
          have hshort := parseBody_mismatch hparse
          have hlines := length_of_headerLoop hloop
          have hlen : p.length ≤ r.2.length + 1024 := length_of_nextLine hline
          change _ ≤ _ + (32 + 1) * 1024 at hlines
          omega
        | ok body =>
          rw [hparse] at h
          cases h

/-! ## Connections and how their streams are cut -/

/-- What a connection does with a whole stream. -/
def streamOutcome (stream : List UInt8) : ConnOutcome :=
  match paiHttpParseRequest stream with
  | .ok req => .handled req
  | .error st => if st = paiErrMismatch then .closed else errorAnswer st

/-- As long as the buffer grows, the read loop ends with the outcome of the whole stream. -/
lemma gwReadLoop_eq (realloc : ℕ → Bool) {cap : ℕ} {buf : List UInt8} {chunks : List (List UInt8)}
    (hchunks : ∀ c ∈ chunks, c ≠ []) (hbuf : paiHttpParseRequest buf = .error paiErrMismatch)
    (hmem : gwReadLoop realloc cap buf chunks ≠ .dropped) :
    gwReadLoop realloc cap buf chunks = streamOutcome (buf ++ chunks.flatten) := by
  induction chunks generalizing cap buf with
  | nil =>
    rw [gwReadLoop, streamOutcome, List.flatten_nil, List.append_nil, hbuf]
    exact (if_pos rfl).symm
  | cons chunk chunks ih =>
    obtain ⟨hchunk, hchunks⟩ := List.forall_mem_cons.mp hchunks
    rw [gwReadLoop, if_neg hchunk] at hmem ⊢
    dsimp only at hmem ⊢
    rw [List.flatten_cons, ← List.append_assoc]
    by_cases hdrop : cap < buf.length + chunk.length ∧ realloc
        (if cap < buf.length + chunk.length then
          growReadBuf 32 (if cap = 0 then 8192 else cap * 2) (buf.length + chunk.length) else cap) = false
    · rw [if_pos hdrop] at hmem
      exact absurd rfl hmem
    rw [if_neg hdrop] at hmem ⊢
    by_cases hmore : paiHttpParseRequest (buf ++ chunk) = .error paiErrMismatch
    · have hlen := length_of_mismatch hmore
      rw [List.length_append] at hlen
      rw [hmore] at hmem ⊢
      dsimp only at hmem ⊢
      rw [if_pos rfl, if_neg (not_le.mpr hlen)] at hmem ⊢
      exact ih hchunks hmore hmem
    · rw [streamOutcome, paiHttpParseRequest_append hmore]
      cases hverdict : paiHttpParseRequest (buf ++ chunk) with
      | ok req => rfl
      | error st =>
        have hst : st ≠ paiErrMismatch := fun heq => hmore (by rw [hverdict, heq])
        dsimp only
        rw [if_neg hst, if_neg hst]

/-- Requests are parsed independently of segmentation: a verdict on a prefix of a stream is the verdict
on the stream, and what a connection handles or answers is the same however its stream is cut. -/
theorem gwConnThread_segmentation :
    (∀ s p : List UInt8, p <+: s → paiHttpParseRequest p ≠ .error paiErrMismatch →
      paiHttpParseRequest s = paiHttpParseRequest p) ∧
    ∀ (realloc realloc' : ℕ → Bool) (xs ys : List (List UInt8)),
      (∀ c ∈ xs, c ≠ []) → (∀ c ∈ ys, c ≠ []) → xs.flatten = ys.flatten →
      gwConnThread realloc xs ≠ .dropped → gwConnThread realloc' ys ≠ .dropped →
      gwConnThread realloc xs = gwConnThread realloc' ys := by
  constructor
  · rintro s p ⟨e, rfl⟩ h
    exact paiHttpParseRequest_append h e
  · intro realloc realloc' xs ys hxs hys heq hx hy
    have hnil : paiHttpParseRequest [] = .error paiErrMismatch := by decide +kernel
    unfold gwConnThread at hx hy ⊢
    rw [gwReadLoop_eq realloc hxs hnil hx, gwReadLoop_eq realloc' hys hnil hy, heq]

/-- The bytes of `GET / HTTP/1.1`, without line ends. -/
def getRoot : List UInt8 := "GET / HTTP/1.1".toUTF8.toList

/-- A request whose stream is cut between carriage return and line feed. -/
theorem getRoot_segmentation :
    paiHttpParseRequest (getRoot ++ [13]) = .error paiErrMismatch ∧
      gwConnThread (fun _ => true) [getRoot ++ [13], [10, 13, 10]] =
        .handled ⟨[71, 69, 84], [47], [], [72, 84, 84, 80, 47, 49, 46, 49], [], []⟩ ∧
      gwConnThread (fun _ => true) [getRoot ++ [13], [10, 13, 10]] =
        gwConnThread (fun _ => true) [getRoot ++ [13, 10, 13, 10]] := by
  refine ⟨by decide +kernel, by decide +kernel, ?_⟩
  exact gwConnThread_segmentation.2 _ _ _ _ (by decide +kernel) (by decide +kernel)
    (by decide +kernel) (by decide +kernel) (by decide +kernel)

end Prospero
