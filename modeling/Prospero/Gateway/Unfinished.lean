import Prospero.Gateway.Framing

/-!
# Unfinished requests

When the bytes of a request that is not complete can still become a request.  `pai_http_parse_request`
answers `PAI_ERR_MISMATCH` while a line is missing, and it looks at a line only when it is finished; so it
also waits when no continuation can help.

### Outline

* `NoLine`, `HeadersRead`: where the finished lines of the bytes end;
* `RequestLineOpen` and `HeaderOpen`: what an unfinished line must keep to;
* `Becomes`: the lines that an unfinished line can become;
* `mismatch_completable_iff`, and a method that is too long.
-/

namespace Prospero

/-! ## What an unfinished line must keep to -/

/-- The longest line that is read, without its end. -/
abbrev httpLineMax : ℕ := 1022

/-- There is no finished line in front that fits into the line buffer. -/
def NoLine (data : List UInt8) : Prop := ∀ line rest, IsLine data line rest → httpLineMax < line.length

/-- Finished header lines that are accepted, and what is behind them. -/
inductive HeadersRead :
    List UInt8 → List (List UInt8 × List UInt8) → List UInt8 → Prop
  | nil {data : List UInt8} : HeadersRead data [] data
  | cons {data line data' rest : List UInt8} {header : List UInt8 × List UInt8}
      {headers : List (List UInt8 × List UInt8)} (hline : IsLine data line data')
      (hfit : line.length ≤ httpLineMax) (hne : cString line ≠ [])
      (hheader : parseHeader (cString line) = some header) (h : HeadersRead data' headers rest) :
      HeadersRead data (header :: headers) rest

/-- The lines that an unfinished line is when nothing but its end follows. -/
def standing (text : List UInt8) : List (List UInt8) :=
  (if text.getLast? = some 13 then [text, text.dropLast] else [text]).filter
    fun line => line.length ≤ httpLineMax

/-- What is there of a target can still be a path and a query. -/
def TargetOpen (target : List UInt8) : Prop :=
  target.head? ≠ some 63 ∧ (splitTarget target).2.length < 512
deriving Decidable

/-- What is there of a request line is a method, a target or a version that is not yet complete, each
within its limit, and the line has room for what is missing. -/
def RequestStart (text : List UInt8) : Prop :=
  match splitChar 32 text with
  | none => text.length < 16
  | some (method, rest) =>
    0 < method.length ∧ method.length < 16 ∧
      match splitChar 32 rest with
      | none => TargetOpen rest ∧ text.length + 8 ≤ httpLineMax
      | some (target, version) =>
        target ≠ [] ∧ TargetOpen target ∧ version <+: httpVersionStart ∧
          text.length + 7 ≤ httpLineMax + version.length

/-- The unfinished first line is a request line when it ends here, or can be continued to one. -/
def RequestLineOpen (text : List UInt8) : Prop :=
  (∃ line ∈ standing text, (parseRequestLine (cString line)).isSome) ∨ 0 ∉ text ∧ RequestStart text

/-- The headers tell the length of the body, or that there is none. -/
def Settled (headers : List (List UInt8 × List UInt8)) : Prop :=
  match paiHttpHeader headers contentLength with
  | some cl => (parseU64 cl).isSome
  | none => paiHttpHeader headers transferEncoding = none

/-- Only a `Content-Length` that follows lets the headers pass. -/
def Owed (headers : List (List UInt8 × List UInt8)) : Prop :=
  paiHttpHeader headers contentLength = none ∧ paiHttpHeader headers transferEncoding ≠ none

/-- The headers pass as they are, or there is room for the header that is owed. -/
def Viable (headers : List (List UInt8 × List UInt8)) : Prop :=
  headers.length ≤ paiHttpMaxHeaders ∧
    (Settled headers ∨ Owed headers ∧ headers.length < paiHttpMaxHeaders)

/-- The line ends headers that are settled, or is a header after which they can still pass. -/
def NextOk (headers : List (List UInt8 × List UInt8)) (line : List UInt8) : Prop :=
  (cString line = [] ∧ Settled headers) ∨
    (cString line ≠ [] ∧ ∃ header, parseHeader (cString line) = some header ∧ Viable (headers ++ [header]))

/-- What is there of a header line is a name that is not yet complete, or the first `Content-Length`
without a digit; there is room for what is missing. -/
def HeaderStart (headers : List (List UInt8 × List UInt8)) (text : List UInt8) : Prop :=
  headers.length < paiHttpMaxHeaders ∧
    match splitChar 58 text with
    | none =>
      text.length < 64 ∧ (Settled headers ∨ Owed headers ∧ (headers.length + 1 < paiHttpMaxHeaders ∨
        text.map asciiLower <+: contentLength.map asciiLower))
    | some (name, rest) =>
      asciiIeq name contentLength = true ∧ paiHttpHeader headers contentLength = none ∧
        (∀ c ∈ rest, c = 32 ∨ c = 9) ∧ text.length < httpLineMax

/-- The unfinished header line passes when it ends here, or can be continued to one that does. -/
def HeaderOpen (headers : List (List UInt8 × List UInt8)) (text : List UInt8) : Prop :=
  (∃ line ∈ standing text, NextOk headers line) ∨ 0 ∉ text ∧ HeaderStart headers text

/-- If the bytes stop inside a line, then the line is open: as a request line, or behind accepted lines as
a header line. -/
def StillOpen (p : List UInt8) : Prop :=
  (NoLine p → RequestLineOpen p) ∧
    ∀ first data headers tail, IsLine p first data → first.length ≤ httpLineMax →
      (parseRequestLine (cString first)).isSome → HeadersRead data headers tail →
      headers.length ≤ paiHttpMaxHeaders → NoLine tail → HeaderOpen headers tail

/-! ## Lines and what they can become -/

/-- A line that is found, with its length. -/
lemma nextLineLoop_eq_some_iff {data out line rest : List UInt8} :
    nextLineLoop data out = some (line, rest) ↔
      ∃ raw, line = out ++ raw ∧ IsLine data raw rest ∧ out.length + raw.length ≤ httpLineMax := by
  have hsize : httpLineSize = 1024 := rfl
  have hmax : httpLineMax = 1022 := rfl
  constructor
  · intro h
    induction data generalizing out with
    | nil => cases h
    | cons b data ih =>
      rw [nextLineLoop] at h
      split_ifs at h with hlong hcrlf hlf
      · cases h
        obtain ⟨rfl, hhead⟩ := hcrlf
        obtain ⟨data, rfl⟩ := List.head?_eq_some_iff.mp hhead
        exact ⟨[], (List.append_nil _).symm, .crlf, by rw [List.length_nil]; omega⟩
      · cases h
        subst hlf
        exact ⟨[], (List.append_nil _).symm, .lf, by rw [List.length_nil]; omega⟩
      · obtain ⟨raw, rfl, hline, hlen⟩ := ih h
        rw [List.length_append, List.length_singleton] at hlen
        refine ⟨b :: raw, by rw [List.append_assoc]; rfl, .byte hlf hcrlf hline, ?_⟩
        rw [List.length_cons]
        omega
  · rintro ⟨raw, rfl, hline, hlen⟩
    induction hline generalizing out with
    | crlf =>
      rw [List.length_nil] at hlen
      rw [nextLineLoop, if_neg (by omega), if_pos ⟨rfl, rfl⟩, List.append_nil, List.tail_cons]
    | lf =>
      rw [List.length_nil] at hlen
      rw [nextLineLoop, if_neg (by omega), if_neg (fun heq => absurd heq.1 (by decide)), if_pos rfl,
        List.append_nil]
    | @byte b data line rest hlf hcr _ ih =>
      rw [List.length_cons] at hlen
      rw [nextLineLoop, if_neg (by omega), if_neg hcr, if_neg hlf,
        ih (by rw [List.length_append, List.length_singleton]; omega), List.append_assoc,
        List.singleton_append]

lemma nextLine_eq_some_iff {data line rest : List UInt8} :
    nextLine data = some (line, rest) ↔
      ∃ raw, line = cString raw ∧ IsLine data raw rest ∧ raw.length ≤ httpLineMax := by
  rw [nextLine, Option.map_eq_some_iff]
  constructor
  · rintro ⟨⟨raw, rest'⟩, hloop, heq⟩
    cases heq
    obtain ⟨raw', hraw, hline, hlen⟩ := nextLineLoop_eq_some_iff.mp hloop
    rw [List.nil_append] at hraw
    subst hraw
    rw [List.length_nil, Nat.zero_add] at hlen
    exact ⟨_, rfl, hline, hlen⟩
  · rintro ⟨raw, rfl, hline, hlen⟩
    refine ⟨(raw, rest), nextLineLoop_eq_some_iff.mpr ⟨raw, rfl, hline, ?_⟩, rfl⟩
    rw [List.length_nil, Nat.zero_add]
    exact hlen

lemma nextLine_eq_none_iff {data : List UInt8} : nextLine data = none ↔ NoLine data := by
  constructor
  · intro h line rest hline
    by_contra hle
    have hsome := nextLine_eq_some_iff.mpr ⟨line, rfl, hline, not_lt.mp hle⟩
    rw [h] at hsome
    cases hsome
  · intro h
    rw [Option.eq_none_iff_forall_ne_some]
    rintro ⟨line, rest⟩ hsome
    obtain ⟨raw, -, hline, hlen⟩ := nextLine_eq_some_iff.mp hsome
    exact absurd hlen (not_le.mpr (h raw rest hline))

/-- A line of the bytes, its end and what follows. -/
lemma isLine_iff {data line rest : List UInt8} :
    IsLine data line rest ↔ 10 ∉ line ∧
      (data = line ++ 13 :: 10 :: rest ∨ data = line ++ 10 :: rest ∧ line.getLast? ≠ some 13) := by
  constructor
  · intro h
    induction h with
    | crlf => exact ⟨by simp, Or.inl rfl⟩
    | lf => exact ⟨by simp, Or.inr ⟨rfl, by simp⟩⟩
    | @byte b data line rest hlf hcr _ ih =>
      obtain ⟨hnot, hdata⟩ := ih
      refine ⟨fun hmem => ?_, ?_⟩
      · obtain heq | hmem := List.mem_cons.mp hmem
        · exact hlf heq.symm
        · exact hnot hmem
      · obtain rfl | ⟨rfl, hlast⟩ := hdata
        · exact Or.inl rfl
        · refine Or.inr ⟨rfl, ?_⟩
          cases line with
          | nil =>
            rintro heq
            cases heq
            exact hcr ⟨rfl, rfl⟩
          | cons c line => rwa [List.getLast?_cons_cons]
  · rintro ⟨hnot, hdata⟩
    induction line generalizing data with
    | nil =>
      obtain rfl | ⟨rfl, -⟩ := hdata
      · exact .crlf
      · exact .lf
    | cons b line ih =>
      have hb : b ≠ 10 := fun heq => hnot (heq ▸ List.mem_cons_self)
      have hnot' : 10 ∉ line := fun hmem => hnot (List.mem_cons_of_mem _ hmem)
      obtain rfl | ⟨rfl, hlast⟩ := hdata
      · refine .byte hb ?_ (ih hnot' (Or.inl rfl))
        rintro ⟨-, hhead⟩
        cases line with
        | nil => cases hhead
        | cons c line => exact hnot' (Option.some_inj.mp hhead ▸ List.mem_cons_self)
      · cases line with
        | nil =>
          refine .byte hb ?_ .lf
          rintro ⟨rfl, -⟩
          exact hlast rfl
        | cons c line =>
          refine .byte hb ?_ (ih hnot' (Or.inr ⟨rfl, ?_⟩))
          · rintro ⟨-, hhead⟩
            exact hnot' (Option.some_inj.mp hhead ▸ List.mem_cons_self)
          · rwa [List.getLast?_cons_cons] at hlast

/-- The line can be read once more bytes follow the unfinished line. -/
def Becomes (text line : List UInt8) : Prop :=
  10 ∉ line ∧ line.length ≤ httpLineMax ∧ (text <+: line ∨ text = line ++ [13])

/-- A line that is read behind an unfinished one is one it can become. -/
lemma becomes_of_nextLine {text more line rest : List UInt8} (hnone : nextLine text = none)
    (h : nextLine (text ++ more) = some (line, rest)) : ∃ raw, Becomes text raw ∧ line = cString raw := by
  obtain ⟨raw, rfl, hline, hlen⟩ := nextLine_eq_some_iff.mp h
  have hno := nextLine_eq_none_iff.mp hnone
  obtain ⟨hnot, hdata⟩ := isLine_iff.mp hline
  refine ⟨raw, ⟨hnot, hlen, ?_⟩, rfl⟩
  obtain hdata | ⟨hdata, hlast⟩ := hdata
  · obtain ⟨w, rfl, hw⟩ | ⟨w, rfl, hw⟩ := List.append_eq_append_iff.mp hdata
    · exact Or.inl ⟨w, rfl⟩
    · -- the bytes have at most the carriage return of the end
      match w, hw with
      | [], _ => exact Or.inl ⟨[], by rw [List.append_nil, List.append_nil]⟩
      | [c], hw =>
        cases hw
        exact Or.inr rfl
      | c :: d :: w, hw =>
        cases hw
        exact absurd hlen (not_le.mpr (hno raw w (isLine_iff.mpr ⟨hnot, Or.inl rfl⟩)))
  · obtain ⟨w, rfl, hw⟩ | ⟨w, rfl, hw⟩ := List.append_eq_append_iff.mp hdata
    · exact Or.inl ⟨w, rfl⟩
    · match w, hw with
      | [], _ => exact Or.inl ⟨[], by rw [List.append_nil, List.append_nil]⟩
      | c :: w, hw =>
        cases hw
        exact absurd hlen (not_le.mpr (hno raw w (isLine_iff.mpr ⟨hnot, Or.inr ⟨rfl, hlast⟩⟩)))

/-- A line that an unfinished one can become is read when the right bytes follow. -/
lemma nextLine_of_becomes {text line : List UInt8} (h : Becomes text line) :
    ∃ more, ∀ rest, nextLine (text ++ (more ++ rest)) = some (cString line, rest) := by
  obtain ⟨hnot, hlen, ⟨w, rfl⟩ | rfl⟩ := h
  · refine ⟨w ++ [13, 10], fun rest => nextLine_eq_some_iff.mpr ⟨_, rfl, isLine_iff.mpr
      ⟨hnot, Or.inl ?_⟩, hlen⟩⟩
    simp [List.append_assoc]
  · refine ⟨[10], fun rest => nextLine_eq_some_iff.mpr ⟨_, rfl, isLine_iff.mpr ⟨hnot, Or.inl ?_⟩, hlen⟩⟩
    simp [List.append_assoc]

/-- The lines an unfinished line is when its end follows. -/
lemma mem_standing_iff {text line : List UInt8} :
    line ∈ standing text ↔ line.length ≤ httpLineMax ∧ (line = text ∨ text = line ++ [13]) := by
  have hlast : text.getLast? = some 13 ∧ line = text.dropLast ↔ text = line ++ [13] := by
    constructor
    · rintro ⟨hlast, rfl⟩
      obtain ⟨init, rfl⟩ := List.getLast?_eq_some_iff.mp hlast
      rw [List.dropLast_concat]
    · rintro rfl
      exact ⟨List.getLast?_concat, List.dropLast_concat.symm⟩
  rw [standing, List.mem_filter, decide_eq_true_iff, ← hlast, and_comm]
  split_ifs with hcr
  · simp [hcr]
  · simp [hcr]

lemma becomes_of_mem_standing {text line : List UInt8} (hlf : 10 ∉ text) (h : line ∈ standing text) :
    Becomes text line := by
  obtain ⟨hlen, rfl | rfl⟩ := mem_standing_iff.mp h
  · exact ⟨hlf, hlen, Or.inl (List.prefix_refl _)⟩
  · exact ⟨fun hmem => hlf (List.mem_append_left _ hmem), hlen, Or.inr rfl⟩

lemma cString_append_of_mem {text more : List UInt8} (h : 0 ∈ text) :
    cString (text ++ more) = cString text := by
  rw [cString, cString, List.takeWhile_append, if_neg]
  intro hlen
  have hall := List.takeWhile_eq_self_iff.mp
    ((List.takeWhile_prefix (fun b : UInt8 => decide (b ≠ 0)) (l := text)).eq_of_length hlen)
  exact absurd rfl (of_decide_eq_true (hall 0 h))

lemma cString_append_of_notMem {text more : List UInt8} (h : 0 ∉ text) :
    cString (text ++ more) = text ++ cString more :=
  List.takeWhile_append_of_pos fun _ hb => decide_eq_true fun h0 => h (h0 ▸ hb)

lemma cString_of_notMem {text : List UInt8} (h : 0 ∉ text) : cString text = text := by
  have heq := @cString_append_of_notMem text [] h
  rwa [List.append_nil, show cString [] = [] from rfl, List.append_nil] at heq

/-- What an unfinished line can become is what it stands for, or it goes on without a zero byte in what
there is. -/
lemma standing_or_of_becomes {text line : List UInt8} (h : Becomes text line) :
    (∃ line' ∈ standing text, cString line' = cString line) ∨
      (0 ∉ text ∧ ∃ more, text.length ≤ httpLineMax ∧ (text ++ more).length ≤ httpLineMax ∧
        cString line = text ++ more) := by
  obtain ⟨hnot, hlen, ⟨w, rfl⟩ | rfl⟩ := h
  · have htext : text.length ≤ httpLineMax := by
      rw [List.length_append] at hlen
      omega
    by_cases hzero : 0 ∈ text
    · exact Or.inl ⟨text, mem_standing_iff.mpr ⟨htext, Or.inl rfl⟩, (cString_append_of_mem hzero).symm⟩
    · refine Or.inr ⟨hzero, cString w, htext, ?_, cString_append_of_notMem hzero⟩
      have hle : (cString w).length ≤ w.length := (List.takeWhile_prefix _).length_le
      rw [List.length_append] at hlen ⊢
      omega
  · exact Or.inl ⟨line, mem_standing_iff.mpr ⟨hlen, Or.inr rfl⟩, rfl⟩

/-! ## Request lines -/

lemma splitChar_eq_none_iff {c : UInt8} {text : List UInt8} : splitChar c text = none ↔ c ∉ text := by
  rw [splitChar]
  split_ifs with hmem
  · exact ⟨fun h => (by cases h), fun h => absurd hmem h⟩
  · exact ⟨fun _ => hmem, fun _ => rfl⟩

lemma splitChar_append_cons {c : UInt8} {f r : List UInt8} (hf : c ∉ f) :
    splitChar c (f ++ c :: r) = some (f, r) := by
  have htake : (f ++ c :: r).takeWhile (· ≠ c) = f :=
    takeWhile_append_cons (fun b hb => decide_eq_true fun heq => hf (heq ▸ hb)) (by simp)
  rw [splitChar, if_pos (List.mem_append_right _ List.mem_cons_self)]
  dsimp only
  rw [htake, List.drop_append, List.drop_of_length_le (Nat.le_succ _)]
  simp

/-- A text with a symbol and a beginning of it: the symbol comes later, or splits both at one place. -/
lemma splitChar_of_append {c : UInt8} {text more f r : List UInt8} (h : text ++ more = f ++ c :: r)
    (hf : c ∉ f) :
    (splitChar c text = none ∧ text <+: f) ∨ ∃ r', splitChar c text = some (f, r') ∧ r = r' ++ more := by
  obtain ⟨w, rfl, -⟩ | ⟨w, rfl, hw⟩ := List.append_eq_append_iff.mp h
  · exact Or.inl ⟨splitChar_eq_none_iff.mpr fun hmem => hf (List.mem_append_left _ hmem), w, rfl⟩
  · match w, hw with
    | [], _ =>
      rw [List.append_nil]
      exact Or.inl ⟨splitChar_eq_none_iff.mpr hf, List.prefix_refl _⟩
    | d :: w, hw =>
      obtain ⟨rfl, rfl⟩ := List.cons.inj hw
      exact Or.inr ⟨w, splitChar_append_cons hf, rfl⟩

/-- The path of a target is not empty, and no longer than the target. -/
lemma path_of_splitTarget {target : List UInt8} :
    ((splitTarget target).1 = [] ↔ target = [] ∨ target.head? = some 63) ∧
      (splitTarget target).1.length ≤ target.length := by
  rw [splitTarget, splitChar]
  split_ifs with hmem
  · rw [Option.getD_some]
    refine ⟨?_, (List.takeWhile_prefix _).length_le⟩
    cases target with
    | nil => cases hmem
    | cons b target =>
      rw [List.takeWhile_cons]
      by_cases hb : b = 63
      · simp [hb]
      · simp [hb]
  · rw [Option.getD_none]
    refine ⟨⟨Or.inl, ?_⟩, le_rfl⟩
    rintro (rfl | hhead)
    · rfl
    · exact absurd (List.mem_of_mem_head? hhead) hmem

/-- Request lines: method, target and version. -/
lemma parseRequestLine_isSome_iff {line : List UInt8} :
    (parseRequestLine line).isSome ↔
      ∃ method target version, line = method ++ 32 :: (target ++ 32 :: version) ∧ 32 ∉ method ∧
        32 ∉ target ∧ 0 < method.length ∧ method.length < 16 ∧ target ≠ [] ∧ target.length < 1024 ∧
        TargetOpen target ∧ version.length < 16 ∧ version.take 7 = httpVersionStart := by
  constructor
  · intro h
    obtain ⟨req, hreq⟩ := Option.isSome_iff_exists.mp h
    rw [parseRequestLine] at hreq
    obtain ⟨⟨method, rest⟩, hmethod, hreq⟩ := Option.bind_eq_some_iff.mp hreq
    dsimp only at hreq
    split_ifs at hreq with hlen
    obtain ⟨⟨target, version⟩, htarget, hreq⟩ := Option.bind_eq_some_iff.mp hreq
    dsimp only at hreq
    split_ifs at hreq with htlen hvlen hstart hquery hpath
    obtain ⟨rfl, hm⟩ := eq_of_splitChar hmethod
    obtain ⟨rfl, ht⟩ := eq_of_splitChar htarget
    have hpathnil := (@path_of_splitTarget target).1
    have hpos : (splitTarget target).1 ≠ [] := fun heq => hpath (Or.inl (by rw [heq]; rfl))
    have htnil : target ≠ [] := fun heq => htlen (Or.inl (by rw [heq]; rfl))
    refine ⟨method, target, version, rfl, hm, ht, ?_, ?_, htnil, ?_, ⟨?_, ?_⟩, ?_, ?_⟩
    · omega
    · omega
    · omega
    · exact fun hhead => hpos (hpathnil.mpr (Or.inr hhead))
    · exact not_le.mp hquery
    · exact not_le.mp hvlen
    · exact not_not.mp hstart
  · rintro ⟨method, target, version, rfl, hm, ht, hpos, hmlen, htnil, htlen, ⟨hhead, hquery⟩, hvlen,
      hstart⟩
    obtain ⟨hpathnil, hpathlen⟩ := @path_of_splitTarget target
    have hpath : (splitTarget target).1 ≠ [] := fun heq => (hpathnil.mp heq).elim htnil hhead
    have hpathpos := List.length_pos_of_ne_nil hpath
    have htpos := List.length_pos_of_ne_nil htnil
    rw [parseRequestLine, splitChar_append_cons hm]
    dsimp only [Option.bind_eq_bind, Option.bind_some]
    rw [if_neg (by omega), splitChar_append_cons ht]
    dsimp only [Option.bind_some]
    rw [if_neg (by omega), if_neg (by omega), if_neg (not_not.mpr hstart), if_neg (by omega),
      if_neg (by omega)]
    rfl

/-- The query of a beginning is a beginning of the query. -/
lemma targetOpen_of_append {target more : List UInt8} (h : TargetOpen (target ++ more)) :
    TargetOpen target := by
  obtain ⟨hhead, hquery⟩ := h
  constructor
  · intro hsome
    obtain ⟨rest, rfl⟩ := List.head?_eq_some_iff.mp hsome
    exact hhead rfl
  · rw [splitTarget] at hquery ⊢
    cases hsplit : splitChar 63 target with
    | none =>
      rw [Option.getD_none]
      exact Nat.zero_lt_succ _
    | some r =>
      obtain ⟨path, query⟩ := r
      obtain ⟨rfl, hnot⟩ := eq_of_splitChar hsplit
      rw [List.append_assoc, List.cons_append, splitChar_append_cons hnot, Option.getD_some,
        List.length_append] at hquery
      rw [Option.getD_some]
      exact lt_of_le_of_lt (Nat.le_add_right _ _) hquery

/-- The start of a request line that is continued to one, unless it is one already. -/
lemma requestStart_of_append {text more : List UInt8} (htext : text.length ≤ httpLineMax)
    (hlen : (text ++ more).length ≤ httpLineMax) (h : (parseRequestLine (text ++ more)).isSome) :
    (parseRequestLine text).isSome ∨ RequestStart text := by
  have hmax : httpLineMax = 1022 := rfl
  obtain ⟨method, target, version, hline, hm, ht, hpos, hmlen, htnil, htlen, htarget, hvlen, hstart⟩ :=
    parseRequestLine_isSome_iff.mp h
  have hlens := congrArg List.length hline
  simp only [List.length_append, List.length_cons] at hlens hlen
  have hv : 7 ≤ version.length := by
    have hseven := congrArg List.length hstart
    rw [List.length_take] at hseven
    have : httpVersionStart.length = 7 := rfl
    omega
  have htpos := List.length_pos_of_ne_nil htnil
  unfold RequestStart
  obtain ⟨hnone, hpre⟩ | ⟨rest, hsome, hrest⟩ := splitChar_of_append hline hm
  · rw [hnone]
    exact Or.inr (lt_of_le_of_lt hpre.length_le hmlen)
  obtain ⟨rfl, -⟩ := eq_of_splitChar hsome
  rw [hsome]
  simp only [List.length_append, List.length_cons] at hlens hlen htext ⊢
  obtain ⟨hnone, w, rfl⟩ | ⟨version', hsome', hversion⟩ := splitChar_of_append hrest.symm ht
  · rw [hnone]
    rw [List.length_append] at hlens
    exact Or.inr ⟨hpos, hmlen, targetOpen_of_append htarget, by omega⟩
  obtain ⟨rfl, -⟩ := eq_of_splitChar hsome'
  rw [hsome']
  subst hversion
  simp only [List.length_append, List.length_cons] at hlens hlen htext hvlen hv ⊢
  -- the version is complete, or what is there of it starts one
  obtain hle | hlt := le_or_gt 7 version'.length
  · refine Or.inl (parseRequestLine_isSome_iff.mpr ⟨method, target, version', rfl, hm, ht, hpos, hmlen,
      htnil, htlen, htarget, by omega, ?_⟩)
    rwa [List.take_append_of_le_length hle] at hstart
  · refine Or.inr ⟨hpos, hmlen, htnil, htarget, ?_, by omega⟩
    rw [← hstart, List.take_append, List.take_of_length_le hlt.le]
    exact List.prefix_append _ _

/-- An unfinished line goes on with bytes that are neither an end nor a zero byte. -/
lemma exists_becomes (P : List UInt8 → Prop) {text : List UInt8} (more : List UInt8) (hlf : 10 ∉ text)
    (hzero : 0 ∉ text) (hmore : 10 ∉ more ∧ 0 ∉ more) (hlen : (text ++ more).length ≤ httpLineMax)
    (h : P (text ++ more)) : ∃ line, Becomes text line ∧ P (cString line) := by
  refine ⟨text ++ more, ⟨?_, hlen, Or.inl (List.prefix_append _ _)⟩, ?_⟩
  · rw [List.mem_append]
    exact fun hmem => hmem.elim hlf hmore.1
  · rwa [cString_of_notMem]
    rw [List.mem_append]
    exact fun hmem => hmem.elim hzero hmore.2

/-- The start of a request line can be continued to one. -/
lemma exists_line_of_requestStart {text : List UInt8} (hlf : 10 ∉ text) (hzero : 0 ∉ text)
    (h : RequestStart text) : ∃ line, Becomes text line ∧ (parseRequestLine (cString line)).isSome := by
  have hmax : httpLineMax = 1022 := rfl
  have hstart : httpVersionStart.length = 7 := rfl
  have hroot : TargetOpen [47] := by decide
  unfold RequestStart at h
  cases hmethod : splitChar 32 text with
  | none =>
    rw [hmethod] at h
    dsimp only at h
    have hnot := splitChar_eq_none_iff.mp hmethod
    by_cases hnil : text = []
    · subst hnil
      exact exists_becomes (fun line => (parseRequestLine line).isSome)
        (71 :: 32 :: 47 :: 32 :: httpVersionStart) hlf hzero (by decide) (by decide) (by decide)
    · refine exists_becomes (fun line => (parseRequestLine line).isSome)
        (32 :: 47 :: 32 :: httpVersionStart) hlf hzero (by decide) ?_ ?_
      · simp only [List.length_append, List.length_cons]
        omega
      · exact parseRequestLine_isSome_iff.mpr ⟨text, [47], httpVersionStart, rfl, hnot, by decide,
          List.length_pos_of_ne_nil hnil, h, List.cons_ne_nil _ _, by decide, hroot, by decide, rfl⟩
  | some r =>
    obtain ⟨method, rest⟩ := r
    obtain ⟨rfl, hm⟩ := eq_of_splitChar hmethod
    rw [hmethod] at h
    obtain ⟨hpos, hmlen, h⟩ := h
    cases htarget : splitChar 32 rest with
    | none =>
      rw [htarget] at h
      obtain ⟨hopen, hlen⟩ := h
      have hnot := splitChar_eq_none_iff.mp htarget
      by_cases hnil : rest = []
      · subst hnil
        refine exists_becomes (fun line => (parseRequestLine line).isSome)
          (47 :: 32 :: httpVersionStart) hlf hzero (by decide) ?_ ?_
        · simp only [List.length_append, List.length_cons, List.length_nil] at hlen ⊢
          omega
        · exact parseRequestLine_isSome_iff.mpr ⟨method, [47], httpVersionStart,
            List.append_assoc _ _ _, hm, by decide, hpos, hmlen, List.cons_ne_nil _ _, by decide, hroot,
            by decide, rfl⟩
      · refine exists_becomes (fun line => (parseRequestLine line).isSome)
          (32 :: httpVersionStart) hlf hzero (by decide) ?_ ?_
        · simp only [List.length_append, List.length_cons] at hlen ⊢
          omega
        · simp only [List.length_append, List.length_cons] at hlen
          exact parseRequestLine_isSome_iff.mpr ⟨method, rest, httpVersionStart, List.append_assoc _ _ _,
            hm, hnot, hpos, hmlen, hnil, by omega, hopen, by decide, rfl⟩
    | some r =>
      obtain ⟨target, version⟩ := r
      obtain ⟨rfl, ht⟩ := eq_of_splitChar htarget
      rw [htarget] at h
      obtain ⟨hnil, hopen, ⟨more, hversion⟩, hlen⟩ := h
      have hmem : 10 ∉ more ∧ 0 ∉ more := by
        constructor
        · exact fun hmem => absurd (hversion ▸ List.mem_append_right version hmem) (by decide)
        · exact fun hmem => absurd (hversion ▸ List.mem_append_right version hmem) (by decide)
      have hlens := congrArg List.length hversion
      rw [List.length_append] at hlens
      refine exists_becomes (fun line => (parseRequestLine line).isSome) more hlf hzero hmem ?_ ?_
      · simp only [List.length_append, List.length_cons] at hlen ⊢
        omega
      · simp only [List.length_append, List.length_cons] at hlen
        refine parseRequestLine_isSome_iff.mpr ⟨method, target, httpVersionStart, ?_, hm, ht, hpos, hmlen,
          hnil, by omega, hopen, by decide, rfl⟩
        rw [← hversion]
        simp only [List.append_assoc, List.cons_append]

/-- An unfinished first line can become a request line exactly when it is open. -/
lemma requestLineOpen_iff {text : List UInt8} (hlf : 10 ∉ text) :
    (∃ line, Becomes text line ∧ (parseRequestLine (cString line)).isSome) ↔ RequestLineOpen text := by
  constructor
  · rintro ⟨line, hbecomes, hline⟩
    obtain ⟨line', hstanding, heq⟩ | ⟨hzero, more, htext, hlen, heq⟩ := standing_or_of_becomes hbecomes
    · exact Or.inl ⟨line', hstanding, heq ▸ hline⟩
    · rw [heq] at hline
      obtain hdone | hstart := requestStart_of_append htext hlen hline
      · refine Or.inl ⟨text, mem_standing_iff.mpr ⟨htext, Or.inl rfl⟩, ?_⟩
        rwa [cString_of_notMem hzero]
      · exact Or.inr ⟨hzero, hstart⟩
  · rintro (⟨line, hstanding, hline⟩ | ⟨hzero, hstart⟩)
    · exact ⟨line, becomes_of_mem_standing hlf hstanding, hline⟩
    · exact exists_line_of_requestStart hlf hzero hstart

/-! ## Header lines -/

/-- Header lines: name and value. -/
lemma parseHeader_eq_some_iff {line : List UInt8} {header : List UInt8 × List UInt8} :
    parseHeader line = some header ↔
      ∃ name rest, line = name ++ 58 :: rest ∧ 58 ∉ name ∧ 0 < name.length ∧ name.length < 64 ∧
        (rest.dropWhile fun c => c = 32 || c = 9).length < 511 ∧
        header = (name, rest.dropWhile fun c => c = 32 || c = 9) := by
  rw [parseHeader]
  constructor
  · intro h
    obtain ⟨⟨name, rest⟩, hsplit, hread⟩ := Option.bind_eq_some_iff.mp h
    dsimp only at hread
    split_ifs at hread with hname hvalue
    obtain ⟨rfl, hnot⟩ := eq_of_splitChar hsplit
    exact ⟨name, rest, rfl, hnot, by omega, by omega, not_le.mp hvalue, (Option.some_inj.mp hread).symm⟩
  · rintro ⟨name, rest, rfl, hnot, hpos, hlen, hvalue, rfl⟩
    rw [splitChar_append_cons hnot]
    dsimp only [Option.bind_eq_bind, Option.bind_some]
    rw [if_neg (by omega), if_neg (by omega)]

/-- The first value of a name, with one more header. -/
lemma paiHttpHeader_concat (headers : List (List UInt8 × List UInt8)) (header : List UInt8 × List UInt8)
    (name : List UInt8) :
    paiHttpHeader (headers ++ [header]) name =
      (paiHttpHeader headers name).or (if asciiIeq header.1 name then some header.2 else none) := by
  rw [paiHttpHeader, paiHttpHeader, List.find?_append, Option.map_or]
  congr 1
  rw [List.find?_cons]
  cases asciiIeq header.1 name
  · rfl
  · rfl

/-- Headers that pass with one more pass without it, or owe a header. -/
lemma viable_of_concat {headers : List (List UInt8 × List UInt8)} {header : List UInt8 × List UInt8}
    (h : Viable (headers ++ [header])) : headers.length < paiHttpMaxHeaders ∧
      (Settled headers ∨ Owed headers ∧ (headers.length + 1 < paiHttpMaxHeaders ∨
        asciiIeq header.1 contentLength = true)) := by
  obtain ⟨hlen, hpass⟩ := h
  rw [List.length_append, List.length_singleton] at hlen hpass
  refine ⟨hlen, ?_⟩
  cases hcl : paiHttpHeader headers contentLength with
  | some cl =>
    obtain hsettled | ⟨howed, -⟩ := hpass
    · rw [Settled, paiHttpHeader_concat, hcl] at hsettled
      refine Or.inl ?_
      rw [Settled, hcl]
      exact hsettled
    · rw [Owed, paiHttpHeader_concat, hcl] at howed
      exact absurd howed.1 (Option.some_ne_none _)
  | none =>
    cases hte : paiHttpHeader headers transferEncoding with
    | none =>
      refine Or.inl ?_
      rw [Settled, hcl]
      exact hte
    | some te =>
      refine Or.inr ⟨⟨hcl, by rw [hte]; exact Option.some_ne_none _⟩, ?_⟩
      obtain hsettled | ⟨-, hroom⟩ := hpass
      · refine Or.inr ?_
        rw [Settled, paiHttpHeader_concat, paiHttpHeader_concat, hcl, hte] at hsettled
        by_contra hname
        rw [if_neg hname] at hsettled
        exact absurd hsettled (Option.some_ne_none _)
      · exact Or.inl hroom

/-- Whether headers pass depends on their number and on what is found. -/
lemma viable_congr {headers headers' : List (List UInt8 × List UInt8)}
    (hlen : headers.length = headers'.length)
    (hcl : paiHttpHeader headers contentLength = paiHttpHeader headers' contentLength)
    (hte : paiHttpHeader headers transferEncoding = none ↔
      paiHttpHeader headers' transferEncoding = none) :
    Viable headers ↔ Viable headers' := by
  have hsettled : Settled headers ↔ Settled headers' := by
    rw [Settled, Settled, hcl]
    cases paiHttpHeader headers' contentLength
    · exact hte
    · exact Iff.rfl
  rw [Viable, Viable, Owed, Owed, hlen, hcl, hsettled, Ne, Ne, hte]

/-- One more header `Content-Length`, the first, with a number. -/
lemma viable_concat_contentLength {headers : List (List UInt8 × List UInt8)}
    {header : List UInt8 × List UInt8} (hlen : headers.length < paiHttpMaxHeaders)
    (hcl : paiHttpHeader headers contentLength = none) (hname : asciiIeq header.1 contentLength = true)
    (hvalue : (parseU64 header.2).isSome) : Viable (headers ++ [header]) := by
  refine ⟨by rwa [List.length_append, List.length_singleton], Or.inl ?_⟩
  rw [Settled, paiHttpHeader_concat, hcl, if_pos hname]
  exact hvalue

/-- One more header that is not `Transfer-Encoding`, with a number. -/
lemma viable_concat {headers : List (List UInt8 × List UInt8)} {header : List UInt8 × List UInt8}
    (hlen : headers.length < paiHttpMaxHeaders)
    (hpass : Settled headers ∨ Owed headers ∧ headers.length + 1 < paiHttpMaxHeaders)
    (hname : asciiIeq header.1 transferEncoding = false) (hvalue : (parseU64 header.2).isSome) :
    Viable (headers ++ [header]) := by
  by_cases hfirst : paiHttpHeader headers contentLength = none ∧ asciiIeq header.1 contentLength = true
  · exact viable_concat_contentLength hlen hfirst.1 hfirst.2 hvalue
  have hcl : paiHttpHeader (headers ++ [header]) contentLength = paiHttpHeader headers contentLength := by
    rw [paiHttpHeader_concat]
    cases hfound : paiHttpHeader headers contentLength with
    | some cl => rfl
    | none => rw [if_neg (fun heq => hfirst ⟨hfound, heq⟩), Option.none_or]
  have hte : paiHttpHeader (headers ++ [header]) transferEncoding =
      paiHttpHeader headers transferEncoding := by
    rw [paiHttpHeader_concat, hname, if_neg Bool.false_ne_true, Option.or_none]
  refine ⟨by rwa [List.length_append, List.length_singleton], ?_⟩
  rw [Settled, Owed, hcl, hte, List.length_append, List.length_singleton]
  exact hpass

/-- Decimal digits, up to some place. -/
lemma parseU64_of_append {s more : List UInt8} (hne : s ≠ []) (h : (parseU64 (s ++ more)).isSome) :
    (parseU64 s).isSome := by
  have hdigits : ∀ v, (parseDigits v (s ++ more)).isSome → (parseDigits v s).isSome := by
    clear h hne
    induction s with
    | nil => exact fun v _ => rfl
    | cons c s ih =>
      intro v h
      rw [List.cons_append, parseDigits] at h
      rw [parseDigits]
      dsimp only at h ⊢
      by_cases hrange : c < 48 ∨ 57 < c
      · rw [if_pos hrange] at h
        cases h
      rw [if_neg hrange] at h ⊢
      by_cases hmax : paiHttpMaxBody < v * 10 + (c.toNat - 48)
      · rw [if_pos hmax] at h
        cases h
      rw [if_neg hmax] at h ⊢
      exact ih _ h
  rw [parseU64, if_neg (fun heq => hne (List.append_eq_nil_iff.mp heq).1)] at h
  rw [parseU64, if_neg hne]
  exact hdigits 0 h

/-- The start of a header line that is continued to one, unless it is one already. -/
lemma headerStart_of_append {headers : List (List UInt8 × List UInt8)} {text more : List UInt8}
    {header : List UInt8 × List UInt8} (hlen : (text ++ more).length ≤ httpLineMax)
    (hheader : parseHeader (text ++ more) = some header) (hviable : Viable (headers ++ [header])) :
    (text ≠ [] ∧ ∃ header', parseHeader text = some header' ∧ Viable (headers ++ [header'])) ∨
      HeaderStart headers text := by
  obtain ⟨name, rest, hline, hcolon, hpos, hname, hvalue, rfl⟩ := parseHeader_eq_some_iff.mp hheader
  obtain ⟨hroom, hpass⟩ := viable_of_concat hviable
  unfold HeaderStart
  obtain ⟨hnone, w, rfl⟩ | ⟨rest', hsome, hrest⟩ := splitChar_of_append hline hcolon
  · rw [hnone]
    rw [List.length_append] at hname
    refine Or.inr ⟨hroom, by omega, hpass.imp_right fun howed => ⟨howed.1,
      howed.2.imp_right fun hieq => ?_⟩⟩
    rw [← beq_iff_eq.mp hieq, List.map_append]
    exact List.prefix_append _ _
  obtain ⟨rfl, -⟩ := eq_of_splitChar hsome
  rw [hsome]
  subst hrest
  -- the value so far
  obtain ⟨value, hvalue'⟩ : ∃ value, value = rest'.dropWhile fun c => c = 32 || c = 9 := ⟨_, rfl⟩
  have hread : ∀ hshort : value.length < 511,
      parseHeader (name ++ 58 :: rest') = some (name, value) := fun hshort =>
    parseHeader_eq_some_iff.mpr ⟨name, rest', rfl, hcolon, hpos, hname, hvalue' ▸ hshort, by rw [hvalue']⟩
  have hne : name ++ 58 :: rest' ≠ [] := List.append_ne_nil_of_right_ne_nil _ (List.cons_ne_nil _ _)
  have hcongr : ¬ (paiHttpHeader headers contentLength = none ∧ asciiIeq name contentLength = true) →
      Viable (headers ++ [(name, value)]) := fun hlater => by
    refine (viable_congr ?_ ?_ ?_).mp hviable
    · rw [List.length_append, List.length_append]
      rfl
    · rw [paiHttpHeader_concat, paiHttpHeader_concat]
      cases hfound : paiHttpHeader headers contentLength with
      | some cl => rfl
      | none => rw [if_neg fun heq => hlater ⟨hfound, heq⟩, if_neg fun heq => hlater ⟨hfound, heq⟩]
    · rw [paiHttpHeader_concat, paiHttpHeader_concat]
      cases paiHttpHeader headers transferEncoding
      · cases asciiIeq name transferEncoding
        · exact Iff.rfl
        · simp
      · exact Iff.rfl
  have hnumber : paiHttpHeader headers contentLength = none ∧ asciiIeq name contentLength = true →
      (parseU64 ((rest' ++ more).dropWhile fun c => c = 32 || c = 9)).isSome := fun hfirst => by
    obtain hsettled | ⟨howed, -⟩ := hviable.2
    · rwa [Settled, paiHttpHeader_concat, hfirst.1, if_pos hfirst.2] at hsettled
    · rw [Owed, paiHttpHeader_concat, hfirst.1, if_pos hfirst.2] at howed
      exact absurd howed.1 (Option.some_ne_none _)
  rw [List.dropWhile_append, ← hvalue'] at hvalue hnumber
  by_cases hnil : value = []
  · by_cases hfirst : paiHttpHeader headers contentLength = none ∧ asciiIeq name contentLength = true
    · refine Or.inr ⟨hroom, hfirst.2, hfirst.1, fun c hc => ?_, ?_⟩
      · have hall := List.dropWhile_eq_nil_iff.mp (hvalue'.symm.trans hnil) c hc
        simpa using hall
      · -- a digit must follow
        have hdigit := hnumber hfirst
        rw [hnil, List.isEmpty_nil, if_pos rfl] at hdigit
        have hmore : more ≠ [] := by
          rintro rfl
          cases hdigit
        have hmorepos := List.length_pos_of_ne_nil hmore
        rw [List.length_append] at hlen
        exact lt_of_lt_of_le (Nat.lt_add_of_pos_right hmorepos) hlen
    · exact Or.inl ⟨hne, (name, value), hread (by rw [hnil]; exact Nat.zero_lt_succ _), hcongr hfirst⟩
  · have hempty : value.isEmpty = false := List.isEmpty_eq_false_iff.mpr hnil
    rw [hempty, if_neg Bool.false_ne_true] at hvalue hnumber
    rw [List.length_append] at hvalue
    refine Or.inl ⟨hne, (name, value), hread (by omega), ?_⟩
    by_cases hfirst : paiHttpHeader headers contentLength = none ∧ asciiIeq name contentLength = true
    · exact viable_concat_contentLength hroom hfirst.1 hfirst.2 (parseU64_of_append hnil (hnumber hfirst))
    · exact hcongr hfirst

/-- A header line that passes ends the header or lets the headers pass. -/
lemma nextOk_of_header {headers : List (List UInt8 × List UInt8)} {line name : List UInt8}
    (hline : line = name ++ [58, 48]) (hcolon : 58 ∉ name) (hpos : 0 < name.length)
    (hname : name.length < 64) (hviable : Viable (headers ++ [(name, [48])])) :
    line ≠ [] ∧ ∃ header, parseHeader line = some header ∧ Viable (headers ++ [header]) := by
  subst hline
  refine ⟨List.append_ne_nil_of_right_ne_nil _ (List.cons_ne_nil _ _), (name, [48]), ?_, hviable⟩
  exact parseHeader_eq_some_iff.mpr ⟨name, [48], rfl, hcolon, hpos, hname, by decide, rfl⟩

lemma length_of_asciiIeq {a b : List UInt8} (h : asciiIeq a b = true) : a.length = b.length := by
  have hlens := congrArg List.length (beq_iff_eq.mp h)
  rwa [List.length_map, List.length_map] at hlens

lemma length_contentLength : contentLength.length = 14 := by decide +kernel

/-- What starts like `Content-Length` can be continued to it. -/
lemma exists_contentLength {text : List UInt8} (h : text.map asciiLower <+: contentLength.map asciiLower) :
    ∃ tail, asciiIeq (text ++ tail) contentLength = true ∧ ∀ c ∈ tail, c ∈ contentLength := by
  obtain ⟨w, hw⟩ := h
  refine ⟨contentLength.drop text.length, beq_iff_eq.mpr ?_, fun c hc => List.mem_of_mem_drop hc⟩
  have hdrop : (contentLength.drop text.length).map asciiLower = w := by
    rw [List.map_drop, ← hw, ← List.length_map asciiLower, List.drop_left]
  rw [List.map_append, hdrop, hw]

/-- Some name that is not `Transfer-Encoding` starts with a given text. -/
lemma exists_name {text : List UInt8} (hlen : text.length < 64) :
    ∃ tail, (∀ c ∈ tail, c = 120) ∧ 0 < (text ++ tail).length ∧ (text ++ tail).length < 64 ∧
      asciiIeq (text ++ tail) transferEncoding = false := by
  have hseventeen : transferEncoding.length = 17 := by decide +kernel
  by_cases hnil : text = []
  · subst hnil
    exact ⟨[120], fun c hc => List.mem_singleton.mp hc, by decide, by decide, by decide +kernel⟩
  cases hte : asciiIeq text transferEncoding with
  | true =>
    have hlens : (text ++ [120]).length = 18 := by
      rw [List.length_append, length_of_asciiIeq hte, hseventeen]
      rfl
    refine ⟨[120], fun c hc => List.mem_singleton.mp hc, by omega, by omega, ?_⟩
    rw [Bool.eq_false_iff]
    intro hieq
    have := length_of_asciiIeq hieq
    omega
  | false =>
    rw [← List.append_nil text] at hlen hte
    exact ⟨[], fun c hc => (List.not_mem_nil hc).elim, by
      rw [List.append_nil]
      exact List.length_pos_of_ne_nil hnil, hlen, hte⟩

/-- A name that goes on, with the value `0`, makes a header line that passes. -/
lemma exists_line_of_name {headers : List (List UInt8 × List UInt8)} {text tail : List UInt8}
    (hlf : 10 ∉ text) (hzero : 0 ∉ text) (hcolon : 58 ∉ text)
    (htail : ∀ c ∈ tail, c ≠ 10 ∧ c ≠ 0 ∧ c ≠ 58) (hpos : 0 < (text ++ tail).length)
    (hlen : (text ++ tail).length < 64) (hviable : Viable (headers ++ [(text ++ tail, [48])])) :
    ∃ line, Becomes text line ∧ cString line ≠ [] ∧
      ∃ header, parseHeader (cString line) = some header ∧ Viable (headers ++ [header]) := by
  have hmax : httpLineMax = 1022 := rfl
  refine exists_becomes (fun line => line ≠ [] ∧ ∃ header, parseHeader line = some header ∧
    Viable (headers ++ [header])) (tail ++ [58, 48]) hlf hzero ?_ ?_ ?_
  · constructor
    · exact fun h10 => (List.mem_append.mp h10).elim (fun hc => (htail 10 hc).1 rfl) (by decide)
    · exact fun h0 => (List.mem_append.mp h0).elim (fun hc => (htail 0 hc).2.1 rfl) (by decide)
  · rw [← List.append_assoc, List.length_append]
    simp only [List.length_cons, List.length_nil]
    omega
  · refine nextOk_of_header (List.append_assoc _ _ _).symm ?_ hpos hlen hviable
    exact fun hc => (List.mem_append.mp hc).elim hcolon fun hc => (htail 58 hc).2.2 rfl

/-- The start of a header line can be continued to one that passes. -/
lemma exists_line_of_headerStart {headers : List (List UInt8 × List UInt8)} {text : List UInt8}
    (hlf : 10 ∉ text) (hzero : 0 ∉ text) (h : HeaderStart headers text) :
    ∃ line, Becomes text line ∧ cString line ≠ [] ∧
      ∃ header, parseHeader (cString line) = some header ∧ Viable (headers ++ [header]) := by
  have hmax : httpLineMax = 1022 := rfl
  have hfourteen := length_contentLength
  obtain ⟨hroom, h⟩ := h
  cases hsplit : splitChar 58 text with
  | none =>
    rw [hsplit] at h
    obtain ⟨hlen, hpass⟩ := h
    have hcolon := splitChar_eq_none_iff.mp hsplit
    by_cases hlike : text.map asciiLower <+: contentLength.map asciiLower ∧ Owed headers
    · -- the name becomes the header that is owed
      obtain ⟨hlike, hcl, -⟩ := hlike
      obtain ⟨tail, hname, hmem⟩ := exists_contentLength hlike
      have hlens := length_of_asciiIeq hname
      have hplain : ∀ c ∈ contentLength, c ≠ 10 ∧ c ≠ 0 ∧ c ≠ 58 := by decide +kernel
      exact exists_line_of_name hlf hzero hcolon (fun c hc => hplain c (hmem c hc)) (by omega) (by omega)
        (viable_concat_contentLength hroom hcl hname rfl)
    · have hpass' : Settled headers ∨ Owed headers ∧ headers.length + 1 < paiHttpMaxHeaders :=
        hpass.imp_right fun howed => ⟨howed.1, howed.2.resolve_right fun hl => hlike ⟨hl, howed.1⟩⟩
      obtain ⟨tail, hx, hpos, hlen', hname⟩ := exists_name hlen
      refine exists_line_of_name hlf hzero hcolon (fun c hc => ?_) hpos hlen'
        (viable_concat hroom hpass' hname rfl)
      rw [hx c hc]
      decide
  | some r =>
    obtain ⟨name, rest⟩ := r
    obtain ⟨rfl, hcolon⟩ := eq_of_splitChar hsplit
    rw [hsplit] at h
    obtain ⟨hname, hcl, hws, hlen⟩ := h
    have hlens := length_of_asciiIeq hname
    refine exists_becomes (fun line => line ≠ [] ∧ ∃ header, parseHeader line = some header ∧
      Viable (headers ++ [header])) [48] hlf hzero (by decide) ?_ ?_
    · rw [List.length_append]
      exact hlen
    · refine ⟨List.append_ne_nil_of_right_ne_nil _ (List.cons_ne_nil _ _), (name, [48]), ?_,
        viable_concat_contentLength hroom hcl hname rfl⟩
      have hdrop : (rest ++ [48]).dropWhile (fun c => c = 32 || c = 9) = [48] := by
        rw [List.dropWhile_append_of_pos (fun c hc => by simpa using hws c hc)]
        rfl
      exact parseHeader_eq_some_iff.mpr ⟨name, rest ++ [48], by rw [List.append_assoc, List.cons_append],
        hcolon, by omega, by omega, by rw [hdrop]; decide, by rw [hdrop]⟩

/-- An unfinished header line can become one after which the headers pass exactly when it is open. -/
lemma headerOpen_iff {headers : List (List UInt8 × List UInt8)} {text : List UInt8} (hlf : 10 ∉ text) :
    (∃ line, Becomes text line ∧ NextOk headers line) ↔ HeaderOpen headers text := by
  constructor
  · rintro ⟨line, hbecomes, hok⟩
    obtain ⟨line', hstanding, heq⟩ | ⟨hzero, more, htext, hlen, heq⟩ := standing_or_of_becomes hbecomes
    · refine Or.inl ⟨line', hstanding, ?_⟩
      rwa [NextOk, heq]
    · rw [NextOk, heq] at hok
      have hself : text ∈ standing text := mem_standing_iff.mpr ⟨htext, Or.inl rfl⟩
      obtain ⟨hnil, hsettled⟩ | ⟨-, header, hheader, hviable⟩ := hok
      · obtain ⟨rfl, -⟩ := List.append_eq_nil_iff.mp hnil
        exact Or.inl ⟨[], hself, Or.inl ⟨rfl, hsettled⟩⟩
      · obtain hdone | hstart := headerStart_of_append hlen hheader hviable
        · refine Or.inl ⟨text, hself, Or.inr ?_⟩
          rwa [cString_of_notMem hzero]
        · exact Or.inr ⟨hzero, hstart⟩
  · rintro (⟨line, hstanding, hok⟩ | ⟨hzero, hstart⟩)
    · exact ⟨line, becomes_of_mem_standing hlf hstanding, hok⟩
    · obtain ⟨line, hbecomes, hok⟩ := exists_line_of_headerStart hlf hzero hstart
      exact ⟨line, hbecomes, Or.inr hok⟩

/-! ## Open lines are short -/

lemma length_of_mem_standing {text line : List UInt8} (h : line ∈ standing text) :
    text.length ≤ httpLineMax + 1 := by
  obtain ⟨hlen, rfl | rfl⟩ := mem_standing_iff.mp h
  · omega
  · rw [List.length_append, List.length_singleton]
    omega

/-- Bytes without a line in front that fits have no line feed, when they are as short as an open line. -/
lemma notMem_of_noLine {text : List UInt8} (h : NoLine text) (hlen : text.length ≤ httpLineMax + 1) :
    10 ∉ text := by
  intro hmem
  cases hsplit : splitChar 10 text with
  | none => exact splitChar_eq_none_iff.mp hsplit hmem
  | some r =>
    obtain ⟨line, rest⟩ := r
    obtain ⟨rfl, hnot⟩ := eq_of_splitChar hsplit
    rw [List.length_append, List.length_cons] at hlen
    by_cases hcr : line.getLast? = some 13
    · obtain ⟨line, rfl⟩ := List.getLast?_eq_some_iff.mp hcr
      rw [List.length_append, List.length_singleton] at hlen
      have hlong := h line rest (isLine_iff.mpr ⟨fun hl => hnot (List.mem_append_left _ hl),
        Or.inl (by rw [List.append_assoc]; rfl)⟩)
      omega
    · have hlong := h line rest (isLine_iff.mpr ⟨hnot, Or.inr ⟨rfl, hcr⟩⟩)
      omega

lemma notMem_of_requestLineOpen {text : List UInt8} (h : NoLine text) (hopen : RequestLineOpen text) :
    10 ∉ text := by
  refine notMem_of_noLine h ?_
  have hmax : httpLineMax = 1022 := rfl
  obtain ⟨line, hstanding, -⟩ | ⟨-, hstart⟩ := hopen
  · exact length_of_mem_standing hstanding
  unfold RequestStart at hstart
  cases hmethod : splitChar 32 text with
  | none =>
    rw [hmethod] at hstart
    dsimp only at hstart
    omega
  | some r =>
    rw [hmethod] at hstart
    obtain ⟨-, -, hstart⟩ := hstart
    cases htarget : splitChar 32 r.2 with
    | none =>
      rw [htarget] at hstart
      have hroom := hstart.2
      omega
    | some r' =>
      rw [htarget] at hstart
      obtain ⟨-, -, hversion, hroom⟩ := hstart
      have hseven : r'.2.length ≤ 7 := hversion.length_le
      omega

lemma notMem_of_headerOpen {headers : List (List UInt8 × List UInt8)} {text : List UInt8} (h : NoLine text)
    (hopen : HeaderOpen headers text) : 10 ∉ text := by
  refine notMem_of_noLine h ?_
  have hmax : httpLineMax = 1022 := rfl
  obtain ⟨line, hstanding, -⟩ | ⟨-, -, hstart⟩ := hopen
  · exact length_of_mem_standing hstanding
  cases hsplit : splitChar 58 text with
  | none =>
    rw [hsplit] at hstart
    have hlen := hstart.1
    omega
  | some r =>
    rw [hsplit] at hstart
    have hlen := hstart.2.2.2
    omega

/-- Bytes behind which a line is read have no line feed when they have no line of their own. -/
lemma notMem_of_becomes {text line : List UInt8} (h : NoLine text) (hbecomes : Becomes text line) :
    10 ∉ text := by
  obtain ⟨hnot, hlen, hpre | rfl⟩ := hbecomes
  · exact fun hmem => hnot (hpre.subset hmem)
  · exact notMem_of_noLine h (by rw [List.length_append, List.length_singleton]; omega)

/-! ## Headers that pass -/

lemma le_of_parseU64 {s : List UInt8} {n : ℕ} (h : parseU64 s = some n) : n ≤ paiHttpMaxBody := by
  have hdigits : ∀ v, v ≤ paiHttpMaxBody → parseDigits v s = some n → n ≤ paiHttpMaxBody := by
    clear h
    induction s with
    | nil => exact fun v hv h => Option.some_inj.mp h ▸ hv
    | cons c s ih =>
      intro v _ h
      rw [parseDigits] at h
      dsimp only at h
      split_ifs at h with hrange hmax
      exact ih _ (not_lt.mp hmax) h
  rw [parseU64] at h
  split_ifs at h
  exact hdigits 0 (Nat.zero_le _) h

/-- Headers are settled when some bytes behind them have their body. -/
lemma settled_iff {headers : List (List UInt8 × List UInt8)} :
    Settled headers ↔ ∃ rest body, parseBody headers rest = .ok body := by
  unfold Settled parseBody
  cases hcl : paiHttpHeader headers contentLength with
  | none =>
    dsimp only
    cases hte : paiHttpHeader headers transferEncoding with
    | none => exact ⟨fun _ => ⟨[], [], rfl⟩, fun _ => rfl⟩
    | some te => exact ⟨fun h => (nomatch h), fun ⟨_, _, h⟩ => (nomatch h)⟩
  | some cl =>
    dsimp only
    cases hlen : parseU64 cl with
    | none => exact ⟨fun h => (nomatch h), fun ⟨_, _, h⟩ => (nomatch h)⟩
    | some n =>
      dsimp only
      refine ⟨fun _ => ⟨List.replicate n 0, (List.replicate n 0).take n, ?_⟩, fun _ => rfl⟩
      rw [if_neg (not_lt.mpr (le_of_parseU64 hlen)), if_neg]
      rw [List.length_replicate]
      exact lt_irrefl n

/-- Headers that run through to a body pass. -/
lemma viable_of_headerLoop {total slots : ℕ} {data body : List UInt8}
    {headers : List (List UInt8 × List UInt8)} {r : List (List UInt8 × List UInt8) × List UInt8}
    (hslots : headers.length + slots = paiHttpMaxHeaders)
    (h : headerLoop total slots data headers = .ok r) (hbody : parseBody r.1 r.2 = .ok body) :
    Viable headers := by
  induction slots using Nat.strong_induction_on generalizing data headers with
  | _ slots ih =>
    rw [headerLoop] at h
    cases hline : nextLine data with
    | none =>
      rw [hline] at h
      cases h
    | some q =>
      rw [hline] at h
      dsimp only at h
      by_cases hblank : q.1 = []
      · rw [if_pos hblank] at h
        cases h
        exact ⟨by omega, Or.inl (settled_iff.mpr ⟨_, _, hbody⟩)⟩
      rw [if_neg hblank] at h
      cases slots with
      | zero => cases h
      | succ slots =>
        dsimp only at h
        cases hheader : parseHeader q.1 with
        | none =>
          rw [hheader] at h
          cases h
        | some header =>
          rw [hheader] at h
          have hlen : (headers ++ [header]).length + slots = paiHttpMaxHeaders := by
            rw [List.length_append, List.length_singleton]
            omega
          obtain ⟨hroom, hpass⟩ := viable_of_concat (ih slots (Nat.lt_succ_self slots) hlen h)
          exact ⟨hroom.le, hpass.imp_right fun howed => ⟨howed.1, hroom⟩⟩

/-- Headers that are settled run through with an empty line and their body. -/
lemma exists_rest_of_settled {headers : List (List UInt8 × List UInt8)} (h : Settled headers) :
    ∃ rest, ∀ total slots, ∃ r body,
      headerLoop total slots rest headers = .ok r ∧ parseBody r.1 r.2 = .ok body := by
  obtain ⟨rest, body, hbody⟩ := settled_iff.mp h
  refine ⟨10 :: rest, fun total slots => ⟨(headers, rest), body, ?_, hbody⟩⟩
  have hline : nextLine (10 :: rest) = some ([], rest) :=
    nextLine_eq_some_iff.mpr ⟨[], rfl, .lf, by decide⟩
  rw [headerLoop, hline]
  rfl

/-- Headers that pass run through, with the `Content-Length` that they owe. -/
lemma exists_rest_of_viable {headers : List (List UInt8 × List UInt8)} (h : Viable headers) :
    ∃ rest, ∀ total, ∃ r body,
      headerLoop total (paiHttpMaxHeaders - headers.length) rest headers = .ok r ∧
        parseBody r.1 r.2 = .ok body := by
  obtain ⟨-, hsettled | ⟨⟨hcl, -⟩, hroom⟩⟩ := h
  · obtain ⟨rest, hrun⟩ := exists_rest_of_settled hsettled
    exact ⟨rest, fun total => hrun total _⟩
  have hsame : asciiIeq contentLength contentLength = true := beq_self_eq_true _
  have hsettled : Settled (headers ++ [(contentLength, [48])]) := by
    rw [Settled, paiHttpHeader_concat, hcl, if_pos hsame]
    rfl
  obtain ⟨rest, hrun⟩ := exists_rest_of_settled hsettled
  refine ⟨contentLength ++ [58, 48, 10] ++ rest, fun total => ?_⟩
  obtain ⟨r, body, hloop, hbody⟩ := hrun total (paiHttpMaxHeaders - headers.length - 1)
  refine ⟨r, body, ?_, hbody⟩
  have hline : nextLine (contentLength ++ [58, 48, 10]) = some (contentLength ++ [58, 48], []) := by
    decide +kernel
  have hheader : parseHeader (contentLength ++ [58, 48]) = some (contentLength, [48]) := by decide +kernel
  obtain ⟨slots, hslots⟩ : ∃ slots, paiHttpMaxHeaders - headers.length = slots + 1 :=
    Nat.exists_eq_succ_of_ne_zero (by omega)
  rw [hslots, Nat.add_sub_cancel] at hloop
  rw [hslots, headerLoop, nextLine_append hline]
  dsimp only
  rw [if_neg (List.append_ne_nil_of_right_ne_nil _ (List.cons_ne_nil _ _)), hheader, List.nil_append]
  exact hloop

/-- A line that is read behind accepted headers, in a run to a body, ends the headers or is a header. -/
lemma nextOk_of_headerLoop {total : ℕ} {tail more body : List UInt8}
    {headers : List (List UInt8 × List UInt8)} {r : List (List UInt8 × List UInt8) × List UInt8}
    (hlen : headers.length ≤ paiHttpMaxHeaders) (hno : NoLine tail)
    (h : headerLoop total (paiHttpMaxHeaders - headers.length) (tail ++ more) headers = .ok r)
    (hbody : parseBody r.1 r.2 = .ok body) : ∃ line, Becomes tail line ∧ NextOk headers line := by
  rw [headerLoop] at h
  cases hline : nextLine (tail ++ more) with
  | none =>
    rw [hline] at h
    cases h
  | some q =>
    obtain ⟨line, rest⟩ := q
    obtain ⟨raw, hbecomes, rfl⟩ := becomes_of_nextLine (nextLine_eq_none_iff.mpr hno) hline
    rw [hline] at h
    dsimp only at h
    refine ⟨raw, hbecomes, ?_⟩
    by_cases hblank : cString raw = []
    · rw [if_pos hblank] at h
      cases h
      exact Or.inl ⟨hblank, settled_iff.mpr ⟨_, _, hbody⟩⟩
    rw [if_neg hblank] at h
    refine Or.inr ⟨hblank, ?_⟩
    cases hslots : paiHttpMaxHeaders - headers.length with
    | zero =>
      rw [hslots] at h
      cases h
    | succ slots =>
      rw [hslots] at h
      dsimp only at h
      cases hheader : parseHeader (cString raw) with
      | none =>
        rw [hheader] at h
        cases h
      | some header =>
        rw [hheader] at h
        refine ⟨header, rfl, viable_of_headerLoop ?_ h hbody⟩
        rw [List.length_append, List.length_singleton]
        omega

/-- A line that ends the headers, or after which they pass, runs through when the right bytes follow. -/
lemma exists_run_of_nextOk {tail line : List UInt8} {headers : List (List UInt8 × List UInt8)}
    (hbecomes : Becomes tail line) (hok : NextOk headers line) :
    ∃ more, ∀ total, ∃ r body,
      headerLoop total (paiHttpMaxHeaders - headers.length) (tail ++ more) headers = .ok r ∧
        parseBody r.1 r.2 = .ok body := by
  obtain ⟨more, hmore⟩ := nextLine_of_becomes hbecomes
  obtain ⟨hnil, hsettled⟩ | ⟨hne, header, hheader, hviable⟩ := hok
  · obtain ⟨rest, body, hbody⟩ := settled_iff.mp hsettled
    refine ⟨more ++ rest, fun total => ⟨(headers, rest), body, ?_, hbody⟩⟩
    rw [headerLoop, hmore]
    dsimp only
    rw [if_pos hnil]
  · obtain ⟨rest, hrun⟩ := exists_rest_of_viable hviable
    refine ⟨more ++ rest, fun total => ?_⟩
    obtain ⟨r, body, hloop, hbody⟩ := hrun total
    refine ⟨r, body, ?_, hbody⟩
    have hroom := (viable_of_concat hviable).1
    rw [List.length_append, List.length_singleton] at hloop
    obtain ⟨slots, hslots⟩ : ∃ slots, paiHttpMaxHeaders - headers.length = slots + 1 :=
      Nat.exists_eq_succ_of_ne_zero (by omega)
    rw [show paiHttpMaxHeaders - (headers.length + 1) = slots by omega] at hloop
    rw [hslots, headerLoop, hmore]
    dsimp only
    rw [if_neg hne, hheader]
    exact hloop

/-! ## The finished lines -/

/-- The header loop behind accepted headers, whatever follows. -/
lemma headerLoop_of_read {data tail : List UInt8} {headers : List (List UInt8 × List UInt8)}
    (h : HeadersRead data headers tail) (total slots : ℕ) (before : List (List UInt8 × List UInt8))
    (more : List UInt8) (hlen : headers.length ≤ slots) :
    headerLoop total slots (data ++ more) before =
      headerLoop total (slots - headers.length) (tail ++ more) (before ++ headers) := by
  induction h generalizing slots before with
  | nil => rw [List.append_nil, List.length_nil, Nat.sub_zero]
  | @cons data line data' rest header headers hline hfit hne hheader _ ih =>
    rw [List.length_cons] at hlen
    obtain ⟨slots, rfl⟩ : ∃ slots', slots = slots' + 1 := Nat.exists_eq_succ_of_ne_zero (by omega)
    have hnext := nextLine_append (nextLine_eq_some_iff.mpr ⟨line, rfl, hline, hfit⟩) more
    rw [headerLoop, hnext]
    dsimp only
    rw [if_neg hne, hheader]
    dsimp only
    rw [ih slots (before ++ [header]) (by omega), List.append_assoc, List.singleton_append,
      List.length_cons, Nat.add_sub_add_right]

/-- A header loop that waits has read headers, and a line is missing behind them. -/
lemma read_of_mismatch {total slots : ℕ} {data : List UInt8} {before : List (List UInt8 × List UInt8)}
    (h : headerLoop total slots data before = .error paiErrMismatch) :
    ∃ headers tail, HeadersRead data headers tail ∧ headers.length ≤ slots ∧ NoLine tail := by
  have hnomem : paiErrNomem ≠ paiErrMismatch := by decide
  have hprotocol : paiErrProtocol ≠ paiErrMismatch := by decide
  induction slots using Nat.strong_induction_on generalizing data before with
  | _ slots ih =>
    rw [headerLoop] at h
    cases hline : nextLine data with
    | none => exact ⟨[], data, .nil, Nat.zero_le _, nextLine_eq_none_iff.mp hline⟩
    | some q =>
      obtain ⟨line, rest⟩ := q
      obtain ⟨raw, rfl, hraw, hfit⟩ := nextLine_eq_some_iff.mp hline
      rw [hline] at h
      dsimp only at h
      by_cases hblank : cString raw = []
      · rw [if_pos hblank] at h
        cases h
      rw [if_neg hblank] at h
      cases slots with
      | zero => exact absurd (Except.error.inj h) hnomem
      | succ slots =>
        dsimp only at h
        cases hheader : parseHeader (cString raw) with
        | none =>
          rw [hheader] at h
          exact absurd (Except.error.inj h) hprotocol
        | some header =>
          rw [hheader] at h
          obtain ⟨headers, tail, hread, hle, hno⟩ := ih slots (Nat.lt_succ_self slots) h
          exact ⟨header :: headers, tail, .cons hraw hfit hblank hheader hread, Nat.succ_le_succ hle, hno⟩

/-! ## Requests and what can follow -/

/-- A request behind an accepted first line is accepted when the header loop runs through to a body. -/
lemma parse_isOk_iff {p first data : List UInt8} (hfirst : IsLine p first data)
    (hfit : first.length ≤ httpLineMax) (hreq : (parseRequestLine (cString first)).isSome)
    (more : List UInt8) :
    (∃ req, paiHttpParseRequest (p ++ more) = .ok req) ↔
      ∃ r body, headerLoop (p ++ more).length paiHttpMaxHeaders (data ++ more) [] = .ok r ∧
        parseBody r.1 r.2 = .ok body := by
  obtain ⟨req, hreq⟩ := Option.isSome_iff_exists.mp hreq
  have hnext := nextLine_append (nextLine_eq_some_iff.mpr ⟨first, rfl, hfirst, hfit⟩) more
  rw [paiHttpParseRequest, hnext]
  dsimp only
  rw [hreq]
  dsimp only
  cases hloop : headerLoop (p ++ more).length paiHttpMaxHeaders (data ++ more) [] with
  | error st =>
    constructor
    · rintro ⟨_, h⟩
      cases h
    · rintro ⟨_, _, h, _⟩
      cases h
  | ok r =>
    obtain ⟨headers, rest⟩ := r
    dsimp only
    cases hbody : parseBody headers rest with
    | error st =>
      constructor
      · rintro ⟨_, h⟩
        cases h
      · rintro ⟨r, body, hr, h⟩
        cases hr
        rw [hbody] at h
        cases h
    | ok body => exact ⟨fun _ => ⟨_, body, rfl, hbody⟩, fun _ => ⟨_, rfl⟩⟩

section Missing

variable {p first data tail : List UInt8} {headers : List (List UInt8 × List UInt8)}

/-- While the first line is missing, the request can be accepted exactly when it is open. -/
lemma completable_first_iff (hno : NoLine p) :
    (∃ q req, paiHttpParseRequest (p ++ q) = .ok req) ↔ RequestLineOpen p := by
  constructor
  · rintro ⟨q, req, hok⟩
    rw [paiHttpParseRequest] at hok
    cases hline : nextLine (p ++ q) with
    | none =>
      rw [hline] at hok
      cases hok
    | some r =>
      obtain ⟨line, rest⟩ := r
      obtain ⟨raw, hbecomes, rfl⟩ := becomes_of_nextLine (nextLine_eq_none_iff.mpr hno) hline
      rw [hline] at hok
      dsimp only at hok
      refine (requestLineOpen_iff (notMem_of_becomes hno hbecomes)).mp ⟨raw, hbecomes, ?_⟩
      cases hreq : parseRequestLine (cString raw) with
      | none =>
        rw [hreq] at hok
        cases hok
      | some req => rfl
  · intro hopen
    obtain ⟨line, hbecomes, hreq⟩ := (requestLineOpen_iff (notMem_of_requestLineOpen hno hopen)).mpr hopen
    obtain ⟨more, hmore⟩ := nextLine_of_becomes hbecomes
    obtain ⟨rest, hrun⟩ := @exists_rest_of_settled [] rfl
    obtain ⟨raw, hraw, hline, hfit⟩ := nextLine_eq_some_iff.mp (hmore [])
    rw [List.append_nil] at hline
    rw [hraw] at hreq
    obtain ⟨req, hok⟩ := (parse_isOk_iff hline hfit hreq rest).mpr (by
      obtain ⟨r, body, hloop, hbody⟩ := hrun (p ++ more ++ rest).length paiHttpMaxHeaders
      exact ⟨r, body, hloop, hbody⟩)
    exact ⟨more ++ rest, req, by rwa [← List.append_assoc]⟩

/-- While a header line is missing, the request can be accepted exactly when the line is open. -/
lemma completable_header_iff (hfirst : IsLine p first data) (hfit : first.length ≤ httpLineMax)
    (hreq : (parseRequestLine (cString first)).isSome) (hread : HeadersRead data headers tail)
    (hlen : headers.length ≤ paiHttpMaxHeaders) (hno : NoLine tail) :
    (∃ q req, paiHttpParseRequest (p ++ q) = .ok req) ↔ HeaderOpen headers tail := by
  constructor
  · rintro ⟨q, hok⟩
    obtain ⟨r, body, hloop, hbody⟩ := (parse_isOk_iff hfirst hfit hreq q).mp hok
    rw [headerLoop_of_read hread _ _ [] q hlen, List.nil_append] at hloop
    obtain ⟨line, hbecomes, hnext⟩ := nextOk_of_headerLoop hlen hno hloop hbody
    exact (headerOpen_iff (notMem_of_becomes hno hbecomes)).mp ⟨line, hbecomes, hnext⟩
  · intro hopen
    obtain ⟨line, hbecomes, hnext⟩ := (headerOpen_iff (notMem_of_headerOpen hno hopen)).mpr hopen
    obtain ⟨more, hrun⟩ := exists_run_of_nextOk hbecomes hnext
    obtain ⟨r, body, hloop, hbody⟩ := hrun (p ++ more).length
    refine ⟨more, (parse_isOk_iff hfirst hfit hreq more).mpr ⟨r, body, ?_, hbody⟩⟩
    rwa [headerLoop_of_read hread _ _ [] more hlen, List.nil_append]

end Missing

/-- Only the bytes of the body are missing: the request can be accepted. -/
lemma exists_body_of_mismatch {headers : List (List UInt8 × List UInt8)} {rest : List UInt8}
    (h : parseBody headers rest = .error paiErrMismatch) :
    ∃ q body, parseBody headers (rest ++ q) = .ok body := by
  unfold parseBody at h ⊢
  cases hcl : paiHttpHeader headers contentLength with
  | none =>
    rw [hcl] at h
    dsimp only at h
    split_ifs at h
    exact absurd (Except.error.inj h) (by decide)
  | some cl =>
    rw [hcl] at h
    dsimp only at h ⊢
    cases hlen : parseU64 cl with
    | none =>
      rw [hlen] at h
      exact absurd (Except.error.inj h) (by decide)
    | some n =>
      dsimp only
      refine ⟨List.replicate n 0, (rest ++ List.replicate n 0).take n, ?_⟩
      rw [if_neg (not_lt.mpr (le_of_parseU64 hlen)), if_neg]
      rw [List.length_append, List.length_replicate]
      omega

/-- A request whose body is missing can be accepted. -/
lemma completable_body {p first data : List UInt8} {headers : List (List UInt8 × List UInt8)}
    {rest : List UInt8} (hfirst : IsLine p first data) (hfit : first.length ≤ httpLineMax)
    (hreq : (parseRequestLine (cString first)).isSome)
    (hloop : headerLoop p.length paiHttpMaxHeaders data [] = .ok (headers, rest))
    (hbody : parseBody headers rest = .error paiErrMismatch) :
    ∃ q req, paiHttpParseRequest (p ++ q) = .ok req := by
  obtain ⟨q, body, hq⟩ := exists_body_of_mismatch hbody
  have hlen : p.length ≤ data.length + 1024 :=
    length_of_nextLine (nextLine_eq_some_iff.mpr ⟨first, rfl, hfirst, hfit⟩)
  refine ⟨q, (parse_isOk_iff hfirst hfit hreq q).mpr ⟨(headers, rest ++ q), body, ?_, hq⟩⟩
  rw [List.length_append, headerLoop_append (by change _ + 32 * 1024 ≤ _; omega)
    (by rw [hloop]; exact fun h => (nomatch h)) q, hloop]
  rfl

/-- **Incomplete requests.**  While `pai_http_parse_request` asks for more bytes, some continuation is
accepted exactly when the line that the bytes stop in, if they stop in one, is open. -/
theorem mismatch_completable_iff (p : List UInt8) :
    (paiHttpParseRequest p = .error paiErrMismatch → ∃ q req, paiHttpParseRequest (p ++ q) = .ok req) ↔
      (p.length < paiHttpMaxHeaderBytes → StillOpen p) := by
  constructor
  · intro h hshort
    have hwait : lineMissing p.length = paiErrMismatch := if_neg (not_le.mpr hshort)
    constructor
    · intro hno
      refine (completable_first_iff hno).mp (h ?_)
      rw [paiHttpParseRequest, nextLine_eq_none_iff.mpr hno]
      exact congrArg Except.error hwait
    · intro first data headers tail hfirst hfit hreq hread hlen hno
      refine (completable_header_iff hfirst hfit hreq hread hlen hno).mp (h ?_)
      obtain ⟨req, hreq⟩ := Option.isSome_iff_exists.mp hreq
      have hloop := headerLoop_of_read hread p.length paiHttpMaxHeaders [] [] hlen
      rw [List.append_nil, List.append_nil, headerLoop, headerLoop, nextLine_eq_none_iff.mpr hno] at hloop
      rw [paiHttpParseRequest, nextLine_eq_some_iff.mpr ⟨first, rfl, hfirst, hfit⟩]
      dsimp only at hloop ⊢
      rw [hreq, headerLoop]
      dsimp only
      rw [hloop, hwait]
  · intro h hwait
    have hmis := hwait
    rw [paiHttpParseRequest] at hmis
    cases hline : nextLine p with
    | none =>
      rw [hline] at hmis
      have hshort : p.length < paiHttpMaxHeaderBytes := by
        by_contra hle
        rw [lineMissing, if_pos (not_lt.mp hle)] at hmis
        exact absurd (Except.error.inj hmis) (by decide)
      have hno := nextLine_eq_none_iff.mp hline
      exact (completable_first_iff hno).mpr ((h hshort).1 hno)
    | some r =>
      obtain ⟨line, data⟩ := r
      obtain ⟨first, rfl, hfirst, hfit⟩ := nextLine_eq_some_iff.mp hline
      rw [hline] at hmis
      dsimp only at hmis
      cases hreq : parseRequestLine (cString first) with
      | none =>
        rw [hreq] at hmis
        exact absurd (Except.error.inj hmis) (by decide)
      | some req =>
        have hsome : (parseRequestLine (cString first)).isSome := Option.isSome_iff_exists.mpr ⟨req, hreq⟩
        rw [hreq] at hmis
        dsimp only at hmis
        cases hloop : headerLoop p.length paiHttpMaxHeaders data [] with
        | error st =>
          rw [hloop] at hmis
          obtain rfl := Except.error.inj hmis
          have hshort := headerLoop_mismatch hloop
          obtain ⟨headers, tail, hread, hlen, hno⟩ := read_of_mismatch hloop
          exact (completable_header_iff hfirst hfit hsome hread hlen hno).mpr
            ((h hshort).2 first data headers tail hfirst hfit hsome hread hlen hno)
        | ok r =>
          obtain ⟨headers, rest⟩ := r
          rw [hloop] at hmis
          dsimp only at hmis
          cases hbody : parseBody headers rest with
          | error st =>
            rw [hbody] at hmis
            obtain rfl := Except.error.inj hmis
            exact completable_body hfirst hfit hsome hloop hbody
          | ok body =>
            rw [hbody] at hmis
            cases hmis

/-- Sixteen letters, which are too long for a method. -/
def longMethod : List UInt8 := List.replicate 16 65

/-- More bytes are asked for behind a method that is too long, and no request follows. -/
theorem longMethod_never_accepted :
    paiHttpParseRequest longMethod = .error paiErrMismatch ∧
      ∀ q req, paiHttpParseRequest (longMethod ++ q) ≠ .ok req := by
  refine ⟨by decide +kernel, fun q req hok => ?_⟩
  have hno : NoLine longMethod := nextLine_eq_none_iff.mp (by decide +kernel)
  obtain ⟨line, hstanding, hline⟩ | ⟨-, hstart⟩ := (completable_first_iff hno).mp ⟨q, req, hok⟩
  · have hself : line = longMethod := by
      have hmem : standing longMethod = [longMethod] := by decide +kernel
      rw [hmem] at hstanding
      exact List.mem_singleton.mp hstanding
    rw [hself, show parseRequestLine (cString longMethod) = none by decide +kernel] at hline
    cases hline
  · have hsplit : splitChar 32 longMethod = none := by decide +kernel
    rw [RequestStart, hsplit] at hstart
    exact absurd hstart (by decide)

end Prospero
