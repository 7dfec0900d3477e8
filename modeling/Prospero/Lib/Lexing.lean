import Mathlib.Data.List.TakeWhile
import Mathlib.Data.Nat.Digits.Lemmas
import Mathlib.Tactic.IntervalCases

/-!
# Words, pieces and decimal numbers of a line

A line of text is read as words between blanks, as pieces between separators, and as decimal numbers.

### Outline
* `chunks` cuts a text at a separator; the separator behind the last piece may be missing.  It undoes
  `joined` and `terminated` (`chunks_joined`, `chunks_terminated`), and the pieces of a beginning of the
  text are beginnings of its pieces (`chunks_starts`).
* `nextWord` and `words` read the words of a line; `words_spaced` reads a list of words back.
* `number?` is the exact value of a decimal number with an optional sign; `number_decimal` reads a
  printed number back, and `number_prefix` is the value of its beginning.
-/

namespace Lexing

/-! ### Pieces between separators -/

section Chunks

variable {α : Type}

/-- Pieces with a separator behind each. -/
def terminated (sep : α) (pieces : List (List α)) : List α := pieces.flatMap (· ++ [sep])

/-- Pieces with a separator between any two. -/
def joined (sep : α) : List (List α) → List α
  | [] => []
  | [piece] => piece
  | piece :: pieces => piece ++ sep :: joined sep pieces

/-- Each piece of the first list is a beginning of the piece at its place in the second. -/
inductive Starts : List (List α) → List (List α) → Prop
  | nil (pieces : List (List α)) : Starts [] pieces
  | cons {short piece : List α} {shorts pieces : List (List α)} (head : short <+: piece)
      (tail : Starts shorts pieces) : Starts (short :: shorts) (piece :: pieces)

lemma Starts.exists_start {shorts pieces : List (List α)} (h : Starts shorts pieces) {short : List α}
    (hmem : short ∈ shorts) : ∃ piece ∈ pieces, short <+: piece := by
  induction h with
  | nil => simp at hmem
  | cons head _ ih =>
    rcases List.mem_cons.mp hmem with rfl | hmem
    · exact ⟨_, List.mem_cons_self, head⟩
    · obtain ⟨piece, hpiece, hprefix⟩ := ih hmem
      exact ⟨piece, List.mem_cons_of_mem _ hpiece, hprefix⟩

variable [DecidableEq α]

/-- The pieces of a text between separators.  There is no piece behind a last separator. -/
def chunks (sep : α) : List α → List (List α)
  | [] => []
  | b :: text =>
    if b = sep then [] :: chunks sep text
    else match chunks sep text with
      | [] => [[b]]
      | piece :: pieces => (b :: piece) :: pieces

@[simp] lemma chunks_nil (sep : α) : chunks sep [] = [] := rfl

@[simp] lemma chunks_sep (sep : α) (text : List α) : chunks sep (sep :: text) = [] :: chunks sep text := by
  simp [chunks]

/-- Only the empty text has no piece. -/
lemma chunks_eq_nil_iff {sep : α} {text : List α} : chunks sep text = [] ↔ text = [] := by
  cases text with
  | nil => simp
  | cons b text =>
    simp only [chunks, reduceCtorEq, iff_false]
    split_ifs
    · simp
    · split <;> simp

/-- A piece and the separator behind it. -/
lemma chunks_append_sep {sep : α} {piece : List α} (h : sep ∉ piece) (text : List α) :
    chunks sep (piece ++ sep :: text) = piece :: chunks sep text := by
  induction piece with
  | nil => simp
  | cons b piece ih =>
    obtain ⟨hb, hrest⟩ := not_or.mp (List.mem_cons.not.mp h)
    rw [List.cons_append, chunks, if_neg (Ne.symm hb), ih hrest]

/-- One piece. -/
lemma chunks_single {sep : α} {piece : List α} (h : sep ∉ piece) (hne : piece ≠ []) :
    chunks sep piece = [piece] := by
  induction piece with
  | nil => exact absurd rfl hne
  | cons b piece ih =>
    obtain ⟨hb, hrest⟩ := not_or.mp (List.mem_cons.not.mp h)
    rw [chunks, if_neg (Ne.symm hb)]
    rcases eq_or_ne piece [] with rfl | hpiece
    · rfl
    · rw [ih hrest hpiece]

/-- The pieces of a terminated list are the list. -/
lemma chunks_terminated {sep : α} {pieces : List (List α)} (h : ∀ piece ∈ pieces, sep ∉ piece) :
    chunks sep (terminated sep pieces) = pieces := by
  induction pieces with
  | nil => rfl
  | cons piece pieces ih =>
    have hrest := ih fun other hother => h other (List.mem_cons_of_mem _ hother)
    rw [terminated, List.flatMap_cons, List.append_assoc, List.singleton_append,
      chunks_append_sep (h piece List.mem_cons_self)]
    exact congrArg (piece :: ·) hrest

/-- The pieces of a joined list are the list. -/
lemma chunks_joined {sep : α} {pieces : List (List α)} (h : ∀ piece ∈ pieces, sep ∉ piece)
    (hne : ∀ piece ∈ pieces, piece ≠ []) : chunks sep (joined sep pieces) = pieces := by
  induction pieces with
  | nil => rfl
  | cons piece pieces ih =>
    have hpiece := h piece List.mem_cons_self
    cases pieces with
    | nil => exact chunks_single hpiece (hne piece List.mem_cons_self)
    | cons next pieces =>
      rw [joined, chunks_append_sep hpiece, ih (fun other hother => h other (List.mem_cons_of_mem _ hother))
        (fun other hother => hne other (List.mem_cons_of_mem _ hother))]
      simp

/-- No piece holds the separator. -/
lemma not_mem_of_mem_chunks {sep : α} {text piece : List α} (h : piece ∈ chunks sep text) :
    sep ∉ piece := by
  induction text generalizing piece with
  | nil => simp at h
  | cons b text ih =>
    rw [chunks] at h
    split_ifs at h with hb
    · rcases List.mem_cons.mp h with rfl | h
      · simp
      · exact ih h
    · split at h
      next => simp_all [eq_comm]
      next first pieces hchunks =>
        rw [hchunks] at ih
        rcases List.mem_cons.mp h with rfl | h
        · simp [Ne.symm hb, ih List.mem_cons_self]
        · exact ih (List.mem_cons_of_mem _ h)

/-- What is in a piece is in the text. -/
lemma mem_of_mem_chunks {sep b : α} {text piece : List α} (h : piece ∈ chunks sep text) (hb : b ∈ piece) :
    b ∈ text := by
  induction text generalizing piece with
  | nil => simp at h
  | cons c text ih =>
    rw [chunks] at h
    split_ifs at h with hc
    · rcases List.mem_cons.mp h with rfl | h
      · simp at hb
      · exact List.mem_cons_of_mem _ (ih h hb)
    · split at h
      next => simp_all
      next first pieces hchunks =>
        rw [hchunks] at ih
        rcases List.mem_cons.mp h with rfl | h
        · rcases List.mem_cons.mp hb with rfl | hb
          · exact List.mem_cons_self
          · exact List.mem_cons_of_mem _ (ih List.mem_cons_self hb)
        · exact List.mem_cons_of_mem _ (ih (List.mem_cons_of_mem _ h) hb)

/-- The pieces of a beginning of the text are beginnings of its pieces. -/
lemma chunks_starts {sep : α} {short text : List α} (h : short <+: text) :
    Starts (chunks sep short) (chunks sep text) := by
  induction text generalizing short with
  | nil =>
    rw [List.prefix_nil.mp h]
    exact .nil _
  | cons b text ih =>
    cases short with
    | nil => exact .nil _
    | cons c short =>
      obtain ⟨rfl, hrest⟩ := List.cons_prefix_cons.mp h
      have hstarts := ih hrest
      rw [chunks, chunks]
      split_ifs
      · exact .cons List.prefix_rfl hstarts
      · generalize chunks sep text = pieces at hstarts ⊢
        generalize chunks sep short = shorts at hstarts ⊢
        cases hstarts with
        | nil =>
          cases pieces with
          | nil => exact .cons List.prefix_rfl (.nil _)
          | cons piece pieces => exact .cons (List.prefix_append [c] piece) (.nil _)
        | cons head tail => exact .cons (List.cons_prefix_cons.mpr ⟨rfl, head⟩) tail

/-- A byte behind the text is a byte behind its last piece, or a piece of its own. -/
lemma chunks_concat_starts {sep b : α} (h : b ≠ sep) (text : List α) (i : ℕ) {piece : List α}
    (hpiece : (chunks sep (text ++ [b]))[i]? = some piece) :
    piece <+: (chunks sep text)[i]?.getD [] ++ [b] := by
  induction text generalizing i piece with
  | nil =>
    have hone : chunks sep ([] ++ [b]) = [[b]] := by simp [chunks, h]
    rw [hone] at hpiece
    cases i with
    | zero => cases hpiece; simp
    | succ i => simp at hpiece
  | cons c text ih =>
    rw [List.cons_append, chunks] at hpiece
    rw [chunks]
    split_ifs at hpiece ⊢ with hc
    · cases i with
      | zero => cases hpiece; simp
      | succ i => simpa using ih i (by simpa using hpiece)
    · cases hmore : chunks sep (text ++ [b]) with
      | nil => simp [chunks_eq_nil_iff] at hmore
      | cons first rest =>
        rw [hmore] at hpiece ih
        have hfirst := ih 0 rfl
        cases i with
        | zero =>
          cases hpiece
          cases htext : chunks sep text <;> rw [htext] at hfirst <;> simpa using hfirst
        | succ i =>
          have hrest := ih (i + 1) hpiece
          cases htext : chunks sep text <;> rw [htext] at hrest <;> simpa using hrest

/-- The pieces of what stands before a byte are, up to that byte, pieces of the text. -/
lemma exists_chunk_of_start {sep b : α} (h : b ≠ sep) {short text piece : List α}
    (hshort : short <+: text ++ [b]) (hpiece : piece ∈ chunks sep short) :
    ∃ full, (full = [] ∨ full ∈ chunks sep text) ∧ piece <+: full ++ [b] := by
  obtain ⟨long, hlong, hprefix⟩ := (chunks_starts hshort).exists_start hpiece
  obtain ⟨i, hi⟩ := List.mem_iff_getElem?.mp hlong
  refine ⟨(chunks sep text)[i]?.getD [], ?_, hprefix.trans (chunks_concat_starts h text i hi)⟩
  cases hfull : (chunks sep text)[i]? with
  | none => exact .inl rfl
  | some full => exact .inr (List.mem_of_getElem? hfull)

end Chunks

/-! ### Words between blanks -/

section Words

variable {α : Type} (blank : α → Bool)

/-- The first word of a line and what stands behind it. -/
def nextWord (line : List α) : Option (List α × List α) :=
  match line.dropWhile blank with
  | [] => none
  | b :: text => some ((b :: text).takeWhile (! blank ·), (b :: text).dropWhile (! blank ·))

/-- The words of a line. -/
def words (line : List α) : List (List α) := (line.splitOnP blank).filter (! ·.isEmpty)

variable {blank}

lemma words_nil : words blank [] = [] := by simp [words]

/-- A blank in front changes nothing. -/
lemma words_blank {b : α} (h : blank b) (line : List α) : words blank (b :: line) = words blank line := by
  simp [words, List.splitOnP_cons_eq_if_modifyHead, h]

/-- Blanks in front change nothing. -/
lemma words_dropWhile (line : List α) : words blank (line.dropWhile blank) = words blank line := by
  induction line with
  | nil => rfl
  | cons b line ih =>
    rw [List.dropWhile_cons]
    split_ifs with hb
    · rw [ih, words_blank hb]
    · rfl

/-- A word and the rest of its line, which a blank opens. -/
lemma words_append {word rest : List α} (hne : word ≠ []) (h : ∀ b ∈ word, blank b = false)
    (hrest : ∀ b ∈ rest.head?, blank b) : words blank (word ++ rest) = word :: words blank rest := by
  have hword : (! word.isEmpty) = true := by simpa using hne
  cases rest with
  | nil =>
    rw [List.append_nil, words_nil, words, List.splitOnP_eq_singleton h]
    exact List.filter_cons_of_pos hword
  | cons b rest =>
    have hb : blank b := hrest b (by simp)
    rw [words_blank hb, words, List.splitOnP_append_cons_of_forall_mem h b hb]
    exact List.filter_cons_of_pos hword

/-- A line without a word. -/
lemma words_of_nextWord_none {line : List α} (h : nextWord blank line = none) : words blank line = [] := by
  unfold nextWord at h
  split at h
  next hdrop => rw [← words_dropWhile, hdrop, words_nil]
  next => cases h

/-- What is left over when a test stopped holding. -/
lemma head_dropWhile {test : α → Bool} {line : List α} {b : α} (h : b ∈ (line.dropWhile test).head?) :
    test b = false := by
  induction line with
  | nil => simp at h
  | cons c line ih =>
    rw [List.dropWhile_cons] at h
    split_ifs at h with hc
    · exact ih h
    · cases h
      simpa using hc

/-- The first word and the words of the rest. -/
lemma words_of_nextWord {line word rest : List α} (h : nextWord blank line = some (word, rest)) :
    words blank line = word :: words blank rest := by
  unfold nextWord at h
  split at h
  next => cases h
  next b text hdrop =>
    cases h
    have hb : blank b = false := head_dropWhile (by rw [hdrop]; rfl)
    rw [← words_dropWhile, hdrop]
    conv_lhs => rw [← List.takeWhile_append_dropWhile (p := (! blank ·)) (l := b :: text)]
    refine words_append ?_ (fun c hc => by simpa using List.mem_takeWhile_imp hc) fun c hc => ?_
    · simp [hb]
    · simpa using head_dropWhile hc

/-- The rest of a line is a part of it. -/
lemma mem_of_nextWord {line word rest : List α} (h : nextWord blank line = some (word, rest)) {b : α} :
    b ∈ word ∨ b ∈ rest → b ∈ line := by
  unfold nextWord at h
  split at h
  next => cases h
  next c text hdrop =>
    cases h
    have hsub : ∀ b ∈ c :: text, b ∈ line := fun b hb =>
      (List.dropWhile_suffix (l := line) blank).subset (by rwa [hdrop])
    rintro (hb | hb)
    · exact hsub b ((List.takeWhile_prefix _).subset hb)
    · exact hsub b ((List.dropWhile_suffix _).subset hb)

/-- A word takes at least a byte of its line. -/
lemma length_of_nextWord {line word rest : List α} (h : nextWord blank line = some (word, rest)) :
    rest.length < line.length := by
  unfold nextWord at h
  split at h
  next => cases h
  next b text hdrop =>
    cases h
    have hb : blank b = false := head_dropWhile (by rw [hdrop]; rfl)
    have hline := (List.dropWhile_suffix (l := line) blank).length_le
    have hrest := (List.dropWhile_suffix (l := text) (! blank ·)).length_le
    rw [hdrop, List.length_cons] at hline
    rw [List.dropWhile_cons_of_pos (by simp [hb])]
    omega

/-- A line has no more words than bytes. -/
lemma length_words_le (line : List α) : (words blank line).length ≤ line.length := by
  generalize hn : line.length = n
  induction n using Nat.strong_induction_on generalizing line with
  | _ n ih =>
    cases hnext : nextWord blank line with
    | none => simp [words_of_nextWord_none hnext]
    | some next =>
      obtain ⟨word, rest⟩ := next
      have hlt := length_of_nextWord hnext
      have hrest := ih rest.length (by omega) rest rfl
      rw [words_of_nextWord hnext, List.length_cons]
      omega

lemma nextWord_of_words_nil {line : List α} (h : words blank line = []) : nextWord blank line = none := by
  cases hnext : nextWord blank line with
  | none => rfl
  | some next =>
    obtain ⟨word, rest⟩ := next
    rw [words_of_nextWord hnext] at h
    cases h

/-- The first of the words of a line. -/
lemma nextWord_of_words {line word : List α} {more : List (List α)} (h : words blank line = word :: more) :
    ∃ rest, nextWord blank line = some (word, rest) ∧ words blank rest = more := by
  cases hnext : nextWord blank line with
  | none =>
    rw [words_of_nextWord_none hnext] at h
    cases h
  | some next =>
    obtain ⟨first, rest⟩ := next
    rw [words_of_nextWord hnext] at h
    cases h
    exact ⟨rest, rfl, rfl⟩

end Words

/-! ### Decimal numbers -/

/-- A decimal digit. -/
def isDigit (b : UInt8) : Bool := 48 ≤ b && b ≤ 57

/-- The value of a row of digits. -/
def digitsValue (digits : List UInt8) : ℕ := digits.foldl (fun value b => value * 10 + (b.toNat - 48)) 0

/-- An optional sign: whether it is a minus, and what stands behind it. -/
def sign : List UInt8 → Bool × List UInt8
  | 43 :: text => (false, text)
  | 45 :: text => (true, text)
  | text => (false, text)

/-- The exact value of a decimal number with an optional sign, if it is a natural number below a limit. -/
def number? (limit : ℕ) (text : List UInt8) : Option ℕ :=
  let (negative, digits) := sign text
  if digits ≠ [] ∧ digits.all isDigit ∧ digitsValue digits < limit ∧
      (negative → digitsValue digits = 0) then some (digitsValue digits)
  else none

/-- A decimal digit of a value. -/
def digit (d : ℕ) : UInt8 := UInt8.ofNat (48 + d)

/-- The decimal number of a value. -/
def decimal (n : ℕ) : List UInt8 := if n = 0 then [48] else ((Nat.digits 10 n).map digit).reverse

lemma isDigit_digit {d : ℕ} (h : d < 10) : isDigit (digit d) := by
  unfold digit
  interval_cases d <;> decide

lemma toNat_digit {d : ℕ} (h : d < 10) : (digit d).toNat - 48 = d := by
  unfold digit
  interval_cases d <;> rfl

lemma decimal_of_lt {n : ℕ} (h : n < 10) : decimal n = [digit n] := by
  unfold decimal
  split_ifs with hzero
  · rw [hzero]
    rfl
  · rw [Nat.digits_of_lt 10 n hzero h]
    rfl

/-- One digit more. -/
lemma decimal_step {n : ℕ} (h : 10 ≤ n) : decimal n = decimal (n / 10) ++ [digit (n % 10)] := by
  have hdiv : n / 10 ≠ 0 := by omega
  rw [decimal, if_neg (by omega), decimal, if_neg hdiv, Nat.digits_def' (by decide) (by omega)]
  simp

/-- A printed number is made of digits. -/
lemma isDigit_decimal (n : ℕ) : ∀ b ∈ decimal n, isDigit b := by
  induction n using Nat.strong_induction_on with
  | _ n ih =>
    by_cases hn : n < 10
    · simp [decimal_of_lt hn, isDigit_digit hn]
    · have hlast : n % 10 < 10 := Nat.mod_lt _ (by decide)
      intro b hb
      rw [decimal_step (by omega), List.mem_append, List.mem_singleton] at hb
      rcases hb with hb | rfl
      · exact ih (n / 10) (by omega) b hb
      · exact isDigit_digit hlast

lemma decimal_ne_nil (n : ℕ) : decimal n ≠ [] := by
  by_cases hn : n < 10
  · simp [decimal_of_lt hn]
  · simp [decimal_step (show 10 ≤ n by omega)]

/-- A printed number has its value. -/
lemma digitsValue_decimal (n : ℕ) : digitsValue (decimal n) = n := by
  induction n using Nat.strong_induction_on with
  | _ n ih =>
    by_cases hn : n < 10
    · simp [decimal_of_lt hn, digitsValue, toNat_digit hn]
    · have hlast : n % 10 < 10 := Nat.mod_lt _ (by decide)
      have hmore := ih (n / 10) (by omega)
      rw [digitsValue] at hmore
      rw [decimal_step (by omega), digitsValue, List.foldl_append, hmore, List.foldl_cons, List.foldl_nil,
        toNat_digit hlast]
      omega

/-- A row that opens with a digit has no sign. -/
lemma sign_of_isDigit {b : UInt8} (h : isDigit b) (text : List UInt8) :
    sign (b :: text) = (false, b :: text) := by
  have hplus : b ≠ 43 := by rintro rfl; exact absurd h (by decide)
  have hminus : b ≠ 45 := by rintro rfl; exact absurd h (by decide)
  unfold sign
  split
  next heq => exact absurd (List.cons.inj heq).1 hplus
  next heq => exact absurd (List.cons.inj heq).1 hminus
  next => rfl

/-- A printed number reads back. -/
lemma number_decimal {limit n : ℕ} (h : n < limit) : number? limit (decimal n) = some n := by
  have hsign : sign (decimal n) = (false, decimal n) := by
    obtain ⟨b, text, htext⟩ := List.exists_cons_of_ne_nil (decimal_ne_nil n)
    rw [htext]
    exact sign_of_isDigit (isDigit_decimal n b (by simp [htext])) text
  have hall : (decimal n).all isDigit = true := List.all_eq_true.mpr (isDigit_decimal n)
  simp only [number?, hsign, digitsValue_decimal]
  rw [if_pos ⟨decimal_ne_nil n, hall, h, by simp⟩]

/-- More digits, no smaller value. -/
lemma digitsValue_le_append (digits more : List UInt8) :
    digitsValue digits ≤ digitsValue (digits ++ more) := by
  rw [digitsValue, digitsValue, List.foldl_append]
  generalize digits.foldl _ 0 = value
  induction more generalizing value with
  | nil => exact Nat.le_refl _
  | cons b more ih =>
    have hstep : value ≤ value * 10 + (b.toNat - 48) := by omega
    exact hstep.trans (ih _)

end Lexing
