import Mathlib.Data.List.Pairwise
import Mathlib.Data.List.TakeWhile
import Mathlib.Tactic.Common
import Mathlib.Tactic.Linarith
import Prospero.Status

/-!
# Tokenizer

The byte-level BPE tokenizer shipped inside a container (`models/tokenizer.c`): an explicit
vocabulary, rank-ordered merge rules and a byte-fallback range above every explicit id.

An id has a meaning, the bytes it stands for (`idText`), and a list of ids spells the concatenation
of these (`spelled`).  Greedy matching spells its input, a merge does not change what is spelled,
and decoding returns what is spelled; `tokenizer_lossless` puts the three together.
-/

namespace Prospero

/-! ## Vocabulary -/

/-- `PAI_TOK_MAX_TOKENS`. -/
abbrev paiTokMaxTokens : ℕ := 65536
/-- `PAI_TOK_MAX_MERGES`. -/
abbrev paiTokMaxMerges : ℕ := 8192
/-- `PAI_TOK_MAX_TOKEN_LEN`. -/
abbrev paiTokMaxTokenLen : ℕ := 255
/-- `PAI_TOK_MAX_INPUT`. -/
abbrev paiTokMaxInput : ℕ := 65536

/-- The C string at the start of a character array: everything before the first NUL. -/
def cString (text : List UInt8) : List UInt8 := text.takeWhile (· ≠ 0)

/-- A vocabulary entry: an id and its text, stored as a C string. -/
structure Token where
  /-- `token_ids[i]`. -/
  id : UInt32
  /-- `tokens[i]`, without the terminator. -/
  text : List UInt8
  /-- The text is not empty. -/
  nonempty : 0 < text.length
  /-- The text fits its row. -/
  short : text.length ≤ paiTokMaxTokenLen
  /-- The text has no NUL inside. -/
  no_nul : 0 ∉ text
deriving DecidableEq

/-- `struct pai_tok_merge`. -/
structure Merge where
  /-- First id of the pair. -/
  left : UInt32
  /-- Second id of the pair. -/
  right : UInt32
  /-- Id that replaces the pair. -/
  result : UInt32
deriving DecidableEq

/-- `pai_tok_t`; the counts are the lengths of the lists. -/
structure Tok where
  /-- Vocabulary in insertion order. -/
  tokens : List Token
  /-- Merge rules in rank order. -/
  merges : List Merge
  /-- Ids from here on are single bytes. -/
  byteFallbackBase : UInt32
  /-- Highest explicit id. -/
  maxId : UInt32

/-- `pai_tok_init`. -/
def paiTokInit : Tok := ⟨[], [], 256, 0⟩

/-- A C string has no NUL inside. -/
lemma not_mem_take_cString (text : List UInt8) (n : ℕ) : 0 ∉ (cString text).take n := by
  intro h
  have hmem : 0 ∈ text.takeWhile (· ≠ 0) := List.mem_of_mem_take h
  have hne := List.mem_takeWhile_imp hmem
  exact absurd rfl (of_decide_eq_true hne)

/-- The bytes `memcpy` copies for a length cut to 32 bits. -/
lemma length_take_mod (text : List UInt8) :
    (text.take (text.length % 0x100000000)).length = text.length % 0x100000000 :=
  List.length_take_of_le (Nat.mod_le _ _)

/-- The update of `max_id` when an id is registered. -/
def raiseTo (maxId id : UInt32) : UInt32 := if maxId < id then id else maxId

/-- `pai_tok_add_token`. -/
def paiTokAddToken (tok : Tok) (id : UInt32) (text : List UInt8) : Tok × PaiStatus :=
  let len := (cString text).length % 0x100000000
  have hlen : ((cString text).take len).length = len := length_take_mod (cString text)
  if h : len = 0 ∨ paiTokMaxTokenLen < len then (tok, paiErrInvalidArg)
  else
    if tok.tokens.any (fun t => t.id == id) then (tok, paiErrInvalidArg)
    else if paiTokMaxTokens ≤ tok.tokens.length then (tok, paiErrNomem)
    else
      let token : Token :=
        ⟨id, (cString text).take len, by omega, by omega, not_mem_take_cString text len⟩
      ({ tok with
        tokens := tok.tokens ++ [token]
        maxId := raiseTo tok.maxId id }, paiOk)

/-- `pai_tok_add_merge`. -/
def paiTokAddMerge (tok : Tok) (left right result : UInt32) : Tok × PaiStatus :=
  let haveLeft := tok.tokens.any fun t => t.id == left
  let haveRight := tok.tokens.any fun t => t.id == right
  if !haveLeft || !haveRight then (tok, paiErrInvalidArg)
  else if paiTokMaxMerges ≤ tok.merges.length then (tok, paiErrNomem)
  else
    ({ tok with
      merges := tok.merges ++ [⟨left, right, result⟩]
      maxId := raiseTo tok.maxId result }, paiOk)

/-- `pai_tok_finalize`. -/
def paiTokFinalize (tok : Tok) : Tok :=
  { tok with byteFallbackBase := if 256 ≤ tok.maxId then tok.maxId + 1 else 256 }

/-- A call that builds a tokenizer. -/
inductive TokCall where
  /-- `pai_tok_add_token`. -/
  | addToken (id : UInt32) (text : List UInt8)
  /-- `pai_tok_add_merge`. -/
  | addMerge (left right result : UInt32)
  /-- `pai_tok_finalize`. -/
  | finalize

/-- One building call; a call that returns an error changes nothing. -/
def Tok.step (tok : Tok) : TokCall → Tok
  | .addToken id text => (paiTokAddToken tok id text).1
  | .addMerge left right result => (paiTokAddMerge tok left right result).1
  | .finalize => paiTokFinalize tok

/-- The tokenizer a sequence of calls leaves, finalized at the end. -/
def Tok.build (calls : List TokCall) : Tok := paiTokFinalize (calls.foldl Tok.step paiTokInit)

/-! ## Encoding -/

/-- The id is one of the 256 byte-fallback ids. -/
def Tok.isFallback (tok : Tok) (id : UInt32) : Bool :=
  tok.byteFallbackBase ≤ id && id < tok.byteFallbackBase + 256

/-- `pai_tok_id_valid`. -/
def paiTokIdValid (tok : Tok) (id : UInt32) : Bool :=
  tok.tokens.any (fun t => t.id == id) || tok.isFallback id

/-- One round of `match_prefix`: `t` replaces the best match so far when it is a longer one. -/
def betterMatch (text : List UInt8) (best : Option Token) (t : Token) : Option Token :=
  let bestLen := (best.map fun b => b.text.length).getD 0
  if text.length < t.text.length ∨ t.text.length ≤ bestLen then best
  else if text.take t.text.length = t.text then some t
  else best

/-- `match_prefix`: the longest vocabulary entry the text starts with, the first one on ties. -/
def matchPrefix (tok : Tok) (text : List UInt8) : Option Token :=
  tok.tokens.foldl (betterMatch text) none

/-- The matching loop of `pai_tok_encode`.  Each round consumes at least one byte, so as many rounds
as there are bytes suffice. -/
def greedy (tok : Tok) : ℕ → List UInt8 → List UInt32
  | 0, _ => []
  | _ + 1, [] => []
  | fuel + 1, b :: rest =>
    match matchPrefix tok (b :: rest) with
    | some t => t.id :: greedy tok fuel ((b :: rest).drop t.text.length)
    | none => (tok.byteFallbackBase + b.toUInt32) :: greedy tok fuel rest

/-- One pass over the ids: the first adjacent pair of the rule is replaced and the rest moves up;
`none` when no pair is left. -/
def mergeFirst (m : Merge) : List UInt32 → Option (List UInt32)
  | a :: b :: rest =>
    if a = m.left ∧ b = m.right then some (m.result :: rest)
    else (mergeFirst m (b :: rest)).map (a :: ·)
  | _ => none

/-- The `do ... while (applied)` loop of one rule.  Each pass that applies shortens the list. -/
def mergeAll (m : Merge) : ℕ → List UInt32 → List UInt32
  | 0, ids => ids
  | fuel + 1, ids =>
    match mergeFirst m ids with
    | some ids' => mergeAll m fuel ids'
    | none => ids

/-- `pai_tok_encode`. -/
def paiTokEncode (tok : Tok) (text : List UInt8) (cap : ℕ) : Except PaiStatus (List UInt32) :=
  if paiTokMaxInput < text.length then .error paiErrInvalidArg
  else
    let ids := greedy tok text.length text
    let ids := tok.merges.foldl (fun ids m => mergeAll m ids.length ids) ids
    if cap < ids.length then .error paiErrNomem
    else .ok ids

/-- The ids fit the caller's buffer. -/
lemma length_le_of_paiTokEncode {tok : Tok} {text : List UInt8} {cap : ℕ} {ids : List UInt32}
    (h : paiTokEncode tok text cap = .ok ids) : ids.length ≤ cap := by
  unfold paiTokEncode at h
  split_ifs at h with hlong
  simp only at h
  split_ifs at h with hcap
  cases h
  omega

/-! ## Decoding -/

/-- The loop of `pai_tok_decode`; `out` holds the bytes written so far. -/
def decodeLoop (tok : Tok) (cap : ℕ) : List UInt8 → List UInt32 → Except PaiStatus (List UInt8)
  | out, [] => .ok out
  | out, id :: ids =>
    if tok.isFallback id then
      if cap ≤ (out.length + 1) % 0x100000000 then .error paiErrNomem
      else decodeLoop tok cap (out ++ [(id - tok.byteFallbackBase).toUInt8]) ids
    else
      match tok.tokens.find? fun t => t.id == id with
      | none => .error paiErrMismatch
      | some t =>
        if cap ≤ (out.length + t.text.length) % 0x100000000 then .error paiErrNomem
        else decodeLoop tok cap (out ++ t.text) ids

/-- `pai_tok_decode`; the bytes before the terminating NUL. -/
def paiTokDecode (tok : Tok) (ids : List UInt32) (cap : ℕ) : Except PaiStatus (List UInt8) :=
  if cap = 0 then .error paiErrInvalidArg else decodeLoop tok cap [] ids

/-! ## What a building call keeps -/

/-- What every sequence of building calls keeps. -/
structure TokInv (tok : Tok) : Prop where
  /-- No id is used twice. -/
  nodup : tok.tokens.Pairwise fun a b => a.id ≠ b.id
  /-- `max_id` bounds the vocabulary. -/
  le_maxId : ∀ t ∈ tok.tokens, t.id ≤ tok.maxId
  /-- `max_id` is zero, an id of the vocabulary or the result of a merge. -/
  maxId_mem : tok.maxId = 0 ∨ (∃ t ∈ tok.tokens, t.id = tok.maxId) ∨
    ∃ m ∈ tok.merges, m.result = tok.maxId

/-- An accepted token is new, and everything else stays. -/
lemma paiTokAddToken_cases (tok : Tok) (id : UInt32) (text : List UInt8) :
    (paiTokAddToken tok id text).1 = tok ∨
      ∃ t : Token, t.id = id ∧ (∀ u ∈ tok.tokens, u.id ≠ id) ∧
        (paiTokAddToken tok id text).1 = { tok with
          tokens := tok.tokens ++ [t]
          maxId := raiseTo tok.maxId id } := by
  unfold paiTokAddToken
  simp only
  split_ifs with hlen hany hfull
  · exact Or.inl rfl
  · exact Or.inl rfl
  · exact Or.inl rfl
  · refine Or.inr ⟨_, rfl, ?_, rfl⟩
    intro u hu hid
    exact hany (List.any_eq_true.mpr ⟨u, hu, beq_iff_eq.mpr hid⟩)

/-- An accepted merge is appended, and everything else stays. -/
lemma paiTokAddMerge_cases (tok : Tok) (left right result : UInt32) :
    (paiTokAddMerge tok left right result).1 = tok ∨
      (paiTokAddMerge tok left right result).1 = { tok with
        merges := tok.merges ++ [⟨left, right, result⟩]
        maxId := raiseTo tok.maxId result } := by
  unfold paiTokAddMerge
  simp only
  split_ifs with hmissing hfull
  · exact Or.inl rfl
  · exact Or.inl rfl
  · exact Or.inr rfl

/-- Raising `max_id` covers both the new id and what it covered before. -/
lemma le_raiseTo (maxId id : UInt32) : maxId ≤ raiseTo maxId id ∧ id ≤ raiseTo maxId id := by
  unfold raiseTo
  split_ifs with hlt
  · exact ⟨UInt32.le_of_lt hlt, UInt32.le_refl _⟩
  · exact ⟨UInt32.le_refl _, UInt32.not_lt.mp hlt⟩

/-- The raised bound is the new id or the old bound. -/
lemma raiseTo_eq (maxId id : UInt32) : raiseTo maxId id = id ∨ raiseTo maxId id = maxId := by
  unfold raiseTo
  split_ifs
  · exact Or.inl rfl
  · exact Or.inr rfl

/-- One building call keeps the invariant. -/
lemma TokInv.step {tok : Tok} (h : TokInv tok) (call : TokCall) : TokInv (tok.step call) := by
  cases call with
  | addToken id text =>
    rw [Tok.step]
    rcases paiTokAddToken_cases tok id text with heq | ⟨t, rfl, hnew, heq⟩
    · rw [heq]
      exact h
    · rw [heq]
      refine ⟨?_, ?_, ?_⟩
      · refine List.pairwise_append.mpr ⟨h.nodup, List.pairwise_singleton _ _, ?_⟩
        intro u hu v hv
        rw [List.mem_singleton.mp hv]
        exact hnew u hu
      · intro u hu
        rcases List.mem_append.mp hu with hu | hu
        · exact UInt32.le_trans (h.le_maxId u hu) (le_raiseTo _ _).1
        · rw [List.mem_singleton.mp hu]
          exact (le_raiseTo _ _).2
      · rcases raiseTo_eq tok.maxId t.id with hmax | hmax
        · exact Or.inr (Or.inl ⟨t, List.mem_append_right _ (List.mem_singleton_self t), hmax.symm⟩)
        · simp only [hmax]
          rcases h.maxId_mem with hz | ⟨u, hu, hid⟩ | hm
          · exact Or.inl hz
          · exact Or.inr (Or.inl ⟨u, List.mem_append_left _ hu, hid⟩)
          · exact Or.inr (Or.inr hm)
  | addMerge left right result =>
    rw [Tok.step]
    rcases paiTokAddMerge_cases tok left right result with heq | heq
    · rw [heq]
      exact h
    · rw [heq]
      refine ⟨h.nodup, fun t ht => UInt32.le_trans (h.le_maxId t ht) (le_raiseTo _ _).1, ?_⟩
      rcases raiseTo_eq tok.maxId result with hmax | hmax
      · refine Or.inr (Or.inr ⟨_, List.mem_append_right _ (List.mem_singleton_self _), ?_⟩)
        exact hmax.symm
      · simp only [hmax]
        rcases h.maxId_mem with hz | ht | ⟨m, hm, hid⟩
        · exact Or.inl hz
        · exact Or.inr (Or.inl ht)
        · exact Or.inr (Or.inr ⟨m, List.mem_append_left _ hm, hid⟩)
  | finalize => exact ⟨h.nodup, h.le_maxId, h.maxId_mem⟩

/-- Every sequence of building calls keeps the invariant. -/
lemma TokInv.run {tok : Tok} (h : TokInv tok) (calls : List TokCall) :
    TokInv (calls.foldl Tok.step tok) := by
  induction calls generalizing tok with
  | nil => exact h
  | cons call calls ih => exact ih (h.step call)

/-- An empty tokenizer has the invariant. -/
lemma tokInv_init : TokInv paiTokInit :=
  ⟨List.Pairwise.nil, fun _ ht => absurd ht List.not_mem_nil, Or.inl rfl⟩

/-! ## What ids spell -/

/-- The bytes an id stands for. -/
def idText (tok : Tok) (id : UInt32) : Option (List UInt8) :=
  if tok.isFallback id then some [(id - tok.byteFallbackBase).toUInt8]
  else (tok.tokens.find? fun t => t.id == id).map Token.text

/-- The bytes a list of ids stands for. -/
def spelled (tok : Tok) : List UInt32 → Option (List UInt8)
  | [] => some []
  | id :: ids => do
    let word ← idText tok id
    let rest ← spelled tok ids
    some (word ++ rest)

/-- A tokenizer whose ids have one meaning each: vocabulary ids are distinct and below the fallback
range, which does not wrap. -/
structure TokSound (tok : Tok) : Prop where
  /-- No id is used twice. -/
  nodup : tok.tokens.Pairwise fun a b => a.id ≠ b.id
  /-- Vocabulary ids are below the fallback range. -/
  lt_base : ∀ t ∈ tok.tokens, t.id < tok.byteFallbackBase
  /-- The fallback range does not wrap. -/
  base_le : tok.byteFallbackBase.toNat ≤ 2 ^ 31

/-- Prepending an id prepends its bytes. -/
lemma spelled_cons {tok : Tok} {id : UInt32} {ids : List UInt32} {word rest : List UInt8}
    (hid : idText tok id = some word) (hids : spelled tok ids = some rest) :
    spelled tok (id :: ids) = some (word ++ rest) := by
  rw [spelled, hid, hids]
  rfl

/-- A vocabulary id stands for its text. -/
lemma TokSound.idText_token {tok : Tok} (h : TokSound tok) {t : Token} (ht : t ∈ tok.tokens) :
    idText tok t.id = some t.text := by
  have hnot : tok.isFallback t.id = false := by
    rw [Tok.isFallback, Bool.and_eq_false_iff]
    exact Or.inl (decide_eq_false (UInt32.not_le.mpr (h.lt_base t ht)))
  have hfind : (tok.tokens.find? fun u => u.id == t.id) = some t := by
    have hsome : (tok.tokens.find? fun u => u.id == t.id).isSome = true :=
      List.find?_isSome.mpr ⟨t, ht, beq_self_eq_true _⟩
    obtain ⟨u, hu⟩ := Option.isSome_iff_exists.mp hsome
    have hid : u.id = t.id := by simpa using List.find?_some hu
    by_cases heq : u = t
    · rw [hu, heq]
    · have hmem := List.mem_of_find?_eq_some hu
      have : Std.Symm fun a b : Token => a.id ≠ b.id := ⟨fun _ _ hne => hne.symm⟩
      exact absurd hid (h.nodup.forall hmem ht heq)
  rw [idText, hnot, hfind]
  rfl

/-- A fallback id stands for its byte. -/
lemma TokSound.idText_byte {tok : Tok} (h : TokSound tok) (b : UInt8) :
    idText tok (tok.byteFallbackBase + b.toUInt32) = some [b] := by
  have hb : b.toUInt32.toNat < 256 := by
    rw [UInt8.toNat_toUInt32]
    exact b.toNat_lt
  have hbase := h.base_le
  have hsum : (tok.byteFallbackBase + b.toUInt32).toNat =
      tok.byteFallbackBase.toNat + b.toUInt32.toNat := by
    rw [UInt32.toNat_add, Nat.mod_eq_of_lt (by omega)]
  have htop : (tok.byteFallbackBase + 256).toNat = tok.byteFallbackBase.toNat + 256 := by
    rw [UInt32.toNat_add]
    exact Nat.mod_eq_of_lt (by change _ + 256 < _; omega)
  have hfallback : tok.isFallback (tok.byteFallbackBase + b.toUInt32) = true := by
    rw [Tok.isFallback, Bool.and_eq_true, decide_eq_true_iff, decide_eq_true_iff,
      UInt32.le_iff_toNat_le, UInt32.lt_iff_toNat_lt, hsum, htop]
    omega
  have hback : tok.byteFallbackBase + b.toUInt32 - tok.byteFallbackBase = b.toUInt32 := by
    rw [UInt32.add_comm]
    exact UInt32.add_sub_cancel _ _
  rw [idText, hfallback, if_pos rfl, hback]
  simp

/-- A match is a vocabulary entry the text starts with. -/
lemma matchPrefix_spec {tok : Tok} {text : List UInt8} {t : Token}
    (h : matchPrefix tok text = some t) :
    t ∈ tok.tokens ∧ text.take t.text.length = t.text := by
  have hfold : ∀ (tokens : List Token) (best : Option Token),
      tokens.foldl (betterMatch text) best = some t →
        best = some t ∨ (t ∈ tokens ∧ text.take t.text.length = t.text) := by
    intro tokens
    induction tokens with
    | nil =>
      intro best hbest
      exact Or.inl hbest
    | cons u tokens ih =>
      intro best hbest
      rcases ih _ hbest with hstep | ⟨hmem, htake⟩
      · unfold betterMatch at hstep
        simp only at hstep
        split_ifs at hstep with hskip hmatch
        · exact Or.inl hstep
        · cases hstep
          exact Or.inr ⟨List.mem_cons_self, hmatch⟩
        · exact Or.inl hstep
      · exact Or.inr ⟨List.mem_cons_of_mem _ hmem, htake⟩
  rcases hfold tok.tokens none h with hnone | hspec
  · cases hnone
  · exact hspec

/-- Greedy matching spells the text. -/
lemma TokSound.spelled_greedy {tok : Tok} (h : TokSound tok) {fuel : ℕ} {text : List UInt8}
    (hfuel : text.length ≤ fuel) : spelled tok (greedy tok fuel text) = some text := by
  induction fuel generalizing text with
  | zero =>
    rw [List.length_eq_zero_iff.mp (Nat.le_zero.mp hfuel)]
    rfl
  | succ fuel ih =>
    cases text with
    | nil => rfl
    | cons b rest =>
      rw [List.length_cons] at hfuel
      rw [greedy]
      split
      · next t hmatch =>
        obtain ⟨hmem, htake⟩ := matchPrefix_spec hmatch
        have hpos := t.nonempty
        have hrest : ((b :: rest).drop t.text.length).length ≤ fuel := by
          rw [List.length_drop, List.length_cons]
          omega
        rw [spelled_cons (h.idText_token hmem) (ih hrest), Option.some.injEq]
        nth_rewrite 1 [← htake]
        exact List.take_append_drop _ _
      · rw [spelled_cons (h.idText_byte b) (ih (by omega))]
        rfl

/-- Every id consumes at least one byte. -/
lemma length_greedy_le (tok : Tok) (fuel : ℕ) (text : List UInt8) :
    (greedy tok fuel text).length ≤ text.length := by
  induction fuel generalizing text with
  | zero => exact Nat.zero_le _
  | succ fuel ih =>
    cases text with
    | nil => exact le_rfl
    | cons b rest =>
      rw [greedy]
      split
      · next t hmatch =>
        have hpos := t.nonempty
        have hrest := ih ((b :: rest).drop t.text.length)
        rw [List.length_drop, List.length_cons] at hrest
        rw [List.length_cons, List.length_cons]
        omega
      · rw [List.length_cons, List.length_cons]
        exact Nat.succ_le_succ (ih rest)

/-! ## Merging -/

/-- A merge rule whose result stands for the bytes of its pair. -/
def MergeSound (tok : Tok) (m : Merge) : Prop :=
  ∃ a b, idText tok m.left = some a ∧ idText tok m.right = some b ∧
    idText tok m.result = some (a ++ b)

/-- Replacing one pair drops one id. -/
lemma length_mergeFirst {m : Merge} {ids ids' : List UInt32} (h : mergeFirst m ids = some ids') :
    ids'.length + 1 = ids.length := by
  induction ids generalizing ids' with
  | nil => cases h
  | cons x ids ih =>
    cases ids with
    | nil => cases h
    | cons y rest =>
      rw [mergeFirst] at h
      split_ifs at h
      · cases h
        rfl
      · obtain ⟨tail, htail, rfl⟩ := Option.map_eq_some_iff.mp h
        exact congrArg (· + 1) (ih htail)

/-- Replacing one pair keeps what is spelled. -/
lemma spelled_mergeFirst {tok : Tok} {m : Merge} (hm : MergeSound tok m) {ids ids' : List UInt32}
    (h : mergeFirst m ids = some ids') : spelled tok ids' = spelled tok ids := by
  obtain ⟨a, b, hleft, hright, hresult⟩ := hm
  induction ids generalizing ids' with
  | nil => cases h
  | cons x ids ih =>
    cases ids with
    | nil => cases h
    | cons y rest =>
      rw [mergeFirst] at h
      split_ifs at h with hpair
      · obtain ⟨rfl, rfl⟩ := hpair
        cases h
        rw [spelled, spelled, spelled, hleft, hright, hresult]
        cases spelled tok rest with
        | none => rfl
        | some s =>
          change some (a ++ b ++ s) = some (a ++ (b ++ s))
          rw [List.append_assoc]
      · obtain ⟨tail, htail, rfl⟩ := Option.map_eq_some_iff.mp h
        rw [spelled, ih htail, ← spelled]

/-- Applying one rule as often as it applies keeps what is spelled and adds no id. -/
lemma mergeAll_spec {tok : Tok} {m : Merge} (hm : MergeSound tok m) (fuel : ℕ)
    (ids : List UInt32) :
    (mergeAll m fuel ids).length ≤ ids.length ∧
      spelled tok (mergeAll m fuel ids) = spelled tok ids := by
  induction fuel generalizing ids with
  | zero => exact ⟨le_rfl, rfl⟩
  | succ fuel ih =>
    rw [mergeAll]
    split
    · next ids' hmerge =>
      have hlen := length_mergeFirst hmerge
      obtain ⟨hle, hrest⟩ := ih ids'
      exact ⟨by omega, hrest.trans (spelled_mergeFirst hm hmerge)⟩
    · exact ⟨le_rfl, rfl⟩

/-- With as many rounds as ids the loop of a rule ends by itself: no pair is left. -/
lemma mergeFirst_mergeAll (m : Merge) {fuel : ℕ} {ids : List UInt32} (hfuel : ids.length ≤ fuel) :
    mergeFirst m (mergeAll m fuel ids) = none := by
  induction fuel generalizing ids with
  | zero =>
    rw [List.length_eq_zero_iff.mp (Nat.le_zero.mp hfuel)]
    rfl
  | succ fuel ih =>
    rw [mergeAll]
    split
    · next ids' hmerge =>
      have hlen := length_mergeFirst hmerge
      exact ih (by omega)
    · next hnone => exact hnone

/-- Applying all rules in rank order keeps what is spelled and adds no id. -/
lemma mergeRanks_spec {tok : Tok} (merges : List Merge) (hms : ∀ m ∈ merges, MergeSound tok m)
    (ids : List UInt32) :
    (merges.foldl (fun ids m => mergeAll m ids.length ids) ids).length ≤ ids.length ∧
      spelled tok (merges.foldl (fun ids m => mergeAll m ids.length ids) ids) =
        spelled tok ids := by
  induction merges generalizing ids with
  | nil => exact ⟨le_rfl, rfl⟩
  | cons m merges ih =>
    obtain ⟨hlen, hspell⟩ := mergeAll_spec (hms m List.mem_cons_self) ids.length ids
    obtain ⟨hle, hrest⟩ :=
      ih (fun m' hm' => hms m' (List.mem_cons_of_mem _ hm')) (mergeAll m ids.length ids)
    exact ⟨hle.trans hlen, hrest.trans hspell⟩

/-! ## Decoding returns what is spelled -/

/-- A spelled id stands for some bytes. -/
lemma exists_idText_of_spelled {tok : Tok} {ids : List UInt32} {s : List UInt8}
    (h : spelled tok ids = some s) : ∀ id ∈ ids, ∃ word, idText tok id = some word := by
  induction ids generalizing s with
  | nil =>
    intro id hid
    cases hid
  | cons x ids ih =>
    intro id hid
    rw [spelled] at h
    obtain ⟨word, hword, h⟩ := Option.bind_eq_some_iff.mp h
    obtain ⟨rest, hrest, -⟩ := Option.bind_eq_some_iff.mp h
    rcases List.mem_cons.mp hid with rfl | hid
    · exact ⟨word, hword⟩
    · exact ih hrest id hid

/-- The bytes of an id fit a token text. -/
lemma length_idText_le {tok : Tok} {id : UInt32} {word : List UInt8}
    (h : idText tok id = some word) : word.length ≤ 255 := by
  rw [idText] at h
  split_ifs at h with hfallback
  · cases h
    rw [List.length_singleton]
    decide
  · obtain ⟨t, -, rfl⟩ := Option.map_eq_some_iff.mp h
    exact t.short

/-- A spelled id is valid. -/
lemma idValid_of_spelled {tok : Tok} {ids : List UInt32} {s : List UInt8}
    (h : spelled tok ids = some s) : ∀ id ∈ ids, paiTokIdValid tok id = true := by
  intro id hid
  obtain ⟨word, hword⟩ := exists_idText_of_spelled h id hid
  rw [paiTokIdValid, Bool.or_eq_true]
  rw [idText] at hword
  split_ifs at hword with hfallback
  · exact Or.inr hfallback
  · obtain ⟨t, ht, -⟩ := Option.map_eq_some_iff.mp hword
    have hid : (t.id == id) = true := by simpa using List.find?_some ht
    exact Or.inl (List.any_eq_true.mpr ⟨t, List.mem_of_find?_eq_some ht, hid⟩)

/-- Decoding appends what is spelled when it fits the buffer. -/
lemma decodeLoop_of_spelled {tok : Tok} {cap : ℕ} (hcap : cap ≤ 0x100000000) {ids : List UInt32}
    {out s : List UInt8} (h : spelled tok ids = some s) (hfit : out.length + s.length < cap) :
    decodeLoop tok cap out ids = .ok (out ++ s) := by
  induction ids generalizing out s with
  | nil =>
    cases h
    rw [decodeLoop, List.append_nil]
  | cons x ids ih =>
    rw [spelled] at h
    obtain ⟨word, hword, h⟩ := Option.bind_eq_some_iff.mp h
    obtain ⟨rest, hrest, h⟩ := Option.bind_eq_some_iff.mp h
    cases h
    rw [List.length_append] at hfit
    have hmod : (out.length + word.length) % 0x100000000 = out.length + word.length :=
      Nat.mod_eq_of_lt (by omega)
    have hnext : decodeLoop tok cap (out ++ word) ids = .ok (out ++ (word ++ rest)) := by
      rw [ih hrest (by rw [List.length_append]; omega), List.append_assoc]
    rw [idText] at hword
    rw [decodeLoop]
    split_ifs at hword ⊢ with hfallback hfull
    · cases hword
      rw [List.length_singleton] at hmod hfit
      omega
    · cases hword
      exact hnext
    · obtain ⟨t, ht, rfl⟩ := Option.map_eq_some_iff.mp hword
      rw [ht]
      simp only
      rw [hmod, if_neg (by omega)]
      exact hnext

/-! ## Losslessness -/

/-- Every merge result is a vocabulary token that reads as the texts of its pair. -/
def MergesConcat (tok : Tok) : Prop :=
  ∀ m ∈ tok.merges, ∃ l ∈ tok.tokens, ∃ r ∈ tok.tokens, ∃ t ∈ tok.tokens,
    l.id = m.left ∧ r.id = m.right ∧ t.id = m.result ∧ t.text = l.text ++ r.text

/-- A built tokenizer with small ids gives each id one meaning. -/
lemma tokSound_build (calls : List TokCall)
    (hids : ∀ t ∈ (Tok.build calls).tokens, t.id.toNat < 2 ^ 31)
    (hmerges : MergesConcat (Tok.build calls)) : TokSound (Tok.build calls) := by
  have hinv : TokInv (calls.foldl Tok.step paiTokInit) := tokInv_init.run calls
  set tok := calls.foldl Tok.step paiTokInit with htok
  have hbase : (Tok.build calls).byteFallbackBase = if 256 ≤ tok.maxId then tok.maxId + 1 else 256 :=
    rfl
  have htokens : (Tok.build calls).tokens = tok.tokens := rfl
  have hmax : tok.maxId.toNat < 2 ^ 31 := by
    rcases hinv.maxId_mem with hz | ⟨t, ht, hid⟩ | ⟨m, hm, hid⟩
    · rw [hz]
      decide
    · rw [← hid]
      exact hids t ht
    · obtain ⟨-, -, -, -, t, ht, -, -, hres, -⟩ := hmerges m hm
      rw [← hid, ← hres]
      exact hids t ht
  have hnext : (tok.maxId + 1).toNat = tok.maxId.toNat + 1 := by
    rw [UInt32.toNat_add]
    exact Nat.mod_eq_of_lt (by change _ + 1 < _; omega)
  refine ⟨hinv.nodup, ?_, ?_⟩
  · intro t ht
    have hle := UInt32.le_iff_toNat_le.mp (hinv.le_maxId t ht)
    rw [hbase, UInt32.lt_iff_toNat_lt]
    split_ifs with hbig
    · omega
    · have hsmall := UInt32.lt_iff_toNat_lt.mp (UInt32.not_le.mp hbig)
      omega
  · rw [hbase]
    split_ifs
    · omega
    · decide

/-- In a sound tokenizer a merge that reads as its pair has a meaning. -/
lemma TokSound.mergeSound {tok : Tok} (h : TokSound tok) (hmerges : MergesConcat tok) :
    ∀ m ∈ tok.merges, MergeSound tok m := by
  intro m hm
  obtain ⟨l, hl, r, hr, t, ht, hleft, hright, hresult, htext⟩ := hmerges m hm
  refine ⟨l.text, r.text, ?_, ?_, ?_⟩
  · rw [← hleft, h.idText_token hl]
  · rw [← hright, h.idText_token hr]
  · rw [← hresult, h.idText_token ht, htext]

/-- The ids before the capacity check spell the input. -/
lemma TokSound.spelled_ids {tok : Tok} (h : TokSound tok) (hmerges : MergesConcat tok)
    (text : List UInt8) :
    (tok.merges.foldl (fun ids m => mergeAll m ids.length ids)
      (greedy tok text.length text)).length ≤ text.length ∧
    spelled tok (tok.merges.foldl (fun ids m => mergeAll m ids.length ids)
      (greedy tok text.length text)) = some text := by
  obtain ⟨hle, hspell⟩ :=
    mergeRanks_spec tok.merges (h.mergeSound hmerges) (greedy tok text.length text)
  rw [h.spelled_greedy le_rfl] at hspell
  exact ⟨hle.trans (length_greedy_le tok text.length text), hspell⟩

/-- What `pai_tok_encode` returns spells its input. -/
lemma TokSound.spelled_of_paiTokEncode {tok : Tok} (h : TokSound tok) (hmerges : MergesConcat tok)
    {text : List UInt8} {cap : ℕ} {ids : List UInt32} (hids : paiTokEncode tok text cap = .ok ids) :
    spelled tok ids = some text := by
  unfold paiTokEncode at hids
  split_ifs at hids with hlong
  simp only at hids
  split_ifs at hids with hcap
  cases hids
  exact (h.spelled_ids hmerges text).2

/-- The tokenizer is lossless: whatever the vocabulary, every input encodes into at most as many ids
as it has bytes, all of them valid, and they decode to the input. -/
theorem tokenizer_lossless (calls : List TokCall) (text : List UInt8) (cap : ℕ)
    (hids : ∀ t ∈ (Tok.build calls).tokens, t.id.toNat < 2 ^ 31)
    (hmerges : MergesConcat (Tok.build calls)) (hlen : text.length ≤ paiTokMaxInput)
    (hcap : text.length ≤ cap) :
    ∃ ids, paiTokEncode (Tok.build calls) text cap = .ok ids ∧
      (∀ id ∈ ids, paiTokIdValid (Tok.build calls) id = true) ∧
      paiTokDecode (Tok.build calls) ids (text.length + 1) = .ok text := by
  have hsound := tokSound_build calls hids hmerges
  set tok := Tok.build calls
  obtain ⟨hcount, hspell⟩ := hsound.spelled_ids hmerges text
  set ids := tok.merges.foldl (fun ids m => mergeAll m ids.length ids)
    (greedy tok text.length text) with hidsdef
  refine ⟨ids, ?_, idValid_of_spelled hspell, ?_⟩
  · unfold paiTokEncode
    rw [if_neg (not_lt.mpr hlen)]
    simp only
    rw [← hidsdef, if_neg (by omega)]
  · rw [paiTokDecode, if_neg (Nat.succ_ne_zero _)]
    refine decodeLoop_of_spelled ?_ hspell ?_
    · have hmax : paiTokMaxInput = 65536 := rfl
      omega
    · rw [List.length_nil]
      omega

/-- Two letters, their pair and a merge rule; the input ends in a NUL. -/
theorem tokenizer_lossless_ab :
    ∃ ids, paiTokEncode (Tok.build [.addToken 1 [97], .addToken 2 [98], .addToken 3 [97, 98],
        .addMerge 1 2 3]) [98, 97, 98, 0] 4 = .ok ids ∧
      (∀ id ∈ ids, paiTokIdValid (Tok.build [.addToken 1 [97], .addToken 2 [98],
        .addToken 3 [97, 98], .addMerge 1 2 3]) id = true) ∧
      paiTokDecode (Tok.build [.addToken 1 [97], .addToken 2 [98], .addToken 3 [97, 98],
        .addMerge 1 2 3]) ids 5 = .ok [98, 97, 98, 0] := by
  refine tokenizer_lossless _ _ 4 (by decide) ?_ (by decide) (by decide)
  intro m hm
  rw [List.mem_singleton.mp hm]
  exact ⟨⟨1, [97], by decide, by decide, by decide⟩, by decide,
    ⟨2, [98], by decide, by decide, by decide⟩, by decide,
    ⟨3, [97, 98], by decide, by decide, by decide⟩, by decide, rfl, rfl, rfl, rfl⟩

end Prospero
