import Prospero.Models.ContainerBuild

/-!
# Vocabulary of a GGUF file

The tokenizer part of `pai_llama_import` (`adapters/llama/llama.c`): the token array becomes token
descriptors, without the texts the tokenizer cannot hold, and a merge entry `left right` becomes a
merge descriptor when `left`, `right` and their concatenation are each the text of exactly one token.

The halves of an entry are short enough for the tokenizer, but their concatenation may be longer than
a token text can be; then the result of the merge is a token that was left out.  Nothing else goes
wrong (`vocabularyClosed_iff`).
-/

namespace Prospero

open Reader

/-! ## Descriptors -/

/-- The loop of `find_token`; `found` is the index of the match so far. -/
def findTokenLoop (text : List UInt8) : List (List UInt8) → ℕ → Option ℕ → Option ℕ
  | [], _, found => found
  | t :: ts, i, found =>
    if cString t = text then
      match found with
      | some _ => none
      | none => findTokenLoop text ts (i + 1) (some i)
    else findTokenLoop text ts (i + 1) found

/-- `find_token`: the index of the only token with the text. -/
def findToken (tokens : List (List UInt8)) (text : List UInt8) : Option ℕ :=
  findTokenLoop text tokens 0 none

/-- The tokenizer can hold the text. -/
abbrev holdable (text : List UInt8) : Prop :=
  0 < (cString text).length ∧ (cString text).length ≤ paiTokMaxTokenLen

/-- The token descriptors: ids and texts. -/
def tokenDescriptors (tokens : List (List UInt8)) : List (UInt32 × List UInt8) :=
  (tokens.zipIdx.filter fun t => decide (holdable t.1)).map fun t => (UInt32.ofNat t.2, t.1)

/-- The two halves of a merge entry, around its first space; `none` for entries that are passed
over. -/
def mergeHalves (entry : List UInt8) : Option (List UInt8 × List UInt8) :=
  let m := cString entry
  let left := m.takeWhile (· ≠ 32)
  let right := m.drop (left.length + 1)
  if left.length = m.length ∨ left.length = 0 ∨ 256 ≤ left.length then none
  else if right.length = 0 ∨ 256 ≤ right.length then none
  else if 512 ≤ left.length + right.length then none
  else some (left, right)

/-- One round of the merge loop. -/
def resolveMerge (tokens : List (List UInt8)) (entry : List UInt8) : Option Merge := do
  let (left, right) ← mergeHalves entry
  let l ← findToken tokens left
  let r ← findToken tokens right
  let m ← findToken tokens (left ++ right)
  some ⟨UInt32.ofNat l, UInt32.ofNat r, UInt32.ofNat m⟩

/-- The merge loop; `n` merges are stored so far. -/
def mergeDescriptors (tokens : List (List UInt8)) : List (List UInt8) → ℕ → List Merge
  | [], _ => []
  | entry :: entries, n =>
    if n < paiTokMaxMerges then
      match resolveMerge tokens entry with
      | some m => m :: mergeDescriptors tokens entries (n + 1)
      | none => mergeDescriptors tokens entries n
    else []

/-- The tokenizer that `pai_container_build` builds from the descriptors. -/
def vocabularyTok (tokens merges : List (List UInt8)) : Read PaiStatus Tok := do
  let tok ← addTokens paiTokInit (tokenDescriptors tokens)
  let tok ← addMerges tok (mergeDescriptors tokens merges 0)
  .ok (paiTokFinalize tok)

/-! ## Tokens with a text -/

/-- Token `i` is the only one with the text. -/
def OnlyToken (tokens : List (List UInt8)) (text : List UInt8) (i : ℕ) : Prop :=
  (tokens[i]?).map cString = some text ∧ ∀ j, (tokens[j]?).map cString = some text → j = i

/-- Behind a match the loop looks for a second one. -/
lemma findTokenLoop_some {text : List UInt8} {ts : List (List UInt8)} {i k r : ℕ} :
    findTokenLoop text ts i (some k) = some r ↔ k = r ∧ ∀ t ∈ ts, cString t ≠ text := by
  induction ts generalizing i with
  | nil => simp [findTokenLoop]
  | cons t ts ih =>
    rw [findTokenLoop, List.forall_mem_cons]
    by_cases htext : cString t = text
    · simp [htext]
    · rw [if_neg htext, ih]
      simp [htext]

lemma findTokenLoop_none {text : List UInt8} {ts : List (List UInt8)} {i r : ℕ} :
    findTokenLoop text ts i none = some r ↔ ∃ k, r = i + k ∧ OnlyToken ts text k := by
  induction ts generalizing i with
  | nil => simp [findTokenLoop, OnlyToken]
  | cons t ts ih =>
    rw [findTokenLoop]
    by_cases htext : cString t = text
    · rw [if_pos htext, findTokenLoop_some]
      constructor
      · rintro ⟨rfl, hnone⟩
        refine ⟨0, rfl, by simp [htext], ?_⟩
        rintro (_ | j) hj
        · rfl
        · rw [List.getElem?_cons_succ, Option.map_eq_some_iff] at hj
          obtain ⟨u, hu, hutext⟩ := hj
          exact absurd hutext (hnone u (List.mem_of_getElem? hu))
      · rintro ⟨k, rfl, honly⟩
        have hk : 0 = k := honly.2 0 (by simp [htext])
        subst hk
        refine ⟨rfl, fun u hu hutext => ?_⟩
        obtain ⟨j, hj⟩ := List.mem_iff_getElem?.mp hu
        have := honly.2 (j + 1) (by rw [List.getElem?_cons_succ, hj, Option.map_some, hutext])
        omega
    · rw [if_neg htext, ih]
      constructor
      · rintro ⟨k, rfl, hfound, hunique⟩
        refine ⟨k + 1, by omega, by rw [List.getElem?_cons_succ]; exact hfound, ?_⟩
        rintro (_ | j) hj
        · simp [htext] at hj
        · rw [List.getElem?_cons_succ] at hj
          rw [hunique j hj]
      · rintro ⟨_ | k, rfl, hfound, hunique⟩
        · simp [htext] at hfound
        · rw [List.getElem?_cons_succ] at hfound
          refine ⟨k, by omega, hfound, fun j hj => ?_⟩
          have := hunique (j + 1) (by rw [List.getElem?_cons_succ]; exact hj)
          omega

/-- `find_token` finds the only token with a text. -/
lemma findToken_eq_some {tokens : List (List UInt8)} {text : List UInt8} {i : ℕ} :
    findToken tokens text = some i ↔ OnlyToken tokens text i := by
  rw [findToken, findTokenLoop_none]
  constructor
  · rintro ⟨k, rfl, h⟩
    rwa [Nat.zero_add]
  · exact fun h => ⟨i, (Nat.zero_add i).symm, h⟩

/-! ## Emitted tokens -/

lemma mem_tokenDescriptors {tokens : List (List UInt8)} {id : UInt32} {text : List UInt8} :
    (id, text) ∈ tokenDescriptors tokens ↔
      ∃ i, id = UInt32.ofNat i ∧ tokens[i]? = some text ∧ holdable text := by
  unfold tokenDescriptors
  constructor
  · intro h
    obtain ⟨⟨t, i⟩, ht, hpair⟩ := List.mem_map.mp h
    obtain ⟨hmem, hhold⟩ := List.mem_filter.mp ht
    cases hpair
    exact ⟨i, rfl, List.mem_zipIdx_iff_getElem?.mp hmem, of_decide_eq_true hhold⟩
  · rintro ⟨i, rfl, hget, hhold⟩
    refine List.mem_map.mpr ⟨(text, i), List.mem_filter.mpr ⟨?_, decide_eq_true hhold⟩, rfl⟩
    exact List.mem_zipIdx_iff_getElem?.mpr hget

/-- A token that is found is emitted when the tokenizer can hold its text. -/
lemma OnlyToken.emitted {tokens : List (List UInt8)} {text : List UInt8} {i : ℕ}
    (h : OnlyToken tokens text i) (hpos : 0 < text.length) (hle : text.length ≤ paiTokMaxTokenLen) :
    ∃ t, (UInt32.ofNat i, t) ∈ tokenDescriptors tokens ∧ cString t = text := by
  obtain ⟨t, ht, htext⟩ := Option.map_eq_some_iff.mp h.1
  refine ⟨t, mem_tokenDescriptors.mpr ⟨i, rfl, ht, ?_⟩, htext⟩
  rw [holdable, htext]
  exact ⟨hpos, hle⟩

/-- Ids below `2 ^ 32` are told apart. -/
lemma index_eq_of_ofNat_eq {tokens : List (List UInt8)} (hlen : tokens.length ≤ 0x100000) {i j : ℕ}
    {t u : List UInt8} (hi : tokens[i]? = some t) (hj : tokens[j]? = some u)
    (h : UInt32.ofNat i = UInt32.ofNat j) : i = j := by
  have hilt := (List.getElem?_eq_some_iff.mp hi).1
  have hjlt := (List.getElem?_eq_some_iff.mp hj).1
  have hnat := congrArg UInt32.toNat h
  rw [UInt32.toNat_ofNat', UInt32.toNat_ofNat', Nat.mod_eq_of_lt (by omega),
    Nat.mod_eq_of_lt (by omega)] at hnat
  exact hnat

/-- An emitted token that is found by its text has a text the tokenizer can hold. -/
lemma OnlyToken.length_le_of_emitted {tokens : List (List UInt8)}
    (hlen : tokens.length ≤ 0x100000) {text t : List UInt8} {i : ℕ} (h : OnlyToken tokens text i)
    (ht : (UInt32.ofNat i, t) ∈ tokenDescriptors tokens) : text.length ≤ paiTokMaxTokenLen := by
  obtain ⟨u, hu, htext⟩ := Option.map_eq_some_iff.mp h.1
  obtain ⟨j, hid, hj, hhold⟩ := mem_tokenDescriptors.mp ht
  have hij := index_eq_of_ofNat_eq hlen hu hj hid
  subst hij
  rw [hu] at hj
  cases hj
  rw [← htext]
  exact hhold.2

/-! ## Emitted merges -/

lemma mergeHalves_bounds {entry left right : List UInt8}
    (h : mergeHalves entry = some (left, right)) :
    0 < left.length ∧ left.length ≤ paiTokMaxTokenLen ∧ 0 < right.length ∧
      right.length ≤ paiTokMaxTokenLen := by
  unfold mergeHalves at h
  dsimp only at h
  split_ifs at h with hleft hright hsum
  cases h
  have hmax : paiTokMaxTokenLen = 255 := rfl
  omega

/-- A merge entry that is resolved: its halves, and the tokens of the halves and of the whole. -/
structure Resolved (tokens : List (List UInt8)) (entry left right : List UInt8) (l r m : ℕ) :
    Prop where
  /-- The halves. -/
  halves : mergeHalves entry = some (left, right)
  /-- The token of the first half. -/
  left_token : OnlyToken tokens left l
  /-- The token of the second half. -/
  right_token : OnlyToken tokens right r
  /-- The token of the whole. -/
  result_token : OnlyToken tokens (left ++ right) m

lemma resolveMerge_eq_some {tokens : List (List UInt8)} {entry : List UInt8} {merge : Merge} :
    resolveMerge tokens entry = some merge ↔ ∃ left right l r m,
      Resolved tokens entry left right l r m ∧
        merge = ⟨UInt32.ofNat l, UInt32.ofNat r, UInt32.ofNat m⟩ := by
  unfold resolveMerge
  constructor
  · intro h
    obtain ⟨⟨left, right⟩, hhalves, h⟩ := Option.bind_eq_some_iff.mp h
    obtain ⟨l, hl, h⟩ := Option.bind_eq_some_iff.mp h
    obtain ⟨r, hr, h⟩ := Option.bind_eq_some_iff.mp h
    obtain ⟨m, hm, h⟩ := Option.bind_eq_some_iff.mp h
    cases h
    exact ⟨left, right, l, r, m, ⟨hhalves, findToken_eq_some.mp hl, findToken_eq_some.mp hr,
      findToken_eq_some.mp hm⟩, rfl⟩
  · rintro ⟨left, right, l, r, m, h, rfl⟩
    rw [h.halves, Option.bind_eq_bind, Option.bind_some]
    dsimp only
    rw [findToken_eq_some.mpr h.left_token, findToken_eq_some.mpr h.right_token,
      findToken_eq_some.mpr h.result_token]
    rfl

/-- The number of entries that resolve. -/
def numResolved (tokens entries : List (List UInt8)) : ℕ :=
  entries.countP fun entry => (resolveMerge tokens entry).isSome

/-- The merges that are stored are those of the entries before which fewer than the maximum
resolve. -/
lemma mem_mergeDescriptors {tokens entries : List (List UInt8)} {n : ℕ} {merge : Merge} :
    merge ∈ mergeDescriptors tokens entries n ↔ ∃ k entry, entries[k]? = some entry ∧
      resolveMerge tokens entry = some merge ∧
      n + numResolved tokens (entries.take k) < paiTokMaxMerges := by
  induction entries generalizing n with
  | nil => simp [mergeDescriptors]
  | cons e es ih =>
    -- the entry is the first one or one behind it
    have hsplit : (∃ k entry, (e :: es)[k]? = some entry ∧ resolveMerge tokens entry = some merge ∧
        n + numResolved tokens ((e :: es).take k) < paiTokMaxMerges) ↔
        (resolveMerge tokens e = some merge ∧ n < paiTokMaxMerges) ∨
        ∃ k entry, es[k]? = some entry ∧ resolveMerge tokens entry = some merge ∧
          n + numResolved tokens (e :: es.take k) < paiTokMaxMerges := by
      constructor
      · rintro ⟨_ | k, entry, hget, hres, hlt⟩
        · rw [List.getElem?_cons_zero] at hget
          cases hget
          exact Or.inl ⟨hres, by simpa [numResolved] using hlt⟩
        · exact Or.inr ⟨k, entry, by simpa using hget, hres, by simpa using hlt⟩
      · rintro (⟨hres, hlt⟩ | ⟨k, entry, hget, hres, hlt⟩)
        · exact ⟨0, e, rfl, hres, by simpa [numResolved] using hlt⟩
        · exact ⟨k + 1, entry, by simpa using hget, hres, by simpa using hlt⟩
    rw [hsplit, mergeDescriptors]
    by_cases hroom : n < paiTokMaxMerges
    · rw [if_pos hroom]
      cases hres : resolveMerge tokens e with
      | some m =>
        simp only [List.mem_cons, ih, numResolved, List.countP_cons, hres, Option.isSome_some,
          if_true, hroom, and_true, Option.some.injEq]
        have hcomm : ∀ c, n + 1 + c = n + (c + 1) := fun c => by omega
        simp only [hcomm, eq_comm]
      | none =>
        simp only [ih, numResolved, List.countP_cons, hres, Option.isSome_none, reduceCtorEq,
          false_and, false_or, if_false, Nat.add_zero, Bool.false_eq_true]
    · rw [if_neg hroom]
      constructor
      · exact fun h => absurd h List.not_mem_nil
      · rintro (⟨-, hlt⟩ | ⟨k, entry, -, -, hlt⟩)
        · exact absurd hlt hroom
        · exact absurd (lt_of_le_of_lt (Nat.le_add_right _ _) hlt) hroom

lemma length_mergeDescriptors_le (tokens entries : List (List UInt8)) {n : ℕ}
    (hn : n ≤ paiTokMaxMerges) :
    n + (mergeDescriptors tokens entries n).length ≤ paiTokMaxMerges := by
  induction entries generalizing n with
  | nil => exact hn
  | cons e es ih =>
    rw [mergeDescriptors]
    by_cases hroom : n < paiTokMaxMerges
    · rw [if_pos hroom]
      cases resolveMerge tokens e with
      | some m =>
        have := ih (n := n + 1) hroom
        rw [List.length_cons]
        omega
      | none => exact ih hn
    · rw [if_neg hroom]
      exact hn

/-! ## The tokenizer of the descriptors -/

lemma tokCall_eq_ok {r : Tok × PaiStatus} {tok : Tok} (h : tokCall r = .ok tok) :
    r.2 = paiOk ∧ r.1 = tok := by
  unfold tokCall at h
  split_ifs at h with hst
  · exact ⟨not_not.mp hst, Except.ok.inj h⟩

/-- A token that is added is stored behind the others with its text. -/
lemma paiTokAddToken_ok {tok : Tok} {id : UInt32} {text : List UInt8}
    (h : (paiTokAddToken tok id text).2 = paiOk) (hhold : holdable text) :
    ∃ t : Token, t.id = id ∧ t.text = cString text ∧
      (paiTokAddToken tok id text).1.tokens = tok.tokens ++ [t] ∧
      (paiTokAddToken tok id text).1.merges = tok.merges := by
  have hmax : paiTokMaxTokenLen = 255 := rfl
  have hmod : (cString text).length % 0x100000000 = (cString text).length :=
    Nat.mod_eq_of_lt (by have := hhold.2; omega)
  have hinvalid : paiErrInvalidArg ≠ paiOk := by decide
  have hnomem : paiErrNomem ≠ paiOk := by decide
  unfold paiTokAddToken at h ⊢
  dsimp only at h ⊢
  split_ifs at h ⊢ with hlen hdup hfull
  · exact absurd h hinvalid
  · exact absurd h hinvalid
  · exact absurd h hnomem
  · refine ⟨_, rfl, ?_, rfl, rfl⟩
    change (cString text).take ((cString text).length % 0x100000000) = cString text
    rw [hmod, List.take_length]

/-- The token loop stores the tokens it is given, in their order. -/
lemma addTokens_spec {tok tok' : Tok} {ds : List (UInt32 × List UInt8)}
    (hhold : ∀ d ∈ ds, holdable d.2) (h : addTokens tok ds = .ok tok') :
    tok'.merges = tok.merges ∧
      tok'.tokens.map (fun t => (t.id, t.text)) =
        tok.tokens.map (fun t => (t.id, t.text)) ++ ds.map fun d => (d.1, cString d.2) := by
  induction ds generalizing tok with
  | nil =>
    cases h
    exact ⟨rfl, (List.append_nil _).symm⟩
  | cons d ds ih =>
    obtain ⟨hd, hds⟩ := List.forall_mem_cons.mp hhold
    obtain ⟨tok₁, hcall, hrest⟩ := bind_eq_ok h
    obtain ⟨hst, rfl⟩ := tokCall_eq_ok hcall
    obtain ⟨t, hid, htext, htokens, hmerges⟩ := paiTokAddToken_ok hst hd
    obtain ⟨hm, ht⟩ := ih hds hrest
    refine ⟨hm.trans hmerges, ?_⟩
    rw [ht, htokens, List.map_append, List.append_assoc, List.map_cons, List.map_cons, List.map_nil,
      hid, htext, List.singleton_append]

/-- The token loop is a sequence of building calls. -/
lemma addTokens_eq_foldl {tok tok' : Tok} {ds : List (UInt32 × List UInt8)}
    (h : addTokens tok ds = .ok tok') :
    tok' = (ds.map fun d => TokCall.addToken d.1 d.2).foldl Tok.step tok := by
  induction ds generalizing tok with
  | nil => exact (Except.ok.inj h).symm
  | cons d ds ih =>
    obtain ⟨tok₁, hcall, hrest⟩ := bind_eq_ok h
    obtain ⟨-, rfl⟩ := tokCall_eq_ok hcall
    exact ih hrest

lemma addMerges_eq_foldl {tok tok' : Tok} {ms : List Merge} (h : addMerges tok ms = .ok tok') :
    tok' = (ms.map fun m => TokCall.addMerge m.left m.right m.result).foldl Tok.step tok := by
  induction ms generalizing tok with
  | nil => exact (Except.ok.inj h).symm
  | cons m ms ih =>
    obtain ⟨tok₁, hcall, hrest⟩ := bind_eq_ok h
    obtain ⟨-, rfl⟩ := tokCall_eq_ok hcall
    exact ih hrest

/-- The merge loop stores merges between stored tokens while there is room. -/
lemma addMerges_spec {tok : Tok} {ms : List Merge}
    (hroom : tok.merges.length + ms.length ≤ paiTokMaxMerges)
    (hpair : ∀ m ∈ ms, (∃ t ∈ tok.tokens, t.id = m.left) ∧ ∃ t ∈ tok.tokens, t.id = m.right) :
    ∃ tok', addMerges tok ms = .ok tok' ∧ tok'.tokens = tok.tokens ∧
      tok'.merges = tok.merges ++ ms := by
  induction ms generalizing tok with
  | nil => exact ⟨tok, rfl, rfl, (List.append_nil _).symm⟩
  | cons m ms ih =>
    obtain ⟨⟨⟨l, hl, hleft⟩, ⟨r, hr, hright⟩⟩, hpairs⟩ := List.forall_mem_cons.mp hpair
    have hhaveLeft : (tok.tokens.any fun t => t.id == m.left) = true :=
      List.any_eq_true.mpr ⟨l, hl, beq_iff_eq.mpr hleft⟩
    have hhaveRight : (tok.tokens.any fun t => t.id == m.right) = true :=
      List.any_eq_true.mpr ⟨r, hr, beq_iff_eq.mpr hright⟩
    rw [List.length_cons] at hroom
    have hadd : paiTokAddMerge tok m.left m.right m.result = ({ tok with
        merges := tok.merges ++ [m]
        maxId := raiseTo tok.maxId m.result }, paiOk) := by
      unfold paiTokAddMerge
      dsimp only
      rw [hhaveLeft, hhaveRight, if_neg (by decide), if_neg (by omega)]
    obtain ⟨tok', hrun, htokens, hmerges⟩ := @ih { tok with
        merges := tok.merges ++ [m]
        maxId := raiseTo tok.maxId m.result }
      (by rw [List.length_append, List.length_singleton]; omega) hpairs
    refine ⟨tok', ?_, htokens, ?_⟩
    · rw [addMerges, hadd]
      exact hrun
    · rw [hmerges, List.append_assoc, List.singleton_append]

/-! ## Closed vocabularies -/

/-- Every merge is between emitted tokens, and its result is an emitted token that reads as the two
texts. -/
def MergesClosed (tokens merges : List (List UInt8)) : Prop :=
  ∀ m ∈ mergeDescriptors tokens merges 0, ∃ l r t,
    (m.left, l) ∈ tokenDescriptors tokens ∧ (m.right, r) ∈ tokenDescriptors tokens ∧
    (m.result, t) ∈ tokenDescriptors tokens ∧ cString t = cString l ++ cString r

/-- The descriptors are closed, the tokenizer takes all merges, and every id that encoding produces is
decoded. -/
structure VocabularyClosed (tokens merges : List (List UInt8)) : Prop where
  /-- The merges stay inside the emitted tokens. -/
  closed : MergesClosed tokens merges
  /-- `pai_tok_add_merge` does not fail. -/
  merges_added : ∀ tok, addTokens paiTokInit (tokenDescriptors tokens) = .ok tok →
    ∃ tok', addMerges tok (mergeDescriptors tokens merges 0) = .ok tok'
  /-- What is encoded can be decoded. -/
  decodable : ∀ tok, vocabularyTok tokens merges = .ok tok → ∀ text cap ids,
    paiTokEncode tok text cap = .ok ids →
    ∀ id ∈ ids, ∃ n word, paiTokDecode tok [id] n = .ok word

/-- No merge entry that is stored has a result longer than a token text: if both halves and the whole
are each the text of exactly one token, and fewer than the maximum of the entries before resolve, then
the whole has at most `PAI_TOK_MAX_TOKEN_LEN` bytes. -/
def NoLongMerge (tokens merges : List (List UInt8)) : Prop :=
  ∀ k entry left right l r m, merges[k]? = some entry → Resolved tokens entry left right l r m →
    numResolved tokens (merges.take k) < paiTokMaxMerges →
    left.length + right.length ≤ paiTokMaxTokenLen

lemma mergesClosed_iff {tokens merges : List (List UInt8)} (hlen : tokens.length ≤ 0x100000) :
    MergesClosed tokens merges ↔ NoLongMerge tokens merges := by
  constructor
  · intro h k entry left right l r m hget hres hcount
    have hmem : ⟨UInt32.ofNat l, UInt32.ofNat r, UInt32.ofNat m⟩ ∈
        mergeDescriptors tokens merges 0 :=
      mem_mergeDescriptors.mpr ⟨k, entry, hget,
        resolveMerge_eq_some.mpr ⟨left, right, l, r, m, hres, rfl⟩, by omega⟩
    obtain ⟨-, -, t, -, -, ht, -⟩ := h _ hmem
    have hle := hres.result_token.length_le_of_emitted hlen ht
    rwa [List.length_append] at hle
  · intro h merge hmem
    obtain ⟨k, entry, hget, hresolve, hcount⟩ := mem_mergeDescriptors.mp hmem
    obtain ⟨left, right, l, r, m, hres, rfl⟩ := resolveMerge_eq_some.mp hresolve
    obtain ⟨hlpos, hlle, hrpos, hrle⟩ := mergeHalves_bounds hres.halves
    have hle := h k entry left right l r m hget hres (by omega)
    obtain ⟨tl, htl, hltext⟩ := hres.left_token.emitted hlpos hlle
    obtain ⟨tr, htr, hrtext⟩ := hres.right_token.emitted hrpos hrle
    obtain ⟨tm, htm, hmtext⟩ := hres.result_token.emitted
      (by rw [List.length_append]; omega) (by rw [List.length_append]; exact hle)
    exact ⟨tl, tr, tm, htl, htr, htm, by rw [hmtext, hltext, hrtext]⟩

lemma holdable_of_mem {tokens : List (List UInt8)} :
    ∀ d ∈ tokenDescriptors tokens, holdable d.2 := by
  rintro ⟨id, text⟩ hd
  obtain ⟨-, -, -, hhold⟩ := mem_tokenDescriptors.mp hd
  exact hhold

/-- After the token loop every emitted token is stored. -/
lemma exists_token_of_emitted {tokens : List (List UInt8)} {tok : Tok}
    (h : addTokens paiTokInit (tokenDescriptors tokens) = .ok tok) {id : UInt32} {text : List UInt8}
    (hmem : (id, text) ∈ tokenDescriptors tokens) :
    ∃ t ∈ tok.tokens, t.id = id ∧ t.text = cString text := by
  obtain ⟨-, htokens⟩ := addTokens_spec holdable_of_mem h
  have hpair : (id, cString text) ∈ tok.tokens.map fun t => (t.id, t.text) := by
    rw [htokens]
    exact List.mem_append_right _ (List.mem_map_of_mem (f := fun d => (d.1, cString d.2)) hmem)
  obtain ⟨t, ht, hteq⟩ := List.mem_map.mp hpair
  obtain ⟨hid, htext⟩ := Prod.mk.inj hteq
  exact ⟨t, ht, hid, htext⟩

/-- With closed descriptors the merge loop succeeds. -/
lemma MergesClosed.addMerges {tokens merges : List (List UInt8)} (h : MergesClosed tokens merges)
    {tok : Tok} (htok : addTokens paiTokInit (tokenDescriptors tokens) = .ok tok) :
    ∃ tok', addMerges tok (mergeDescriptors tokens merges 0) = .ok tok' ∧
      tok'.tokens = tok.tokens ∧ tok'.merges = mergeDescriptors tokens merges 0 := by
  have hmerges : tok.merges = [] := (addTokens_spec holdable_of_mem htok).1
  have hcount := length_mergeDescriptors_le tokens merges (Nat.zero_le _)
  obtain ⟨tok', hrun, htokens, hstored⟩ := @addMerges_spec tok
    (mergeDescriptors tokens merges 0) (by rw [hmerges, List.length_nil]; exact hcount) <| by
      intro m hm
      obtain ⟨l, r, t, hl, hr, -, -⟩ := h m hm
      obtain ⟨tl, htl, hlid, -⟩ := exists_token_of_emitted htok hl
      obtain ⟨tr, htr, hrid, -⟩ := exists_token_of_emitted htok hr
      exact ⟨⟨tl, htl, hlid⟩, ⟨tr, htr, hrid⟩⟩
  refine ⟨tok', hrun, htokens, ?_⟩
  rw [hstored, hmerges, List.nil_append]

/-- Stored ids are indices of the token array. -/
lemma id_lt_of_mem {tokens : List (List UInt8)} (hlen : tokens.length ≤ 0x100000) {tok : Tok}
    (h : addTokens paiTokInit (tokenDescriptors tokens) = .ok tok) :
    ∀ t ∈ tok.tokens, t.id.toNat < 2 ^ 31 := by
  intro t ht
  obtain ⟨-, htokens⟩ := addTokens_spec holdable_of_mem h
  have hpair : (t.id, t.text) ∈ (tokenDescriptors tokens).map fun d => (d.1, cString d.2) := by
    have hmem := List.mem_map_of_mem (f := fun t : Token => (t.id, t.text)) ht
    rw [htokens] at hmem
    exact hmem
  obtain ⟨⟨id, text⟩, hd, hdeq⟩ := List.mem_map.mp hpair
  obtain ⟨i, hid, hget, -⟩ := mem_tokenDescriptors.mp hd
  have hilt := (List.getElem?_eq_some_iff.mp hget).1
  have hti : t.id = UInt32.ofNat i := by rw [← hid]; exact (Prod.mk.inj hdeq).1.symm
  rw [hti, UInt32.toNat_ofNat', Nat.mod_eq_of_lt (by omega)]
  omega

/-- With closed descriptors every id that encoding produces is decoded. -/
lemma MergesClosed.decodable {tokens merges : List (List UInt8)} (h : MergesClosed tokens merges)
    (hlen : tokens.length ≤ 0x100000) {tok : Tok} (htok : vocabularyTok tokens merges = .ok tok)
    {text : List UInt8} {cap : ℕ} {ids : List UInt32} (henc : paiTokEncode tok text cap = .ok ids)
    {id : UInt32} (hid : id ∈ ids) : ∃ n word, paiTokDecode tok [id] n = .ok word := by
  obtain ⟨tok₁, htok₁, hrest⟩ := bind_eq_ok htok
  obtain ⟨tok₂, htok₂, hfin⟩ := bind_eq_ok hrest
  obtain ⟨tok₂', hrun, htokens, hmerges⟩ := h.addMerges htok₁
  rw [hrun] at htok₂
  cases htok₂
  have hbuild : tok = Tok.build
      ((tokenDescriptors tokens).map (fun d => TokCall.addToken d.1 d.2) ++
        (mergeDescriptors tokens merges 0).map fun m => TokCall.addMerge m.left m.right m.result) := by
    rw [Tok.build, List.foldl_append, ← addTokens_eq_foldl htok₁, ← addMerges_eq_foldl hrun]
    exact (Except.ok.inj hfin).symm
  have hstored : tok.tokens = tok₁.tokens := by
    rw [← htokens, ← Except.ok.inj hfin]
    rfl
  have hranks : tok.merges = mergeDescriptors tokens merges 0 := by
    rw [← hmerges, ← Except.ok.inj hfin]
    rfl
  have hconcat : MergesConcat tok := by
    intro m hm
    rw [hranks] at hm
    obtain ⟨l, r, t, hl, hr, ht, htext⟩ := h m hm
    obtain ⟨tl, htl, hlid, hltext⟩ := exists_token_of_emitted htok₁ hl
    obtain ⟨tr, htr, hrid, hrtext⟩ := exists_token_of_emitted htok₁ hr
    obtain ⟨tt, htt, htid, httext⟩ := exists_token_of_emitted htok₁ ht
    rw [hstored]
    exact ⟨tl, htl, tr, htr, tt, htt, hlid, hrid, htid, by rw [httext, hltext, hrtext, htext]⟩
  have hids : ∀ t ∈ tok.tokens, t.id.toNat < 2 ^ 31 := by
    rw [hstored]
    exact id_lt_of_mem hlen htok₁
  have hsound : TokSound tok := by
    rw [hbuild] at hids hconcat ⊢
    exact tokSound_build _ hids hconcat
  have hspell := hsound.spelled_of_paiTokEncode hconcat henc
  obtain ⟨word, hword⟩ := exists_idText_of_spelled hspell id hid
  have hone : spelled tok [id] = some (word ++ []) := spelled_cons hword rfl
  rw [List.append_nil] at hone
  have hshort := length_idText_le hword
  refine ⟨256, word, ?_⟩
  rw [paiTokDecode, if_neg (by decide)]
  exact decodeLoop_of_spelled (by decide) hone (by rw [List.length_nil]; omega)

/-- The vocabulary handed to the container is closed exactly when no stored merge entry has a result
that is too long for a token text. -/
theorem vocabularyClosed_iff (tokens merges : List (List UInt8))
    (hlen : tokens.length ≤ 0x100000) :
    VocabularyClosed tokens merges ↔ NoLongMerge tokens merges := by
  constructor
  · intro h
    exact (mergesClosed_iff hlen).mp h.closed
  · intro h
    have hclosed := (mergesClosed_iff hlen).mpr h
    refine ⟨hclosed, fun tok htok => ?_, fun tok htok text cap ids henc id hid => ?_⟩
    · obtain ⟨tok', hrun, -⟩ := hclosed.addMerges htok
      exact ⟨tok', hrun⟩
    · exact hclosed.decodable hlen htok henc hid

/-- A vocabulary of two letters and their pair. -/
theorem vocabularyClosed_ab :
    VocabularyClosed [[97], [98], [97, 98]] [[97, 32, 98]] ∧
      mergeDescriptors [[97], [98], [97, 98]] [[97, 32, 98]] 0 = [⟨0, 1, 2⟩] := by
  refine ⟨(vocabularyClosed_iff _ _ (by decide)).mpr ?_, by decide⟩
  intro k entry left right l r m hget hres _
  match k with
  | 0 =>
    cases hget
    have hhalves := hres.halves
    cases hhalves
    decide

/-- A token of 300 bytes and the two tokens it is made of. -/
def longTokens : List (List UInt8) :=
  [List.replicate 200 97, List.replicate 100 98, List.replicate 200 97 ++ List.replicate 100 98]

/-- The merge of the two tokens. -/
def longMerges : List (List UInt8) := [List.replicate 200 97 ++ 32 :: List.replicate 100 98]

set_option maxRecDepth 20000 in
/-- The long token is left out, the merge that produces it is kept. -/
theorem longMerges_not_closed : ¬ VocabularyClosed longTokens longMerges := by
  intro h
  have hmerge : (⟨0, 1, 2⟩ : Merge) ∈ mergeDescriptors longTokens longMerges 0 := by decide +kernel
  obtain ⟨-, -, t, -, -, ht, -⟩ := h.closed _ hmerge
  have hids : ∀ d ∈ tokenDescriptors longTokens, d.1 ≠ 2 := by decide +kernel
  exact hids _ ht rfl

end Prospero
