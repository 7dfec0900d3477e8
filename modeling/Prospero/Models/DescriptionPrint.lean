import Prospero.Models.ImporterSound

/-!
# Printed descriptions

A model within the importer's limits, printed in the canonical line syntax (`printModel`): its lines are
directives that read back as they stand, and entered in order they are the model
(`describe_printLines`).  Its fields are printed once, so that the parser reads the model back exactly
when every line fits (`parseModel_holds_iff`).
-/

namespace Prospero.Importer

open Lexing

/-! ## Words of a printed line -/

/-- A text that is a word of a line by itself. -/
def Wordy (text : List UInt8) : Prop := text ≠ [] ∧ IsWord text

instance (text : List UInt8) : Decidable (Wordy text) := inferInstanceAs (Decidable (_ ∧ _))

lemma isWord_of_isDigit {b : UInt8} (h : isDigit b) : isWs b = false ∧ b ≠ 10 ∧ b ≠ 0 := by
  unfold isDigit at h
  simp only [Bool.and_eq_true, decide_eq_true_eq, UInt8.le_iff_toNat_le] at h
  simp only [isWs, Bool.or_eq_false_iff, decide_eq_false_iff_not, ne_eq, ← UInt8.toNat_inj]
  simp at h ⊢
  omega

lemma wordy_decimal (n : ℕ) : Wordy (decimal n) :=
  ⟨decimal_ne_nil n, fun b hb => isWord_of_isDigit (isDigit_decimal n b hb)⟩

/-- What a joined list is made of. -/
lemma mem_joined {sep b : UInt8} {pieces : List (List UInt8)} (h : b ∈ joined sep pieces) :
    b = sep ∨ ∃ piece ∈ pieces, b ∈ piece := by
  induction pieces with
  | nil => cases h
  | cons piece pieces ih =>
    cases pieces with
    | nil => exact .inr ⟨piece, List.mem_cons_self, h⟩
    | cons next pieces =>
      rw [joined, List.mem_append, List.mem_cons] at h
      · rcases h with h | rfl | h
        · exact .inr ⟨piece, List.mem_cons_self, h⟩
        · exact .inl rfl
        · rcases ih h with rfl | ⟨other, hother, hb⟩
          · exact .inl rfl
          · exact .inr ⟨other, List.mem_cons_of_mem _ hother, hb⟩
      · simp

lemma printNumbers_mem {ns : List ℕ} {b : UInt8} (h : b ∈ printNumbers ns) : b = 44 ∨ isDigit b := by
  rcases mem_joined h with rfl | ⟨piece, hpiece, hb⟩
  · exact .inl rfl
  · obtain ⟨n, -, rfl⟩ := List.mem_map.mp hpiece
    exact .inr (isDigit_decimal n b hb)

lemma wordy_printNumbers {ns : List ℕ} (h : 0 < ns.length) : Wordy (printNumbers ns) := by
  constructor
  · cases ns with
    | nil => simp at h
    | cons n ns =>
      rw [printNumbers, List.map_cons]
      cases ns with
      | nil => exact decimal_ne_nil n
      | cons m ns => simp [joined, decimal_ne_nil]
  · intro b hb
    rcases printNumbers_mem hb with rfl | hdigit
    · decide
    · exact isWord_of_isDigit hdigit

/-- The first word of a line, with a space behind it. -/
lemma nextWord_space {word : List UInt8} (h : Wordy word) (rest : List UInt8) :
    nextWord isWs (word ++ 32 :: rest) = some (word, 32 :: rest) := by
  obtain ⟨b, text, rfl⟩ := List.exists_cons_of_ne_nil h.1
  have hb : isWs b = false := (h.2 b List.mem_cons_self).1
  have hall : ∀ c ∈ b :: text, (! isWs c) = true := fun c hc => by simp [(h.2 c hc).1]
  have hspace : isWs 32 = true := by decide
  have htake : ((b :: text) ++ 32 :: rest).takeWhile (! isWs ·) = b :: text := by
    rw [List.takeWhile_append_of_pos hall]
    simp [hspace]
  have hdrop : ((b :: text) ++ 32 :: rest).dropWhile (! isWs ·) = 32 :: rest := by
    rw [List.dropWhile_append_of_pos hall]
    simp [hspace]
  rw [nextWord, List.cons_append, List.dropWhile_cons_of_neg (by simp [hb])]
  dsimp only
  rw [← List.cons_append, htake, hdrop]

/-- A space in front of a line changes nothing. -/
lemma nextWord_of_space (rest : List UInt8) : nextWord isWs (32 :: rest) = nextWord isWs rest := by
  have hspace : isWs 32 = true := by decide
  rw [nextWord, nextWord, List.dropWhile_cons_of_pos hspace]

/-- The words of a printed line. -/
lemma words_spaced {ws : List (List UInt8)} (h : ∀ w ∈ ws, Wordy w) : words isWs (spaced ws) = ws := by
  induction ws with
  | nil => exact words_nil
  | cons w ws ih =>
    have hw := h w List.mem_cons_self
    have hblank : ∀ b ∈ w, isWs b = false := fun b hb => (hw.2 b hb).1
    have hrest := ih fun other hother => h other (List.mem_cons_of_mem _ hother)
    cases ws with
    | nil =>
      have hone : words isWs (w ++ []) = w :: words isWs [] := words_append hw.1 hblank (by simp)
      rwa [List.append_nil, words_nil] at hone
    | cons next ws =>
      have hspace : isWs 32 = true := by decide
      rw [spaced, joined, words_append hw.1 hblank (by simp [hspace]), words_blank hspace]
      · exact congrArg (w :: ·) hrest
      · simp

/-- The directive of a line that opens with a key. -/
lemma readDirective_space {key : List UInt8} {k : ImpKey} (b : Buffers) (h : Wordy key)
    (hk : impKeys.lookup key = some k) (rest : List UInt8) :
    readDirective b (key ++ 32 :: rest) = arguments? b (32 :: rest) k := by
  rw [readDirective, nextWord_space h]
  simp only [Option.bind_eq_bind, Option.bind_some, hk]

lemma words_space_spaced {ws : List (List UInt8)} (h : ∀ w ∈ ws, Wordy w) :
    words isWs (32 :: spaced ws) = ws := by
  rw [words_blank (by decide), words_spaced h]

/-! ## Lists of numbers -/

lemma mapM_number_decimal {limit : ℕ} {ns : List ℕ} (h : ∀ n ∈ ns, n < limit) :
    (ns.map decimal).mapM (number? limit) = some ns := by
  induction ns with
  | nil => rfl
  | cons n ns ih =>
    rw [List.map_cons, List.mapM_cons, number_decimal (h n List.mem_cons_self),
      ih fun m hm => h m (List.mem_cons_of_mem _ hm)]
    rfl

lemma chunks_printNumbers (ns : List ℕ) : chunks 44 (printNumbers ns) = ns.map decimal := by
  refine chunks_joined (fun piece hpiece => ?_) fun piece hpiece => ?_
  · obtain ⟨n, -, rfl⟩ := List.mem_map.mp hpiece
    intro hcomma
    exact absurd (isDigit_decimal n 44 hcomma) (by decide)
  · obtain ⟨n, -, rfl⟩ := List.mem_map.mp hpiece
    exact decimal_ne_nil n

lemma ids_printNumbers {ns : List ℕ} (h : ∀ n ∈ ns, n < 0x100000000) :
    ids? .unbounded (printNumbers ns) = some ns := by
  rw [ids?, chunks_printNumbers]
  exact mapM_number_decimal h

lemma shape_printNumbers {ns : List ℕ} (h : ∀ n ∈ ns, n < 0x10000000000000000)
    (hrank : 0 < ns.length ∧ ns.length ≤ paiTensorMaxRank) :
    shape? .unbounded (91 :: printNumbers ns ++ [93]) = some ns := by
  have hmem : (93 : UInt8) ∉ printNumbers ns := by
    intro hbracket
    rcases printNumbers_mem hbracket with heq | hdigit
    · exact absurd heq (by decide)
    · exact absurd hdigit (by decide)
  rw [List.cons_append, shape?, List.dropLast_concat, if_pos ⟨rfl, by simp, hmem⟩, chunks_printNumbers]
  have hread : (ns.map decimal).mapM (fun piece => number? 0x10000000000000000 (held Buffers.unbounded.extent piece)) =
      some ns := mapM_number_decimal h
  rw [hread, Option.filter_some, if_pos (by simpa using hrank)]

/-- A list of numbers holds no arrow. -/
lemma splitArrow_printNumbers (ns : List ℕ) : splitArrow (printNumbers ns) = none := by
  cases hsplit : splitArrow (printNumbers ns) with
  | none => rfl
  | some parts =>
    obtain ⟨before, behind⟩ := parts
    have hword := splitArrow_some hsplit
    have hminus : (45 : UInt8) ∈ printNumbers ns := by
      rw [hword]
      simp
    rcases printNumbers_mem hminus with heq | hdigit
    · exact absurd heq (by decide)
    · exact absurd hdigit (by decide)

/-! ## Printed lines -/

/-- A line that the syntax reads as a directive. -/
structure Reads (line : List UInt8) (d : Directive) : Prop where
  read : readDirective .unbounded line = some d
  directive : isComment line = false
  bytes : ∀ b ∈ line, b ≠ 10 ∧ b ≠ 0

/-- A line of a key and what follows it. -/
lemma reads_space {key rest : List UInt8} {k : ImpKey} {d : Directive} (hkey : (key, k) ∈ impKeys)
    (h : arguments? .unbounded (32 :: rest) k = some d) (hbytes : ∀ b ∈ rest, b ≠ 10 ∧ b ≠ 0) :
    Reads (key ++ 32 :: rest) d := by
  have hkeys : ∀ entry ∈ impKeys, impKeys.lookup entry.1 = some entry.2 ∧
      entry.1 ≠ [] ∧ IsWord entry.1 ∧ ∀ b ∈ entry.1, b ≠ 35 := by decide +kernel
  obtain ⟨hlookup, hne, hword, hhash⟩ := hkeys _ hkey
  refine ⟨?_, ?_, ?_⟩
  · rw [readDirective_space _ ⟨hne, hword⟩ hlookup, h]
  · obtain ⟨b, text, rfl⟩ := List.exists_cons_of_ne_nil hne
    have hb := (hword b List.mem_cons_self).1
    rw [isComment, List.cons_append, List.dropWhile_cons_of_neg (by simp [hb])]
    simpa using hhash b List.mem_cons_self
  · intro b hb
    rcases List.mem_append.mp hb with hb | hb
    · exact (hword b hb).2
    · rcases List.mem_cons.mp hb with rfl | hb
      · decide
      · exact hbytes b hb

lemma spaced_bytes {ws : List (List UInt8)} (h : ∀ w ∈ ws, Wordy w) : ∀ b ∈ spaced ws, b ≠ 10 ∧ b ≠ 0 := by
  intro b hb
  rcases mem_joined hb with rfl | ⟨w, hw, hbw⟩
  · decide
  · exact ((h w hw).2 b hbw).2

/-- A line of a key and words. -/
lemma reads_spaced {key : List UInt8} {ws : List (List UInt8)} {k : ImpKey} {d : Directive}
    (hkey : (key, k) ∈ impKeys) (hne : ws ≠ []) (hws : ∀ w ∈ ws, Wordy w)
    (h : arguments? .unbounded (32 :: spaced ws) k = some d) : Reads (spaced (key :: ws)) d := by
  rw [spaced, joined]
  · exact reads_space hkey h (spaced_bytes hws)
  · exact hne

/-- A line of a key and one word. -/
lemma onlyWord_space {word : List UInt8} (h : Wordy word) :
    onlyWord? .unbounded (32 :: spaced [word]) = some word := by
  have hone : words isWs (32 :: spaced [word]) = [word] := words_space_spaced (by simpa using h)
  rw [onlyWord?, hone]
  rfl

lemma reads_name {name : List UInt8} (h : Wordy name) (hlen : name.length ≤ paiPaiNameMax) :
    Reads (spaced [literal "name", name]) (.name name) := by
  refine reads_spaced (k := .name) (by simp [impKeys]) (by simp) (by simpa using h) ?_
  rw [arguments?, onlyWord_space h, Option.filter_some, if_pos (by simpa using hlen)]
  rfl

lemma reads_family {n : ℕ} (h : n ≤ paiPaiFamilyLlm) :
    Reads (spaced [literal "family", nameOf families n]) (.family n) := by
  have hname : Wordy (nameOf families n) ∧ families.lookup (nameOf families n) = some n := by
    change n ≤ 1 at h
    interval_cases n <;> decide +kernel
  refine reads_spaced (k := .family) (by simp [impKeys]) (by simp) (by simpa using hname.1) ?_
  rw [arguments?, onlyWord_space hname.1, Option.bind_some, hname.2]
  rfl

lemma reads_field {key : List UInt8} {field : ImpField} {n : ℕ} (hkey : (key, .field field) ∈ impKeys)
    (h : n < 0x100000000) : Reads (spaced [key, decimal n]) (.field field n) := by
  refine reads_spaced hkey (by simp) (by simpa using wordy_decimal n) ?_
  rw [arguments?, onlyWord_space (wordy_decimal n), Option.bind_some, number_decimal h]
  rfl

lemma reads_token {t : ImpTok} (h : t.Within) : Reads (printToken t) (.token t) := by
  obtain ⟨c, text, htext⟩ := List.exists_cons_of_length_pos h.text.1
  have hc : isWs c = false := h.first c (by simp [htext])
  have hdrop : (32 :: t.text).dropWhile isWs = t.text := by
    rw [List.dropWhile_cons_of_pos (by decide), htext, List.dropWhile_cons_of_neg (by simp [hc])]
  have hcr : ∀ b ∈ t.text, decide (b ≠ 13) = true := fun b hb => by simp [(h.line b hb).1]
  have htake : t.text.takeWhile (fun b => decide (b ≠ 13)) = t.text := List.takeWhile_eq_self_iff.mpr hcr
  have hleft : t.text.dropWhile (fun b => decide (b ≠ 13)) = [] := List.dropWhile_eq_nil_iff.mpr hcr
  have hprint : printToken t = literal "token" ++ 32 :: (decimal t.id ++ 32 :: t.text) := rfl
  rw [hprint]
  refine reads_space (k := .token) (by simp [impKeys]) ?_ ?_
  · have hread : tokenText? (32 :: t.text) = some t.text := by
      rw [tokenText?, hdrop, htake, hleft]
      exact if_pos ⟨h.text.1, h.text.2, rfl⟩
    rw [arguments?, nextWord_of_space, nextWord_space (wordy_decimal t.id)]
    simp only [Option.bind_eq_bind, Option.bind_some]
    have hid : number? 0x100000000 (held Buffers.unbounded.word (decimal t.id)) = some t.id := number_decimal h.id
    rw [hid, Option.bind_some, hread]
    rfl
  · intro b hb
    rcases List.mem_append.mp hb with hb | hb
    · exact ((wordy_decimal t.id).2 b hb).2
    · rcases List.mem_cons.mp hb with rfl | hb
      · decide
      · exact (h.line b hb).2

lemma reads_op {o : ImpOp} (hid : o.id < 0x100000000) (h : o.Within) : Reads (printOp o) (.op o) := by
  have hkinds : ∀ k ∈ kOpKinds.map Prod.snd, opKindFromName (nameOf kOpKinds k) = some k ∧
      nameOf kOpKinds k ≠ [] ∧ ∀ b ∈ nameOf kOpKinds k, isWs b = false ∧ b ≠ 10 ∧ b ≠ 0 := by
    decide +kernel
  obtain ⟨hkind, hname⟩ := hkinds o.kind h.kind
  have harrow : Wordy (literal "->") ∧ splitArrow (literal "->") = some ([], []) := by
    decide +kernel
  have hws : ∀ w ∈ [decimal o.id, nameOf kOpKinds o.kind, printNumbers o.inputs, literal "->",
      printNumbers o.outputs], Wordy w := by
    simp only [List.mem_cons, List.not_mem_nil, or_false, forall_eq_or_imp, forall_eq]
    exact ⟨wordy_decimal _, hname, wordy_printNumbers h.inputs.1, harrow.1, wordy_printNumbers h.outputs.1⟩
  refine reads_spaced (k := .op) (by simp [impKeys]) (by simp) hws ?_
  have hins : ids? .unbounded (printNumbers o.inputs) = some o.inputs :=
    ids_printNumbers fun n hn => h.ids n (List.mem_append_left _ hn)
  have houts : ids? .unbounded (printNumbers o.outputs) = some o.outputs :=
    ids_printNumbers fun n hn => h.ids n (List.mem_append_right _ hn)
  rw [arguments?, words_space_spaced hws, Buffers.unbounded, map_held_none, ← Buffers.unbounded, op?,
    number_decimal hid, hkind]
  have hin : operand? .unbounded ⟨false, [], []⟩ (printNumbers o.inputs) = some ⟨false, o.inputs, []⟩ := by
    rw [operand?, splitArrow_printNumbers]
    dsimp only
    rw [hins]
    rfl
  have hsides : operand? .unbounded ⟨false, o.inputs, []⟩ (literal "->") = some ⟨true, o.inputs, []⟩ := by
    rw [operand?, harrow.2]
    simp [ids?]
  have hout : operand? .unbounded ⟨true, o.inputs, []⟩ (printNumbers o.outputs) =
      some ⟨true, o.inputs, o.outputs⟩ := by
    rw [operand?, splitArrow_printNumbers]
    dsimp only
    rw [houts]
    rfl
  have hfits : OpIds.fits ⟨true, o.inputs, o.outputs⟩ := by
    simp [OpIds.fits, h.inputs.1, h.inputs.2, h.outputs.1, h.outputs.2]
  simp only [List.foldlM_cons, List.foldlM_nil, hin, hsides, hout, Option.bind_eq_bind, Option.bind_some,
    Option.pure_def, Option.filter_some, if_pos hfits]

lemma reads_value {v : ImpValue} (hid : v.id < 0x100000000) (h : v.Within) :
    Reads (printValue v) (.value v) := by
  have hkinds : ∀ k ∈ List.range 4, kValueKinds.lookup (nameOf kValueKinds k) = some k ∧
      nameOf kValueKinds k ≠ [] ∧ ∀ b ∈ nameOf kValueKinds k, isWs b = false ∧ b ≠ 10 ∧ b ≠ 0 := by
    decide +kernel
  obtain ⟨hkind, hname⟩ := hkinds v.kind (List.mem_range.mpr (Nat.lt_succ_of_le h.kind))
  have hf32 : Wordy (literal "f32") := by
    decide +kernel
  have hkey : weightsKey.length = 8 ∧ ∀ b ∈ weightsKey, isWs b = false ∧ b ≠ 10 ∧ b ≠ 0 := by decide +kernel
  have hshape : Wordy (91 :: printNumbers v.shape ++ [93]) := by
    refine ⟨by simp, fun b hb => ?_⟩
    simp only [List.cons_append, List.mem_cons, List.mem_append, List.not_mem_nil, or_false] at hb
    rcases hb with rfl | hb | rfl
    · decide
    · exact (wordy_printNumbers h.rank.1).2 b hb
    · decide
  have hfile : Wordy (weightsKey ++ v.weightFile) := by
    refine ⟨fun hnil => ?_, fun b hb => ?_⟩
    · have := congrArg List.length hnil
      simp [hkey.1] at this
    · rcases List.mem_append.mp hb with hb | hb
      · exact hkey.2 b hb
      · exact h.file.2 b hb
  generalize hmore : (if v.hasWeight then [weightsKey ++ v.weightFile] else []) = more
  have hmoreWords : ∀ w ∈ more, Wordy w := by
    rw [← hmore]
    split_ifs
    · simpa using hfile
    · simp
  have hws : ∀ w ∈ decimal v.id :: literal "f32" :: (91 :: printNumbers v.shape ++ [93]) ::
      nameOf kValueKinds v.kind :: more, Wordy w := by
    simp only [List.mem_cons, forall_eq_or_imp]
    exact ⟨wordy_decimal _, hf32, hshape, hname, hmoreWords⟩
  have hline : printValue v = spaced (literal "value" :: decimal v.id :: literal "f32" ::
      (91 :: printNumbers v.shape ++ [93]) :: nameOf kValueKinds v.kind :: more) := by
    rw [printValue, hmore]
    rfl
  rw [hline]
  refine reads_spaced (k := .value) (by simp [impKeys]) (by simp) hws ?_
  rw [arguments?, words_space_spaced hws, Buffers.unbounded, map_held_none, ← Buffers.unbounded, value?,
    number_decimal hid, shape_printNumbers h.extents h.rank, hkind]
  have hweights : weights? v.kind more = some (v.weightFile, v.hasWeight) := by
    rw [← hmore]
    by_cases hweight : v.hasWeight
    · rw [if_pos hweight, weights?, if_pos]
      · rw [hweight, ← hkey.1, List.drop_left]
      · refine ⟨List.prefix_append _ _, h.weight hweight, ?_⟩
        rw [← hkey.1, List.drop_left]
        exact h.file.1
    · have hfalse : v.hasWeight = false := by simpa using hweight
      rw [if_neg hweight, weights?, h.noWeight hfalse, hfalse]
  simp only [Option.bind_eq_bind, Option.bind_some, hweights, ne_eq, not_true_eq_false, if_false, ← h.dtype]

/-! ## Printed models -/

/-- The directives of a printed model. -/
def printDirectives (m : ImpModel) : List Directive :=
  [Directive.name m.name, Directive.family m.family, Directive.field .contextLen m.contextLen,
    Directive.field .numLayers m.numLayers, Directive.field .kvBytesPerToken m.kvBytesPerToken,
    Directive.field .vocabSize m.vocabSize] ++
  m.tokens.map Directive.token ++ m.values.map Directive.value ++ m.ops.map Directive.op

lemma enter_tokens {m : ImpModel} {ts : List ImpTok} (h : m.tokens.length + ts.length ≤ paiTokMaxTokens) :
    (ts.map Directive.token).foldlM ImpModel.enter m = some { m with tokens := m.tokens ++ ts } := by
  induction ts generalizing m with
  | nil => simp
  | cons t ts ih =>
    rw [List.length_cons] at h
    rw [List.map_cons, List.foldlM_cons, ImpModel.enter, if_pos (by omega)]
    simp only [Option.bind_eq_bind, Option.bind_some]
    rw [ih (by simp only [List.length_append, List.length_cons, List.length_nil]; omega)]
    simp

lemma enter_values {m : ImpModel} {vs : List ImpValue}
    (h : m.values.length + vs.length ≤ paiGraphMaxValues)
    (hids : ∀ i (hi : i < vs.length), (vs.get ⟨i, hi⟩).id = m.values.length + i + 1) :
    (vs.map Directive.value).foldlM ImpModel.enter m = some { m with values := m.values ++ vs } := by
  induction vs generalizing m with
  | nil => simp
  | cons v vs ih =>
    rw [List.length_cons] at h
    have hid : v.id = m.values.length + 1 := hids 0 (by simp)
    rw [List.map_cons, List.foldlM_cons, ImpModel.enter, if_pos ⟨hid, by omega⟩]
    simp only [Option.bind_eq_bind, Option.bind_some]
    rw [ih (by simp only [List.length_append, List.length_cons, List.length_nil]; omega)]
    · simp
    · intro i hi
      have := hids (i + 1) (by simpa using hi)
      simp only [List.length_append, List.length_cons, List.length_nil]
      simp only [List.get_eq_getElem, List.getElem_cons_succ] at this ⊢
      omega

lemma enter_ops {m : ImpModel} {os : List ImpOp} (h : m.ops.length + os.length ≤ paiGraphMaxOps)
    (hids : ∀ i (hi : i < os.length), (os.get ⟨i, hi⟩).id = m.ops.length + i + 1) :
    (os.map Directive.op).foldlM ImpModel.enter m = some { m with ops := m.ops ++ os } := by
  induction os generalizing m with
  | nil => simp
  | cons o os ih =>
    rw [List.length_cons] at h
    have hid : o.id = m.ops.length + 1 := hids 0 (by simp)
    rw [List.map_cons, List.foldlM_cons, ImpModel.enter, if_pos ⟨hid, by omega⟩]
    simp only [Option.bind_eq_bind, Option.bind_some]
    rw [ih (by simp only [List.length_append, List.length_cons, List.length_nil]; omega)]
    · simp
    · intro i hi
      have := hids (i + 1) (by simpa using hi)
      simp only [List.length_append, List.length_cons, List.length_nil]
      simp only [List.get_eq_getElem, List.getElem_cons_succ] at this ⊢
      omega

/-- The directives of a printed model, entered in order, are the model. -/
lemma enter_printDirectives {m : ImpModel} (h : m.Within) :
    (printDirectives m).foldlM ImpModel.enter ImpModel.start = some m := by
  have hscalars : [Directive.name m.name, .family m.family, .field .contextLen m.contextLen,
      .field .numLayers m.numLayers, .field .kvBytesPerToken m.kvBytesPerToken,
      .field .vocabSize m.vocabSize].foldlM ImpModel.enter ImpModel.start =
        some { m with values := [], ops := [], tokens := [] } := rfl
  rw [printDirectives, List.foldlM_append, List.foldlM_append, List.foldlM_append, hscalars]
  simp only [Option.bind_eq_bind, Option.bind_some]
  rw [enter_tokens (by simpa using h.tokens), Option.bind_some, enter_values (by simpa using h.values)
    (by simpa using h.valueIds), Option.bind_some, enter_ops (by simpa using h.ops) (by simpa using h.opIds)]
  simp

/-- The lines of a printed model read as its directives. -/
lemma reads_printLines {m : ImpModel} (h : m.Within) :
    List.Forall₂ Reads (printLines m) (printDirectives m) := by
  have hfields := h.fields
  simp only [List.mem_cons, List.not_mem_nil, or_false, forall_eq_or_imp, forall_eq] at hfields
  have htokens : List.Forall₂ Reads (m.tokens.map printToken) (m.tokens.map .token) := by
    rw [List.forall₂_map_left_iff, List.forall₂_map_right_iff, List.forall₂_same]
    exact fun t ht => reads_token (h.token t ht)
  have hvalues : List.Forall₂ Reads (m.values.map printValue) (m.values.map .value) := by
    rw [List.forall₂_map_left_iff, List.forall₂_map_right_iff, List.forall₂_same]
    intro v hv
    obtain ⟨⟨i, hi⟩, hget⟩ := List.mem_iff_get.mp hv
    have hid := h.valueIds i hi
    have hmax : m.values.length ≤ 1024 := h.values
    refine reads_value ?_ (h.value v hv)
    rw [← hget]
    omega
  have hops : List.Forall₂ Reads (m.ops.map printOp) (m.ops.map .op) := by
    rw [List.forall₂_map_left_iff, List.forall₂_map_right_iff, List.forall₂_same]
    intro o ho
    obtain ⟨⟨i, hi⟩, hget⟩ := List.mem_iff_get.mp ho
    have hid := h.opIds i hi
    have hmax : m.ops.length ≤ 1024 := h.ops
    refine reads_op ?_ (h.op o ho)
    rw [← hget]
    omega
  refine List.rel_append (List.rel_append (List.rel_append ?_ htokens) hvalues) hops
  exact .cons (reads_name ⟨h.name.1, h.name.2.2⟩ h.name.2.1) (.cons (reads_family h.family)
    (.cons (reads_field (by simp [impKeys]) hfields.1) (.cons (reads_field (by simp [impKeys]) hfields.2.1)
      (.cons (reads_field (by simp [impKeys]) hfields.2.2.1)
        (.cons (reads_field (by simp [impKeys]) hfields.2.2.2) .nil)))))

/-- Every line that reads has its directive. -/
lemma exists_reads {lines : List (List UInt8)} {ds : List Directive} (h : List.Forall₂ Reads lines ds) :
    ∀ line ∈ lines, ∃ d, Reads line d := by
  induction h with
  | nil => simp
  | cons head _ ih =>
    intro line hline
    rcases List.mem_cons.mp hline with rfl | hline
    · exact ⟨_, head⟩
    · exact ih line hline

/-- The lines of a printed text. -/
lemma descriptionLines_printModel {m : ImpModel} (h : m.Within) :
    descriptionLines (printModel m) = printLines m := by
  have hbytes : ∀ line ∈ printLines m, ∀ b ∈ line, b ≠ 10 ∧ b ≠ 0 := by
    intro line hline
    obtain ⟨d, hd⟩ := exists_reads (reads_printLines h) line hline
    exact hd.bytes
  have htext : (printModel m).takeWhile (· ≠ 0) = printModel m := by
    refine List.takeWhile_eq_self_iff.mpr fun b hb => ?_
    obtain ⟨line, hline, hb⟩ := List.mem_flatMap.mp hb
    rcases List.mem_append.mp hb with hb | hb
    · simpa using (hbytes line hline b hb).2
    · rw [List.mem_singleton.mp hb]
      decide
  rw [descriptionLines, htext]
  exact chunks_terminated fun line hline hlf => (hbytes line hline 10 hlf).1 rfl

/-- The lines of a printed model describe it. -/
lemma describe_reads {lines : List (List UInt8)} {ds : List Directive} (h : List.Forall₂ Reads lines ds)
    (m : ImpModel) : lines.foldlM describeLine m = ds.foldlM ImpModel.enter m := by
  induction h generalizing m with
  | nil => rfl
  | cons head _ ih =>
    rw [List.foldlM_cons, List.foldlM_cons, describeLine, head.directive, head.read]
    exact congrArg _ (funext ih)

/-- A printed model describes itself. -/
lemma describe_printLines {m : ImpModel} (h : m.Within) : describe (printLines m) = some m := by
  rw [describe, describe_reads (reads_printLines h), enter_printDirectives h]

/-! ## One run, one list of directives -/

/-- A key whose directive sets a field of its own. -/
def ImpKey.scalar : ImpKey → Bool
  | .name => true
  | .family => true
  | .field _ => true
  | _ => false

/-- The field that a scalar key sets. -/
def ImpModel.scalarOf (m : ImpModel) : ImpKey → List UInt8 × ℕ
  | .name => (m.name, 0)
  | .family => ([], m.family)
  | .field .contextLen => ([], m.contextLen)
  | .field .numLayers => ([], m.numLayers)
  | .field .kvBytesPerToken => ([], m.kvBytesPerToken)
  | .field .vocabSize => ([], m.vocabSize)
  | _ => ([], 0)

/-- A directive leaves the fields of the other keys as they are. -/
lemma scalarOf_enter {m m' : ImpModel} {d : Directive} {k : ImpKey} (h : m.enter d = some m')
    (hk : k ≠ d.key) : m'.scalarOf k = m.scalarOf k := by
  cases d with
  | name text =>
    cases h
    cases k with
    | name => exact absurd rfl hk
    | field field => cases field <;> rfl
    | _ => rfl
  | family n =>
    cases h
    cases k with
    | family => exact absurd rfl hk
    | field field => cases field <;> rfl
    | _ => rfl
  | field field n =>
    cases h
    cases k with
    | field other =>
      cases field <;> cases other <;> first | rfl | exact absurd rfl hk
    | _ => cases field <;> rfl
  | value v =>
    rw [ImpModel.enter] at h
    split_ifs at h
    cases h
    cases k with
    | field field => cases field <;> rfl
    | _ => rfl
  | op o =>
    rw [ImpModel.enter] at h
    split_ifs at h
    cases h
    cases k with
    | field field => cases field <;> rfl
    | _ => rfl
  | token t =>
    rw [ImpModel.enter] at h
    split_ifs at h
    cases h
    cases k with
    | field field => cases field <;> rfl
    | _ => rfl

/-- A run leaves the fields of the keys it does not set as they are. -/
lemma scalarOf_run {m m' : ImpModel} {ds : List Directive} {k : ImpKey}
    (h : ds.foldlM ImpModel.enter m = some m') (hk : k ∉ ds.map Directive.key) :
    m'.scalarOf k = m.scalarOf k := by
  induction ds generalizing m with
  | nil =>
    cases h
    rfl
  | cons d ds ih =>
    rw [List.foldlM_cons] at h
    obtain ⟨mid, hmid, hrest⟩ := Option.bind_eq_some_iff.mp h
    rw [List.map_cons, List.mem_cons, not_or] at hk
    rw [ih hrest hk.2, scalarOf_enter hmid hk.1]

/-- Two models that one kind of directive takes to the same model are the same, where the field it sets
was the same. -/
lemma enter_left_inj {m₁ m₂ m : ImpModel} {d d' : Directive} (hkey : d.key = d'.key)
    (h : m₁.enter d = some m) (h' : m₂.enter d' = some m)
    (hsame : d.key.scalar → m₁.scalarOf d.key = m₂.scalarOf d.key) : d = d' ∧ m₁ = m₂ := by
  obtain ⟨name, family, contextLen, numLayers, kvBytes, vocabSize, values, ops, tokens⟩ := m₁
  obtain ⟨name', family', contextLen', numLayers', kvBytes', vocabSize', values', ops', tokens'⟩ := m₂
  cases d <;> cases d' <;> simp only [Directive.key, reduceCtorEq, ImpKey.field.injEq] at hkey
  case name text text' =>
    cases h
    simp_all [ImpModel.enter, Directive.key, ImpKey.scalar, ImpModel.scalarOf]
  case family n n' =>
    cases h
    simp_all [ImpModel.enter, Directive.key, ImpKey.scalar, ImpModel.scalarOf]
  case field field n field' n' =>
    subst hkey
    cases h
    cases field <;> simp_all [ImpModel.enter, ImpModel.set, Directive.key, ImpKey.scalar, ImpModel.scalarOf]
  case value v v' =>
    rw [ImpModel.enter] at h h'
    split_ifs at h h'
    cases h
    simp_all
  case op o o' =>
    rw [ImpModel.enter] at h h'
    split_ifs at h h'
    cases h
    simp_all
  case token t t' =>
    rw [ImpModel.enter] at h h'
    split_ifs at h h'
    cases h
    simp_all

/-- Runs of the same kinds of directives that set no field twice and end in the same model are the
same. -/
lemma run_inj {ds ds' : List Directive} {m₀ m : ImpModel} (hkeys : ds.map Directive.key = ds'.map Directive.key)
    (honce : ((ds.map Directive.key).filter ImpKey.scalar).Nodup)
    (h : ds.foldlM ImpModel.enter m₀ = some m) (h' : ds'.foldlM ImpModel.enter m₀ = some m) : ds = ds' := by
  induction ds using List.reverseRecOn generalizing ds' m with
  | nil => simpa using hkeys.symm
  | append_singleton ds d ih =>
    rcases List.eq_nil_or_concat ds' with rfl | ⟨ds', d', rfl⟩
    · simp at hkeys
    rw [List.concat_eq_append] at hkeys h' ⊢
    rw [List.map_append, List.map_append] at hkeys
    obtain ⟨hbefore, hlast⟩ := List.append_inj' hkeys rfl
    have hkey : d.key = d'.key := by simpa using hlast
    rw [List.foldlM_append] at h h'
    obtain ⟨m₁, hm₁, h⟩ := Option.bind_eq_some_iff.mp h
    obtain ⟨m₂, hm₂, h'⟩ := Option.bind_eq_some_iff.mp h'
    have hone : m₁.enter d = some m := by simpa using h
    have hone' : m₂.enter d' = some m := by simpa using h'
    rw [List.map_append, List.filter_append, List.nodup_append] at honce
    have hsame : d.key.scalar → m₁.scalarOf d.key = m₂.scalarOf d.key := by
      intro hscalar
      have hnot : d.key ∉ ds.map Directive.key := by
        intro hmem
        exact honce.2.2 d.key (List.mem_filter.mpr ⟨hmem, hscalar⟩) d.key (by simp [hscalar]) rfl
      rw [scalarOf_run hm₁ hnot, scalarOf_run hm₂ (hbefore ▸ hnot)]
    obtain ⟨rfl, rfl⟩ := enter_left_inj hkey hone hone' hsame
    rw [ih hbefore honce.1 hm₁ hm₂]

/-- What the code reads in lines of the syntax. -/
lemma parse_reads {lines : List (List UInt8)} {ds : List Directive} {m₀ m : ImpModel}
    (h : List.Forall₂ Reads lines ds) (hrun : lines.foldlM parseModelLine m₀ = some m) :
    ∃ ds', List.Forall₂ (fun line d => line.length < impMaxLine ∧ readDirective .importer line = some d) lines ds' ∧
      ds.map Directive.key = ds'.map Directive.key ∧ ds'.foldlM ImpModel.enter m₀ = some m := by
  induction h generalizing m₀ with
  | nil => exact ⟨[], .nil, rfl, hrun⟩
  | @cons line d lines ds head _ ih =>
    rw [List.foldlM_cons] at hrun
    obtain ⟨mid, hmid, hrest⟩ := Option.bind_eq_some_iff.mp hrun
    have hlen : line.length < impMaxLine := by
      by_contra hlong
      rw [parseModelLine, if_pos (by omega)] at hmid
      cases hmid
    rw [parseModelLine_eq (fun hlf => (head.bytes 10 hlf).1 rfl) hlen head.directive head.read] at hmid
    obtain ⟨d', hd', henter⟩ := Option.bind_eq_some_iff.mp hmid
    obtain ⟨ds', hds', hkeys, hrun'⟩ := ih hrest
    refine ⟨d' :: ds', .cons ⟨hlen, hd'⟩ hds', ?_, ?_⟩
    · rw [List.map_cons, List.map_cons, key_of_readDirective head.read hd', hkeys]
    · rw [List.foldlM_cons]
      simp only [Option.bind_eq_bind, henter, Option.bind_some, hrun']

/-- A printed model is read back exactly when its lines fit. -/
lemma parse_printModel_iff {m : ImpModel} (h : m.Within) :
    parseModel (printModel m) = some m ↔ ∀ line ∈ descriptionLines (printModel m), Fits line := by
  constructor
  · intro hparse
    rw [parseModel, descriptionLines_printModel h] at hparse
    obtain ⟨ds', hds', hkeys, hrun⟩ := parse_reads (reads_printLines h) hparse
    have honce : (((printDirectives m).map Directive.key).filter ImpKey.scalar).Nodup := by
      have htokens : (((m.tokens.map Directive.token).map Directive.key).filter ImpKey.scalar) = [] := by
        simp [Directive.key, ImpKey.scalar, List.filter_eq_nil_iff]
      have hvalues : (((m.values.map Directive.value).map Directive.key).filter ImpKey.scalar) = [] := by
        simp [Directive.key, ImpKey.scalar, List.filter_eq_nil_iff]
      have hops : (((m.ops.map Directive.op).map Directive.key).filter ImpKey.scalar) = [] := by
        simp [Directive.key, ImpKey.scalar, List.filter_eq_nil_iff]
      rw [printDirectives]
      simp only [List.map_append, List.filter_append] at htokens hvalues hops ⊢
      rw [htokens, hvalues, hops]
      simp only [List.append_nil, List.map_cons, List.map_nil, Directive.key]
      decide
    have heq := run_inj hkeys honce (enter_printDirectives h) hrun
    rw [descriptionLines_printModel h]
    have hreads := reads_printLines h
    rw [heq] at hreads
    intro line hline
    obtain ⟨⟨i, hi⟩, rfl⟩ := List.mem_iff_get.mp hline
    have hi' : i < ds'.length := hreads.length_eq ▸ hi
    have hread := hreads.get hi hi'
    have hcut := hds'.get hi hi'
    exact ⟨hcut.1, .inr ⟨_, hread.read, hcut.2⟩⟩
  · intro hfits
    have hheld : (descriptionLines (printModel m)).foldlM parseModelLine ImpModel.start =
        describe (descriptionLines (printModel m)) := heldInOrder_of_fits hfits _ List.prefix_rfl
    rw [parseModel, hheld, descriptionLines_printModel h, describe_printLines h]

/-! ## The parser -/

/-- The code holds every directive of a text it accepts, in order and in full, exactly when every line
fits; and a printed model within the limits is read back exactly when every line fits. -/
theorem parseModel_holds_iff (buf : List UInt8) (m : ImpModel) :
    (parseModel buf = some m → (HeldInOrder buf ↔ ∀ line ∈ descriptionLines buf, Fits line)) ∧
      (m.Within →
        (parseModel (printModel m) = some m ↔ ∀ line ∈ descriptionLines (printModel m), Fits line)) :=
  ⟨fun h => heldInOrder_iff h, fun h => parse_printModel_iff h⟩

/-- A model of two values, an op and a token. -/
def tinyModel : ImpModel :=
  { ImpModel.start with
    contextLen := 16
    values := [⟨1, .f32, [4], 1, literal "w.bin", true⟩, ⟨2, .f32, [4], 3, [], false⟩]
    ops := [⟨1, .relu, [1], [2]⟩]
    tokens := [⟨0, literal "a b"⟩] }

lemma tinyModel_within : tinyModel.Within where
  name := by decide +kernel
  family := by decide
  fields := by decide +kernel
  values := by decide
  valueIds := by decide +kernel
  value := by
    simp only [tinyModel, List.mem_cons, List.not_mem_nil, or_false, forall_eq_or_imp, forall_eq]
    constructor
    · constructor <;> decide +kernel
    · constructor <;> decide +kernel
  ops := by decide
  opIds := by decide +kernel
  op := by
    simp only [tinyModel, List.mem_cons, List.not_mem_nil, or_false, forall_eq]
    constructor <;> decide +kernel
  tokens := by decide
  token := by
    simp only [tinyModel, List.mem_cons, List.not_mem_nil, or_false, forall_eq]
    constructor <;> decide +kernel

/-- A printed model is accepted, and its lines fit. -/
theorem parseModel_holds_iff_tinyModel :
    (HeldInOrder (printModel tinyModel) ↔ ∀ line ∈ descriptionLines (printModel tinyModel), Fits line) ∧
      (parseModel (printModel tinyModel) = some tinyModel ↔
        ∀ line ∈ descriptionLines (printModel tinyModel), Fits line) :=
  ⟨(parseModel_holds_iff (printModel tinyModel) tinyModel).1 (by decide +kernel),
    (parseModel_holds_iff (printModel tinyModel) tinyModel).2 tinyModel_within⟩

/-- A context length of `2 ^ 32` is accepted as zero. -/
theorem parseModel_wraps :
    parseModel (literal "context 4294967296") = some ImpModel.start ∧
      ¬ HeldInOrder (literal "context 4294967296") := by
  have hcode : (descriptionLines (literal "context 4294967296")).foldlM parseModelLine ImpModel.start =
      some ImpModel.start := by decide +kernel
  have hexact : describe (descriptionLines (literal "context 4294967296")) = none := by decide +kernel
  refine ⟨hcode, fun hheld => ?_⟩
  have heq := hheld _ List.prefix_rfl
  rw [hcode, hexact] at heq
  cases heq

end Prospero.Importer
