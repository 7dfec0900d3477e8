import Mathlib.Data.List.Forall2
import Prospero.Models.TokenizerCodec
import Prospero.Pai.Container

/-!
# The codecs of the sections

The three sections with length-prefixed texts: the tokenizer blob, the tensor manifest and the metadata.
A text is stored with a length and read into a character array, and everything else takes the array for a
C string; so a stored text with a zero byte inside is accepted and comes out shorter.

### Outline

* the texts that are stored in a byte string, and what it means that an object reproduces the bytes it was
  read from;
* the tokenizer blob, the manifest and the metadata, each written and read back, and read and written back;
* `sectionCodecs_iff`, and a blob that is not reproduced.
-/

namespace Prospero

open Buffer ByteString Reader

/-! ## What is promised -/

/-- The tensor as functions on strings see it. -/
def PaiTensor.asString (t : PaiTensor) : PaiTensor := { t with name := cString t.name }

/-- The metadata as functions on strings see it. -/
def PaiMeta.asString (info : PaiMeta) : PaiMeta := { info with name := cString info.name }

/-- The texts of `n` token records from an offset on. -/
def tokenTexts (data : List UInt8) : ℕ → ℕ → List (List UInt8)
  | 0, _ => []
  | n + 1, p =>
    let len := leNat (slice data (p + 4) 1)
    slice data (p + 5) len :: tokenTexts data n (p + 5 + len)

/-- The texts stored in a tokenizer blob. -/
def storedTexts (data : List UInt8) : List (List UInt8) := tokenTexts data (leNat (slice data 8 4)) 16

/-- The names of `n` tensor records from an offset on. -/
def tensorNames (data : List UInt8) : ℕ → ℕ → List (List UInt8)
  | 0, _ => []
  | n + 1, p =>
    let len := leNat (slice data p 2)
    slice data (p + 2) len :: tensorNames data n (p + 2 + len + 72)

/-- The names stored in a manifest. -/
def storedNames (data : List UInt8) : List (List UInt8) := tensorNames data (leNat (slice data 0 4)) 4

/-- The name stored in metadata. -/
def storedName (data : List UInt8) : List UInt8 := slice data 2 (leNat (slice data 0 2))

/-- The record of a tensor with some reserved bytes. -/
def recordWith (t : PaiTensor) (pad : UInt8 × UInt8) : List UInt8 :=
  u16le (UInt16.ofNat t.name.length) ++ (t.name ++ (u32le t.valueId ++
    (t.dtype.code :: t.rank :: pad.1 :: pad.2 :: (t.shape.val.flatMap u64le ++
      (u64le t.offset ++ u64le t.sizeBytes)))))

/-- The manifest of tensors with some reserved bytes. -/
def manifestWith (tensors : List PaiTensor) (pads : List (UInt8 × UInt8)) : List UInt8 :=
  u32le (UInt32.ofNat tensors.length) ++ (List.zipWith recordWith tensors pads).flatten

/-- The metadata record with some bytes behind the name and at the end. -/
def metaWith (info : PaiMeta) (pad tail : List UInt8) : List UInt8 :=
  u16le (UInt16.ofNat info.name.length) ++ (info.name ++ (pad ++
    (u32le info.family ++ (u32le info.contextLen ++ (u32le info.numLayers ++
      (u32le info.kvBytesPerToken ++ (u32le info.vocabSize ++ (u32le info.reserved ++ tail))))))))

/-- The bytes written for the tokenizer are at the start of the byte string. -/
def TokReproduced (data : List UInt8) (tok : Tok) : Prop :=
  ∃ bytes, paiTokSerialize tok (paiTokBlobSize tok) = .ok bytes ∧ bytes <+: data

/-- The bytes written for the tensors, reserved bytes aside, are at the start of the byte string. -/
def ManifestReproduced (data : List UInt8) (tensors : List PaiTensor) : Prop :=
  ∃ pads, pads.length = tensors.length ∧ manifestWith (tensors.map PaiTensor.asString) pads <+: data

/-- The bytes written for the metadata, padding aside, are at the start of the byte string. -/
def MetaReproduced (data : List UInt8) (info : PaiMeta) : Prop :=
  ∃ pad tail, pad.length = paiPaiNameMax + 1 - (cString info.name).length ∧ tail.length = 6 ∧
    metaWith info.asString pad tail <+: data

/-- The size that `pai_pai_manifest_encode` reports. -/
def manifestSize (tensors : List PaiTensor) : ℕ :=
  4 + (tensors.map fun t => 74 + (cString t.name).length).sum

/-- What is promised of the tokenizer codec. -/
structure TokCodec (calls : List TokCall) (data : List UInt8) : Prop where
  /-- A built tokenizer is written, with the size that is reported, and read back. -/
  round_trip : ∃ bytes, paiTokSerialize (Tok.build calls) (paiTokBlobSize (Tok.build calls)) = .ok bytes ∧
    bytes.length = paiTokBlobSize (Tok.build calls) ∧ paiTokDeserialize bytes = .ok (Tok.build calls)
  /-- Only bytes of the input are read. -/
  inside : paiTokDeserialize data ≠ .error .outOfRange
  /-- What is read is written back. -/
  reproduced : ∀ tok, paiTokDeserialize data = .ok tok → TokReproduced data tok

/-- What is promised of the manifest codec. -/
structure ManifestCodec (tensors : List PaiTensor) (data : List UInt8) (maxTensors : ℕ) : Prop where
  /-- Tensors that are written are read back. -/
  round_trip : ∀ cap bytes, paiPaiManifestEncode (tensors.map PaiTensor.asString) cap = .ok bytes →
    bytes.length = manifestSize tensors ∧ ∀ max, tensors.length ≤ max →
      paiPaiManifestDecode bytes max = .ok (tensors.map PaiTensor.asString)
  /-- Only bytes of the input are read. -/
  inside : paiPaiManifestDecode data maxTensors ≠ .error .outOfRange
  /-- What is read is written back. -/
  reproduced : ∀ ts, paiPaiManifestDecode data maxTensors = .ok ts → ManifestReproduced data ts

/-- What is promised of the metadata codec. -/
structure MetaCodec (info : PaiMeta) (data : List UInt8) : Prop where
  /-- Metadata that is written is read back. -/
  round_trip : ∀ bytes, paiPaiMetaEncode info.asString = .ok bytes →
    bytes.length = paiPaiMetaSize ∧ paiPaiMetaDecode bytes = .ok info.asString
  /-- Only bytes of the input are read. -/
  inside : paiPaiMetaDecode data ≠ .error .outOfRange
  /-- What is read is written back. -/
  reproduced : ∀ info', paiPaiMetaDecode data = .ok info' → MetaReproduced data info'

/-- A tensor that the decoder accepts. -/
structure Storable (t : PaiTensor) : Prop where
  /-- There is a name. -/
  name_pos : 0 < (cString t.name).length
  /-- The name fits its array. -/
  name_lt : (cString t.name).length < paiTensorNameSize
  /-- There are extents. -/
  rank_pos : 0 < t.rank.toNat
  /-- The extents fit their array. -/
  rank_le : t.rank.toNat ≤ paiTensorMaxRank
  /-- The tensor is not empty. -/
  size_ne : t.sizeBytes ≠ 0

/-! ## Texts with a zero byte -/

lemma cString_eq_self_iff {text : List UInt8} : cString text = text ↔ 0 ∉ text := by
  rw [cString, List.takeWhile_eq_self_iff]
  constructor
  · exact fun h hmem => absurd rfl (of_decide_eq_true (h 0 hmem))
  · exact fun h b hb => decide_eq_true fun h0 => h (h0 ▸ hb)

lemma length_cString_le (text : List UInt8) : (cString text).length ≤ text.length :=
  (List.takeWhile_prefix _).length_le

/-- A C string as long as the text is the text. -/
lemma notMem_of_length {text : List UInt8} (h : (cString text).length = text.length) : 0 ∉ text :=
  cString_eq_self_iff.mp ((List.takeWhile_prefix _).eq_of_length h)

lemma cString_cString (text : List UInt8) : cString (cString text) = cString text :=
  cString_eq_self_iff.mpr fun h => not_mem_take_cString text (cString text).length
    (by rwa [List.take_length])

/-! ## Writing a tokenizer and reading it back -/

/-- What a built tokenizer has beyond `TokInv`, and what makes it possible to build it again. -/
structure Rebuildable (tok : Tok) : Prop extends TokInv tok where
  /-- The vocabulary has room. -/
  tokens_le : tok.tokens.length ≤ paiTokMaxTokens
  /-- The merge rules have room. -/
  merges_le : tok.merges.length ≤ paiTokMaxMerges
  /-- Merge rules merge ids of the vocabulary. -/
  merge_ids : ∀ m ∈ tok.merges, tok.tokens.any (fun t => t.id == m.left) = true ∧
    tok.tokens.any (fun t => t.id == m.right) = true
  /-- `max_id` bounds the results. -/
  result_le : ∀ m ∈ tok.merges, m.result ≤ tok.maxId

/-- A token is added when it is new and there is room. -/
lemma paiTokAddToken_eq {tok : Tok} (t : Token) (hnew : ∀ u ∈ tok.tokens, u.id ≠ t.id)
    (hroom : tok.tokens.length < paiTokMaxTokens) :
    paiTokAddToken tok t.id t.text = ({ tok with
      tokens := tok.tokens ++ [t]
      maxId := raiseTo tok.maxId t.id }, paiOk) := by
  have hself : cString t.text = t.text := cString_eq_self_iff.mpr t.no_nul
  have hpos := t.nonempty
  have hshort := t.short
  have hmax : paiTokMaxTokenLen = 255 := rfl
  have hmod : t.text.length % 0x100000000 = t.text.length := Nat.mod_eq_of_lt (by omega)
  have hany : ¬ tok.tokens.any (fun u => u.id == t.id) = true := by
    rw [List.any_eq_true]
    rintro ⟨u, hu, hid⟩
    exact hnew u hu (beq_iff_eq.mp hid)
  unfold paiTokAddToken
  dsimp only
  rw [dif_neg (by rw [hself, hmod]; omega), if_neg hany, if_neg (by omega)]
  have htoken : ∀ h₁ h₂ h₃, (⟨t.id, (cString t.text).take ((cString t.text).length % 0x100000000),
      h₁, h₂, h₃⟩ : Token) = t := by
    rw [hself, hmod, List.take_length]
    exact fun _ _ _ => rfl
  rw [htoken]

/-- A merge rule is added when its ids are there and there is room. -/
lemma paiTokAddMerge_eq {tok : Tok} (m : Merge)
    (hids : tok.tokens.any (fun t => t.id == m.left) = true ∧
      tok.tokens.any (fun t => t.id == m.right) = true)
    (hroom : tok.merges.length < paiTokMaxMerges) :
    paiTokAddMerge tok m.left m.right m.result = ({ tok with
      merges := tok.merges ++ [m]
      maxId := raiseTo tok.maxId m.result }, paiOk) := by
  unfold paiTokAddMerge
  dsimp only
  rw [hids.1, hids.2, if_neg (by decide), if_neg (by omega)]

lemma rebuildable_init : Rebuildable paiTokInit where
  toTokInv := tokInv_init
  tokens_le := Nat.zero_le _
  merges_le := Nat.zero_le _
  merge_ids := fun _ hm => absurd hm List.not_mem_nil
  result_le := fun _ hm => absurd hm List.not_mem_nil

/-- One building call keeps a tokenizer rebuildable. -/
lemma Rebuildable.step {tok : Tok} (h : Rebuildable tok) (call : TokCall) : Rebuildable (tok.step call) := by
  have hinv := h.toTokInv.step call
  cases call with
  | addToken id text =>
    rw [Tok.step] at hinv ⊢
    unfold paiTokAddToken at hinv ⊢
    dsimp only at hinv ⊢
    split_ifs at hinv ⊢ with hlen hany hfull
    · exact h
    · exact h
    · exact h
    · refine ⟨hinv, ?_, h.merges_le, fun m hm => ?_, fun m hm => ?_⟩
      · rw [List.length_append, List.length_singleton]
        omega
      · obtain ⟨hleft, hright⟩ := h.merge_ids m hm
        dsimp only
        rw [List.any_append, List.any_append, hleft, hright]
        exact ⟨rfl, rfl⟩
      · exact UInt32.le_trans (h.result_le m hm) (le_raiseTo _ _).1
  | addMerge left right result =>
    rw [Tok.step] at hinv ⊢
    unfold paiTokAddMerge at hinv ⊢
    dsimp only at hinv ⊢
    split_ifs at hinv ⊢ with hmissing hfull
    · exact h
    · exact h
    · refine ⟨hinv, h.tokens_le, ?_, fun m hm => ?_, fun m hm => ?_⟩
      · rw [List.length_append, List.length_singleton]
        omega
      · obtain hm | hm := List.mem_append.mp hm
        · exact h.merge_ids m hm
        · obtain rfl := List.mem_singleton.mp hm
          simpa using hmissing
      · obtain hm | hm := List.mem_append.mp hm
        · exact UInt32.le_trans (h.result_le m hm) (le_raiseTo _ _).1
        · obtain rfl := List.mem_singleton.mp hm
          exact (le_raiseTo _ _).2
  | finalize => exact ⟨hinv, h.tokens_le, h.merges_le, h.merge_ids, h.result_le⟩

/-- Every sequence of building calls leaves a rebuildable tokenizer. -/
lemma Rebuildable.run {tok : Tok} (h : Rebuildable tok) (calls : List TokCall) :
    Rebuildable (calls.foldl Tok.step tok) := by
  induction calls generalizing tok with
  | nil => exact h
  | cons call calls ih => exact ih (h.step call)

lemma length_tokenBytes (t : Token) : (tokenBytes t).length = 5 + t.text.length := by
  rw [tokenBytes, List.length_append, length_leBytes, List.length_cons]
  omega

lemma length_flatMap_tokenBytes (tokens : List Token) :
    (tokens.flatMap tokenBytes).length = (tokens.map fun t => 5 + t.text.length).sum := by
  rw [List.length_flatMap]
  exact congrArg List.sum (List.map_congr_left fun t _ => length_tokenBytes t)

lemma length_flatMap_mergeBytes (merges : List Merge) :
    (merges.flatMap mergeBytes).length = merges.length * 12 := by
  induction merges with
  | nil => rfl
  | cons m merges ih =>
    rw [List.flatMap_cons, List.length_append, ih, mergeBytes, List.length_append, List.length_append,
      length_leBytes, length_leBytes, length_leBytes, List.length_cons]
    omega

lemma sum_tokens_le (tokens : List Token) :
    (tokens.map fun t => 5 + t.text.length).sum ≤ tokens.length * 260 := by
  induction tokens with
  | nil => exact Nat.le_refl _
  | cons t tokens ih =>
    have hshort := t.short
    have hmax : paiTokMaxTokenLen = 255 := rfl
    rw [List.map_cons, List.sum_cons, List.length_cons]
    omega

/-- The bytes of a tokenizer. -/
def tokBlob (tokens : List UInt8) (numTokens : ℕ) (merges : List Merge) : List UInt8 :=
  u32le paiTokMagic ++ (u32le paiTokVersion ++ (u32le (UInt32.ofNat numTokens) ++
    (u32le (UInt32.ofNat merges.length) ++ (tokens ++ merges.flatMap mergeBytes))))

lemma length_tokBlob (tokens : List UInt8) (numTokens : ℕ) (merges : List Merge) :
    (tokBlob tokens numTokens merges).length = 16 + tokens.length + merges.length * 12 := by
  rw [tokBlob]
  simp only [List.length_append, length_leBytes, length_flatMap_mergeBytes]
  omega

/-- A tokenizer with room is written, with the size that is reported. -/
lemma paiTokSerialize_eq {tok : Tok} (htokens : tok.tokens.length ≤ paiTokMaxTokens)
    (hmerges : tok.merges.length ≤ paiTokMaxMerges) :
    paiTokSerialize tok (paiTokBlobSize tok) =
        .ok (tokBlob (tok.tokens.flatMap tokenBytes) tok.tokens.length tok.merges) ∧
      (tokBlob (tok.tokens.flatMap tokenBytes) tok.tokens.length tok.merges).length =
        paiTokBlobSize tok := by
  have hsum := sum_tokens_le tok.tokens
  have hmaxTokens : paiTokMaxTokens = 65536 := rfl
  have hmaxMerges : paiTokMaxMerges = 8192 := rfl
  have hsize : paiTokBlobSize tok =
      16 + (tok.tokens.map fun t => 5 + t.text.length).sum + tok.merges.length * 12 := by
    unfold paiTokBlobSize
    dsimp only
    rw [if_neg (by omega)]
  constructor
  · unfold paiTokSerialize
    dsimp only
    rw [if_neg (by omega)]
    rfl
  · rw [length_tokBlob, length_flatMap_tokenBytes, hsize]

/-- Stored tokens are read back. -/
lemma readTokens_of_holds {data rest : List UInt8} {tokens : List Token} {p : ℕ} {tok : Tok}
    (hholds : Holds data p (tokens.flatMap tokenBytes ++ rest))
    (hids : (tok.tokens ++ tokens).Pairwise fun a b => a.id ≠ b.id)
    (hroom : (tok.tokens ++ tokens).length ≤ paiTokMaxTokens) :
    ∃ q, readTokens data tokens.length p tok = .ok ({ tok with
        tokens := tok.tokens ++ tokens
        maxId := tokens.foldl (fun maxId t => raiseTo maxId t.id) tok.maxId }, q) ∧
      Holds data q rest := by
  induction tokens generalizing p tok with
  | nil =>
    refine ⟨p, ?_, hholds⟩
    rw [List.append_nil]
    rfl
  | cons t tokens ih =>
    have hpos := t.nonempty
    have hshort := t.short
    have hmax : paiTokMaxTokenLen = 255 := rfl
    have hbyte : (UInt8.ofNat t.text.length).toNat = t.text.length := by
      rw [UInt8.toNat_ofNat']
      exact Nat.mod_eq_of_lt (by omega)
    rw [List.flatMap_cons, List.append_assoc, tokenBytes, List.append_assoc, List.cons_append] at hholds
    have hlen := hholds.1
    obtain ⟨hid, hholds⟩ := hholds.u32 (ε := PaiStatus)
    obtain ⟨hcount, hholds⟩ := hholds.u8 (ε := PaiStatus)
    obtain ⟨htext, hholds⟩ := hholds.split
    simp only [List.length_append, List.length_cons, length_leBytes] at hlen
    have hnew : ∀ u ∈ tok.tokens, u.id ≠ t.id := fun u hu =>
      (List.pairwise_append.mp hids).2.2 u hu t List.mem_cons_self
    have hadd := paiTokAddToken_eq t hnew (by
      rw [List.length_append, List.length_cons] at hroom
      omega)
    have hassoc : tok.tokens ++ t :: tokens = tok.tokens ++ [t] ++ tokens := by
      rw [List.append_assoc, List.singleton_append]
    obtain ⟨q, hrun, hq⟩ := @ih (p + 4 + 1 + t.text.length) { tok with
      tokens := tok.tokens ++ [t]
      maxId := raiseTo tok.maxId t.id } hholds (hassoc ▸ hids) (hassoc ▸ hroom)
    refine ⟨q, ?_, hq⟩
    rw [List.length_cons, readTokens, refuse_bind _ (by omega), hid, ok_bind, hcount, ok_bind, hbyte,
      refuse_bind _ (by
        rintro (hz | hlong | hshortage)
        · rw [hz] at hbyte
          change 0 = _ at hbyte
          omega
        · omega
        · omega),
      bytesAt_of_holds htext rfl, ok_bind, hadd, tokCall, if_neg (fun h => h rfl), ok_bind, hrun, hassoc]
    rfl

/-- Stored merge rules are read back. -/
lemma readMerges_of_holds {data rest : List UInt8} {merges : List Merge} {p : ℕ} {tok : Tok}
    (hholds : Holds data p (merges.flatMap mergeBytes ++ rest))
    (hids : ∀ m ∈ merges, tok.tokens.any (fun t => t.id == m.left) = true ∧
      tok.tokens.any (fun t => t.id == m.right) = true)
    (hroom : (tok.merges ++ merges).length ≤ paiTokMaxMerges) :
    readMerges data merges.length p tok = .ok { tok with
      merges := tok.merges ++ merges
      maxId := merges.foldl (fun maxId m => raiseTo maxId m.result) tok.maxId } := by
  induction merges generalizing p tok with
  | nil =>
    rw [List.append_nil]
    rfl
  | cons m merges ih =>
    rw [List.flatMap_cons, List.append_assoc, mergeBytes, List.append_assoc, List.append_assoc] at hholds
    have hlen := hholds.1
    obtain ⟨hleft, hholds⟩ := hholds.u32 (ε := PaiStatus)
    obtain ⟨hright, hholds⟩ := hholds.u32 (ε := PaiStatus)
    obtain ⟨hresult, hholds⟩ := hholds.u32 (ε := PaiStatus)
    simp only [List.length_append, length_leBytes] at hlen
    have hadd := paiTokAddMerge_eq m (hids m List.mem_cons_self) (by
      rw [List.length_append, List.length_cons] at hroom
      omega)
    have hassoc : tok.merges ++ m :: merges = tok.merges ++ [m] ++ merges := by
      rw [List.append_assoc, List.singleton_append]
    have hrun := @ih (p + 4 + 4 + 4) { tok with
      merges := tok.merges ++ [m]
      maxId := raiseTo tok.maxId m.result } hholds (fun m' hm' => hids m' (List.mem_cons_of_mem _ hm'))
      (hassoc ▸ hroom)
    rw [List.length_cons, readMerges, refuse_bind _ (by omega), hleft, ok_bind, hright, ok_bind, hresult,
      ok_bind, hadd, tokCall, if_neg (fun h => h rfl), ok_bind, hrun, hassoc]
    rfl

/-- The largest of some ids and a bound. -/
lemma foldl_raiseTo {α : Type} (f : α → UInt32) (l : List α) (maxId : UInt32) :
    maxId ≤ l.foldl (fun b a => raiseTo b (f a)) maxId ∧
      (∀ a ∈ l, f a ≤ l.foldl (fun b a => raiseTo b (f a)) maxId) ∧
      (l.foldl (fun b a => raiseTo b (f a)) maxId = maxId ∨
        ∃ a ∈ l, f a = l.foldl (fun b a => raiseTo b (f a)) maxId) := by
  induction l generalizing maxId with
  | nil => exact ⟨UInt32.le_refl _, fun a ha => absurd ha List.not_mem_nil, Or.inl rfl⟩
  | cons a l ih =>
    obtain ⟨hle, hmem, hcases⟩ := ih (raiseTo maxId (f a))
    obtain ⟨hold, hnew⟩ := le_raiseTo maxId (f a)
    rw [List.foldl_cons]
    refine ⟨UInt32.le_trans hold hle, fun b hb => ?_, ?_⟩
    · obtain rfl | hb := List.mem_cons.mp hb
      · exact UInt32.le_trans hnew hle
      · exact hmem b hb
    · obtain heq | ⟨b, hb, heq⟩ := hcases
      · obtain hraise | hraise := raiseTo_eq maxId (f a)
        · exact Or.inr ⟨a, List.mem_cons_self, by rw [heq, hraise]⟩
        · exact Or.inl (by rw [heq, hraise])
      · exact Or.inr ⟨b, List.mem_cons_of_mem _ hb, heq⟩

/-- Vocabulary and merge rules determine `max_id`. -/
lemma Rebuildable.maxId_eq {tok : Tok} (h : Rebuildable tok) :
    tok.merges.foldl (fun maxId m => raiseTo maxId m.result)
      (tok.tokens.foldl (fun maxId t => raiseTo maxId t.id) 0) = tok.maxId := by
  obtain ⟨htokens, htokenMem, htokenCases⟩ := foldl_raiseTo Token.id tok.tokens 0
  obtain ⟨hmerges, hmergeMem, hmergeCases⟩ := foldl_raiseTo Merge.result tok.merges
    (tok.tokens.foldl (fun maxId t => raiseTo maxId t.id) 0)
  apply UInt32.le_antisymm
  · obtain heq | ⟨m, hm, heq⟩ := hmergeCases
    · rw [heq]
      obtain heq | ⟨t, ht, heq⟩ := htokenCases
      · rw [heq]
        exact UInt32.le_iff_toNat_le.mpr (Nat.zero_le _)
      · rw [← heq]
        exact h.le_maxId t ht
    · rw [← heq]
      exact h.result_le m hm
  · obtain heq | ⟨t, ht, heq⟩ | ⟨m, hm, heq⟩ := h.maxId_mem
    · rw [heq]
      exact UInt32.le_iff_toNat_le.mpr (Nat.zero_le _)
    · rw [← heq]
      exact UInt32.le_trans (htokenMem t ht) hmerges
    · rw [← heq]
      exact hmergeMem m hm

/-- A rebuildable tokenizer is written and read back, finalized. -/
lemma paiTokDeserialize_tokBlob {tok : Tok} (h : Rebuildable tok) :
    paiTokDeserialize (tokBlob (tok.tokens.flatMap tokenBytes) tok.tokens.length tok.merges) =
      .ok (paiTokFinalize tok) := by
  have htokens := h.tokens_le
  have hmerges := h.merges_le
  have hmaxTokens : paiTokMaxTokens = 65536 := rfl
  have hmaxMerges : paiTokMaxMerges = 8192 := rfl
  obtain ⟨blob, hblob⟩ : ∃ blob, blob =
    tokBlob (tok.tokens.flatMap tokenBytes) tok.tokens.length tok.merges := ⟨_, rfl⟩
  have hlen : 16 ≤ blob.length := by
    rw [hblob, length_tokBlob]
    omega
  have hholds := holds_self blob
  nth_rewrite 2 [hblob] at hholds
  rw [tokBlob] at hholds
  obtain ⟨hmagic, hholds⟩ := hholds.u32 (ε := PaiStatus)
  obtain ⟨hversion, hholds⟩ := hholds.u32 (ε := PaiStatus)
  obtain ⟨hcount, hholds⟩ := hholds.u32 (ε := PaiStatus)
  obtain ⟨hcount', hholds⟩ := hholds.u32 (ε := PaiStatus)
  have hnumTokens : (UInt32.ofNat tok.tokens.length).toNat = tok.tokens.length :=
    UInt32.toNat_ofNat_of_lt' (by change _ < 2 ^ 32; omega)
  have hnumMerges : (UInt32.ofNat tok.merges.length).toNat = tok.merges.length :=
    UInt32.toNat_ofNat_of_lt' (by change _ < 2 ^ 32; omega)
  obtain ⟨q, hread, hrest⟩ := @readTokens_of_holds _ _ _ _ paiTokInit hholds
    (by rw [show paiTokInit.tokens = [] from rfl, List.nil_append]; exact h.nodup)
    (by rw [show paiTokInit.tokens = [] from rfl, List.nil_append]; exact htokens)
  rw [show paiTokInit.tokens = [] from rfl, List.nil_append] at hread
  rw [← List.append_nil (tok.merges.flatMap mergeBytes)] at hrest
  have hreadMerges := @readMerges_of_holds _ _ _ _ { paiTokInit with
      tokens := tok.tokens
      maxId := tok.tokens.foldl (fun maxId t => raiseTo maxId t.id) paiTokInit.maxId } hrest h.merge_ids
    (by rw [show paiTokInit.merges = [] from rfl, List.nil_append]; exact hmerges)
  rw [show paiTokInit.merges = [] from rfl, List.nil_append] at hreadMerges
  rw [← hblob, paiTokDeserialize, refuse_bind _ (by omega), hmagic, ok_bind, hversion, ok_bind,
    refuse_bind _ (by simp), hcount, ok_bind, hcount', ok_bind, hnumTokens, hnumMerges,
    refuse_bind _ (by omega), hread, ok_bind]
  dsimp only
  rw [hreadMerges, ok_bind]
  refine congrArg Except.ok ?_
  dsimp only [paiTokFinalize]
  rw [show paiTokInit.maxId = 0 from rfl, h.maxId_eq]

/-- A built tokenizer is written and read back. -/
lemma tok_round_trip (calls : List TokCall) :
    ∃ bytes, paiTokSerialize (Tok.build calls) (paiTokBlobSize (Tok.build calls)) = .ok bytes ∧
      bytes.length = paiTokBlobSize (Tok.build calls) ∧ paiTokDeserialize bytes = .ok (Tok.build calls) := by
  have h : Rebuildable (Tok.build calls) := (rebuildable_init.run calls).step .finalize
  obtain ⟨hwritten, hlen⟩ := @paiTokSerialize_eq (Tok.build calls) h.tokens_le h.merges_le
  exact ⟨_, hwritten, hlen, paiTokDeserialize_tokBlob h⟩

/-! ## Reading a tokenizer and writing it back -/

/-- The call of a builder reads nothing. -/
lemma post_tokCall {r : Tok × PaiStatus} : Post (tokCall r) fun tok => tok = r.1 ∧ r.2 = paiOk := by
  unfold tokCall
  split_ifs with hst
  · trivial
  · exact ⟨rfl, not_not.mp hst⟩

lemma post_readTokens (data : List UInt8) (n p : ℕ) (tok : Tok) :
    Post (readTokens data n p tok) fun _ => True := by
  induction n generalizing p tok with
  | zero => exact trivial
  | succ n ih =>
    rw [readTokens]
    refine post_refuse_bind fun hroom => ?_
    refine Post.bind (post_u32At (by omega)) fun id _ _ => ?_
    refine Post.bind (post_u8At (by omega)) fun len _ _ => ?_
    refine post_refuse_bind fun hlen => ?_
    refine Post.bind (post_bytesAt (by omega)) fun text _ _ => ?_
    exact Post.bind post_tokCall fun tok' _ _ => ih _ _

lemma post_readMerges (data : List UInt8) (n p : ℕ) (tok : Tok) :
    Post (readMerges data n p tok) fun _ => True := by
  induction n generalizing p tok with
  | zero => exact trivial
  | succ n ih =>
    rw [readMerges]
    refine post_refuse_bind fun hroom => ?_
    refine Post.bind (post_u32At (by omega)) fun left _ _ => ?_
    refine Post.bind (post_u32At (by omega)) fun right _ _ => ?_
    refine Post.bind (post_u32At (by omega)) fun result _ _ => ?_
    exact Post.bind post_tokCall fun tok' _ _ => ih _ _

/-- Tokenizers are read inside their input. -/
lemma post_paiTokDeserialize (data : List UInt8) : Post (paiTokDeserialize data) fun _ => True := by
  rw [paiTokDeserialize]
  refine post_refuse_bind fun hlen => ?_
  refine Post.bind (post_u32At (by omega)) fun magic _ _ => ?_
  refine Post.bind (post_u32At (by omega)) fun version _ _ => ?_
  refine post_refuse_bind fun _ => ?_
  refine Post.bind (post_u32At (by omega)) fun numTokens _ _ => ?_
  refine Post.bind (post_u32At (by omega)) fun numMerges _ _ => ?_
  refine post_refuse_bind fun _ => ?_
  refine Post.bind (post_readTokens _ _ _ _) fun r _ _ => ?_
  exact Post.bind (post_readMerges _ _ _ _) fun _ _ _ => trivial

/-- The record of an id and a text. -/
def storedToken (r : UInt32 × List UInt8) : List UInt8 := u32le r.1 ++ (UInt8.ofNat r.2.length :: r.2)

/-- The token that a record becomes. -/
def TokenOf (r : UInt32 × List UInt8) (t : Token) : Prop :=
  t.id = r.1 ∧ t.text = cString r.2 ∧ r.2.length ≤ paiTokMaxTokenLen

/-- A token that is added, from a text of a token's length. -/
lemma token_of_add {tok : Tok} {id : UInt32} {text : List UInt8} (hlen : text.length ≤ paiTokMaxTokenLen)
    (h : (paiTokAddToken tok id text).2 = paiOk) :
    ∃ t, TokenOf (id, text) t ∧ (paiTokAddToken tok id text).1.tokens = tok.tokens ++ [t] ∧
      (paiTokAddToken tok id text).1.merges = tok.merges := by
  have hmax : paiTokMaxTokenLen = 255 := rfl
  have hinvalid : paiErrInvalidArg ≠ paiOk := by decide
  have hnomem : paiErrNomem ≠ paiOk := by decide
  have hle := length_cString_le text
  have hmod : (cString text).length % 0x100000000 = (cString text).length := Nat.mod_eq_of_lt (by omega)
  unfold paiTokAddToken at h ⊢
  dsimp only at h ⊢
  split_ifs at h ⊢ with hshort hany hfull
  · exact absurd h hinvalid
  · exact absurd h hinvalid
  · exact absurd h hnomem
  · refine ⟨_, ⟨rfl, ?_, hlen⟩, rfl, rfl⟩
    dsimp only
    rw [hmod, List.take_length]

/-- What the token loop read. -/
lemma stored_of_readTokens {data : List UInt8} {n p q : ℕ} {tok tok' : Tok}
    (h : readTokens data n p tok = .ok (tok', q)) (hp : p ≤ data.length) :
    ∃ records tokens, records.map Prod.snd = tokenTexts data n p ∧
      Holds data p (records.flatMap storedToken) ∧ q = p + (records.flatMap storedToken).length ∧
      List.Forall₂ TokenOf records tokens ∧ tok'.tokens = tok.tokens ++ tokens ∧
      tok'.merges = tok.merges ∧ records.length = n := by
  induction n generalizing p tok with
  | zero =>
    cases h
    exact ⟨[], [], rfl, ⟨by rw [List.flatMap_nil, List.length_nil]; exact hp, rfl⟩, rfl, .nil,
      (List.append_nil _).symm, rfl, rfl⟩
  | succ n ih =>
    rw [readTokens] at h
    obtain ⟨hroom, h⟩ := refuse_bind_eq_ok h
    obtain ⟨id, hid, h⟩ := bind_eq_ok h
    obtain ⟨len, hlen, h⟩ := bind_eq_ok h
    obtain ⟨hlong, h⟩ := refuse_bind_eq_ok h
    obtain ⟨text, htext, h⟩ := bind_eq_ok h
    obtain ⟨tok₁, hcall, h⟩ := bind_eq_ok h
    obtain ⟨rfl, hok⟩ := post_tokCall.of_ok hcall
    obtain ⟨hslice, htextLen, htext⟩ := holds_of_bytesAt htext
    have hcount := holds_of_u8At hlen
    obtain ⟨t, htoken, htokens, hmerges⟩ := token_of_add (by omega) hok
    obtain ⟨records, tokens, htexts, hholds, rfl, hall, htokens', hmerges', hrecords⟩ := ih h (by omega)
    -- the length byte is the length of the text
    have hbyte : UInt8.ofNat text.length = len := by rw [htextLen, UInt8.ofNat_toNat]
    have hstored : leNat (slice data (p + 4) 1) = len.toNat := by
      obtain ⟨-, hone⟩ := hcount
      rw [List.length_singleton] at hone
      rw [hone]
      change len.toNat + 256 * 0 = _
      omega
    have hrecord : Holds data p (storedToken (id, text)) := by
      rw [storedToken, hbyte]
      refine (holds_of_u32At hid).append ?_
      rw [length_leBytes]
      exact @Holds.append data [len] text (p + 4) hcount htext
    have hsize : (storedToken (id, text)).length = 5 + len.toNat := by
      rw [storedToken, List.length_append, length_leBytes, List.length_cons, htextLen]
      omega
    refine ⟨(id, text) :: records, t :: tokens, ?_, ?_, ?_, .cons htoken hall, ?_,
      hmerges'.trans hmerges, by rw [List.length_cons, hrecords]⟩
    · rw [List.map_cons, htexts, tokenTexts]
      dsimp only
      rw [hstored, hslice]
    · rw [List.flatMap_cons]
      refine hrecord.append ?_
      rw [hsize, ← Nat.add_assoc]
      exact hholds
    · rw [List.flatMap_cons, List.length_append, hsize]
      omega
    · rw [htokens', htokens, List.append_assoc, List.singleton_append]

/-- What the merge loop read. -/
lemma stored_of_readMerges {data : List UInt8} {n p : ℕ} {tok tok' : Tok}
    (h : readMerges data n p tok = .ok tok') (hp : p ≤ data.length) :
    ∃ merges, Holds data p (merges.flatMap mergeBytes) ∧ tok'.tokens = tok.tokens ∧
      tok'.merges = tok.merges ++ merges ∧ merges.length = n := by
  induction n generalizing p tok with
  | zero =>
    cases h
    exact ⟨[], ⟨by rw [List.flatMap_nil, List.length_nil]; exact hp, rfl⟩, rfl,
      (List.append_nil _).symm, rfl⟩
  | succ n ih =>
    rw [readMerges] at h
    obtain ⟨hroom, h⟩ := refuse_bind_eq_ok h
    obtain ⟨left, hleft, h⟩ := bind_eq_ok h
    obtain ⟨right, hright, h⟩ := bind_eq_ok h
    obtain ⟨result, hresult, h⟩ := bind_eq_ok h
    obtain ⟨tok₁, hcall, h⟩ := bind_eq_ok h
    obtain ⟨rfl, hok⟩ := post_tokCall.of_ok hcall
    have hadd : (paiTokAddMerge tok left right result).1.tokens = tok.tokens ∧
        (paiTokAddMerge tok left right result).1.merges = tok.merges ++ [⟨left, right, result⟩] := by
      have hinvalid : paiErrInvalidArg ≠ paiOk := by decide
      have hnomem : paiErrNomem ≠ paiOk := by decide
      unfold paiTokAddMerge at hok ⊢
      dsimp only at hok ⊢
      split_ifs at hok ⊢ with hmissing hfull
      · exact absurd hok hinvalid
      · exact absurd hok hnomem
      · exact ⟨rfl, rfl⟩
    obtain ⟨merges, hholds, htokens, hmerges, hlen⟩ := ih h (by omega)
    have hrecord : Holds data p (mergeBytes ⟨left, right, result⟩) := by
      rw [mergeBytes]
      refine (holds_of_u32At hleft).append ?_
      rw [length_leBytes]
      refine (holds_of_u32At hright).append ?_
      rw [length_leBytes]
      exact holds_of_u32At hresult
    refine ⟨⟨left, right, result⟩ :: merges, ?_, htokens.trans hadd.1, ?_, by rw [List.length_cons, hlen]⟩
    · rw [List.flatMap_cons]
      refine hrecord.append ?_
      rw [mergeBytes, List.length_append, List.length_append, length_leBytes, length_leBytes,
        length_leBytes]
      exact hholds
    · rw [hmerges, hadd.2, List.append_assoc, List.singleton_append]

/-- The number in a held field. -/
lemma leNat_of_holds_u32 {data : List UInt8} {off : ℕ} {v : UInt32} (h : Holds data off (u32le v)) :
    leNat (slice data off 4) = v.toNat := by
  obtain ⟨-, hslice⟩ := h
  rw [length_leBytes] at hslice
  rw [hslice]
  exact leNat_leBytes_of_lt v.toNat_lt

/-- What an accepted blob is, and what was read from it. -/
lemma stored_of_deserialize {data : List UInt8} {tok : Tok} (h : paiTokDeserialize data = .ok tok) :
    ∃ records, records.map Prod.snd = storedTexts data ∧
      tokBlob (records.flatMap storedToken) tok.tokens.length tok.merges <+: data ∧
      List.Forall₂ TokenOf records tok.tokens ∧ tok.tokens.length ≤ paiTokMaxTokens ∧
      tok.merges.length ≤ paiTokMaxMerges := by
  rw [paiTokDeserialize] at h
  obtain ⟨hshort, h⟩ := refuse_bind_eq_ok h
  obtain ⟨magic, hmagic, h⟩ := bind_eq_ok h
  obtain ⟨version, hversion, h⟩ := bind_eq_ok h
  obtain ⟨hkind, h⟩ := refuse_bind_eq_ok h
  obtain ⟨numTokens, htokens, h⟩ := bind_eq_ok h
  obtain ⟨numMerges, hmerges, h⟩ := bind_eq_ok h
  obtain ⟨hroom, h⟩ := refuse_bind_eq_ok h
  obtain ⟨⟨tok₁, q⟩, hread, h⟩ := bind_eq_ok h
  dsimp only at h
  obtain ⟨tok₂, hreadMerges, h⟩ := bind_eq_ok h
  cases h
  obtain ⟨rfl, rfl⟩ : magic = paiTokMagic ∧ version = paiTokVersion := by
    rw [not_or, not_ne_iff, not_ne_iff] at hkind
    exact hkind
  obtain ⟨records, tokens, htexts, hholds, rfl, hall, heqTokens, heqMerges, hrecords⟩ :=
    stored_of_readTokens hread (by omega)
  have hend := hholds.1
  obtain ⟨merges, hmergeHolds, hsameTokens, hnewMerges, hmergeLen⟩ := stored_of_readMerges hreadMerges hend
  have hlist : tok₂.tokens = tokens := by
    rw [hsameTokens, heqTokens]
    rfl
  have hmergeList : tok₂.merges = merges := by
    rw [hnewMerges, heqMerges]
    rfl
  have hcount : tokens.length = numTokens.toNat := hall.length_eq.symm.trans hrecords
  refine ⟨records, ?_, ?_, ?_, ?_, ?_⟩
  · rw [htexts, storedTexts, leNat_of_holds_u32 (holds_of_u32At htokens)]
  · change tokBlob _ tok₂.tokens.length tok₂.merges <+: data
    rw [hlist, hmergeList, ← holds_zero_iff, tokBlob, hcount, hmergeLen, UInt32.ofNat_toNat,
      UInt32.ofNat_toNat]
    refine (holds_of_u32At hmagic).append ?_
    rw [length_leBytes]
    refine (holds_of_u32At hversion).append ?_
    rw [length_leBytes]
    refine (holds_of_u32At htokens).append ?_
    rw [length_leBytes]
    refine (holds_of_u32At hmerges).append ?_
    rw [length_leBytes]
    exact hholds.append hmergeHolds
  · change List.Forall₂ TokenOf records tok₂.tokens
    rwa [hlist]
  · change tok₂.tokens.length ≤ _
    rw [hlist, hcount]
    omega
  · change tok₂.merges.length ≤ _
    rw [hmergeList, hmergeLen]
    omega

section Tokens

variable {records : List (UInt32 × List UInt8)} {tokens : List Token}

/-- Without zero bytes the tokens are written as they are stored. -/
lemma flatMap_tokenBytes_eq (h : List.Forall₂ TokenOf records tokens)
    (hplain : ∀ text ∈ records.map Prod.snd, 0 ∉ text) :
    tokens.flatMap tokenBytes = records.flatMap storedToken := by
  induction h with
  | nil => rfl
  | @cons r t records tokens hhead _ ih =>
    obtain ⟨hid, htext, -⟩ := hhead
    rw [List.map_cons, List.forall_mem_cons] at hplain
    rw [List.flatMap_cons, List.flatMap_cons, ih hplain.2, tokenBytes, storedToken, hid, htext,
      cString_eq_self_iff.mpr hplain.1]

/-- The tokens are not written longer than they are stored. -/
lemma length_tokenBytes_le (h : List.Forall₂ TokenOf records tokens) :
    (tokens.flatMap tokenBytes).length ≤ (records.flatMap storedToken).length := by
  induction h with
  | nil => exact Nat.le_refl _
  | @cons r t records tokens hhead _ ih =>
    obtain ⟨-, htext, -⟩ := hhead
    have hle := length_cString_le r.2
    rw [List.flatMap_cons, List.flatMap_cons, List.length_append, List.length_append, tokenBytes,
      storedToken, List.length_append, List.length_append, length_leBytes, length_leBytes,
      List.length_cons, List.length_cons, htext]
    omega

/-- Tokens that are written as they are stored have no zero byte inside. -/
lemma plain_of_prefix_tokens (h : List.Forall₂ TokenOf records tokens) {rest rest' : List UInt8}
    (hpre : tokens.flatMap tokenBytes ++ rest <+: records.flatMap storedToken ++ rest') :
    ∀ text ∈ records.map Prod.snd, 0 ∉ text := by
  induction h with
  | nil => exact fun text htext => absurd htext List.not_mem_nil
  | @cons r t records tokens hhead _ ih =>
    obtain ⟨hid, htext, hshort⟩ := hhead
    have hle := length_cString_le r.2
    have hmax : paiTokMaxTokenLen = 255 := rfl
    rw [List.flatMap_cons, List.flatMap_cons, List.append_assoc, List.append_assoc, tokenBytes,
      storedToken, List.append_assoc, List.append_assoc, hid, List.prefix_append_right_inj,
      List.cons_append, List.cons_append, List.cons_prefix_cons, htext] at hpre
    obtain ⟨hbyte, hpre⟩ := hpre
    have hlen : (cString r.2).length = r.2.length := by
      have := congrArg UInt8.toNat hbyte
      rwa [UInt8.toNat_ofNat', UInt8.toNat_ofNat', Nat.mod_eq_of_lt (by omega),
        Nat.mod_eq_of_lt (by omega)] at this
    have hplain := notMem_of_length hlen
    rw [cString_eq_self_iff.mpr hplain, List.prefix_append_right_inj] at hpre
    rw [List.map_cons, List.forall_mem_cons]
    exact ⟨hplain, ih hpre⟩

end Tokens

/-- An accepted blob is reproduced exactly when no stored text has a zero byte inside. -/
lemma tokReproduced_iff {data : List UInt8} {tok : Tok} (h : paiTokDeserialize data = .ok tok) :
    TokReproduced data tok ↔ ∀ text ∈ storedTexts data, 0 ∉ text := by
  obtain ⟨records, htexts, hpre, hall, htokens, hmerges⟩ := stored_of_deserialize h
  have hwritten := (paiTokSerialize_eq htokens hmerges).1
  rw [← htexts]
  constructor
  · rintro ⟨bytes, hbytes, hbytesPre⟩
    rw [hwritten] at hbytes
    cases hbytes
    have hle := length_tokenBytes_le hall
    have hboth := List.prefix_of_prefix_length_le hbytesPre hpre (by
      rw [length_tokBlob, length_tokBlob]
      omega)
    rw [tokBlob, tokBlob, List.prefix_append_right_inj, List.prefix_append_right_inj,
      List.prefix_append_right_inj, List.prefix_append_right_inj] at hboth
    exact plain_of_prefix_tokens hall hboth
  · intro hplain
    refine ⟨_, hwritten, ?_⟩
    rwa [flatMap_tokenBytes_eq hall hplain]

/-! ## Manifests -/

/-- The element type of an accepted code has that code. -/
lemma code_of_dtypeOf {code : UInt8} {dtype : PaiDtype} (h : dtypeOf code = .ok dtype) :
    dtype.code = code := by
  rw [dtypeOf] at h
  cases hcode : PaiDtype.ofCode code with
  | none =>
    rw [hcode] at h
    cases h
  | some found =>
    rw [hcode] at h
    cases h
    rw [PaiDtype.ofCode] at hcode
    obtain ⟨hlt, -⟩ := List.getElem?_eq_some_iff.mp hcode
    apply UInt8.toNat_inj.mp
    revert hcode hlt
    generalize code.toNat = n
    intro hcode hlt
    change n < 9 at hlt
    interval_cases n <;> cases hcode <;> rfl

lemma length_recordWith (t : PaiTensor) (pad : UInt8 × UInt8) :
    (recordWith t pad).length = 74 + t.name.length := by
  have hdims : (t.shape.val.flatMap u64le).length = 48 := by
    rw [List.length_flatMap]
    obtain ⟨l, hl⟩ := t.shape
    match l, hl with
    | [_, _, _, _, _, _], _ => rfl
  rw [recordWith]
  simp only [List.length_append, List.length_cons, length_leBytes, hdims]
  omega

/-- What the encoder accepts and writes. -/
lemma paiPaiManifestEncode_eq_ok {tensors : List PaiTensor} {cap : ℕ} {bytes : List UInt8}
    (h : paiPaiManifestEncode (tensors.map PaiTensor.asString) cap = .ok bytes) :
    0 < tensors.length ∧ tensors.length ≤ paiPaiMaxTensors ∧
      bytes = u32le (UInt32.ofNat tensors.length) ++ (tensors.map PaiTensor.asString).flatMap encodeTensor ∧
      bytes.length = manifestSize tensors := by
  rw [paiPaiManifestEncode, List.length_map] at h
  split_ifs at h with hcount hcap
  cases h
  refine ⟨by omega, by omega, rfl, ?_⟩
  rw [List.length_append, length_leBytes, List.length_flatMap, List.map_map, manifestSize]
  exact congrArg (4 + ·) (congrArg List.sum (List.map_congr_left fun t _ =>
    length_recordWith t.asString (0, 0)))

/-- An accepted number of tensors is written. -/
lemma exists_manifest {tensors : List PaiTensor} (hpos : 0 < tensors.length)
    (hle : tensors.length ≤ paiPaiMaxTensors) :
    ∃ cap bytes, paiPaiManifestEncode (tensors.map PaiTensor.asString) cap = .ok bytes := by
  refine ⟨4 + ((tensors.map PaiTensor.asString).map fun t => 74 + t.name.length).sum, ?_⟩
  rw [paiPaiManifestEncode, List.length_map, if_neg (by omega), if_neg (lt_irrefl _)]
  exact ⟨_, rfl⟩

/-- A stored tensor is read back. -/
lemma decodeTensor_of_holds {data rest : List UInt8} {p : ℕ} {t : PaiTensor} (ht : Storable t)
    (h : Holds data p (encodeTensor t.asString ++ rest)) :
    ∃ q, decodeTensor data p = .ok (t.asString, q) ∧ Holds data q rest := by
  obtain ⟨hpos, hlt, hrankPos, hrankLe, hsize⟩ := ht
  have hname : paiTensorNameSize = 64 := rfl
  rw [PaiTensor.asString] at h ⊢
  have hlen := h.1
  rw [List.length_append, show encodeTensor _ = recordWith _ (0, 0) from rfl, length_recordWith] at hlen
  dsimp only at hlen
  simp only [encodeTensor, List.append_assoc, List.cons_append] at h
  obtain ⟨hcount, h⟩ := h.u16 (ε := PaiStatus)
  obtain ⟨htext, h⟩ := h.split
  obtain ⟨hid, h⟩ := h.u32 (ε := PaiStatus)
  obtain ⟨hcode, h⟩ := h.u8 (ε := PaiStatus)
  obtain ⟨hrank, h⟩ := h.u8 (ε := PaiStatus)
  obtain ⟨-, h⟩ := h.u8 (ε := PaiStatus)
  obtain ⟨-, h⟩ := h.u8 (ε := PaiStatus)
  obtain ⟨hdims, h⟩ := decodeDims_of_holds h
  obtain ⟨hoffset, h⟩ := h.u64 (ε := PaiStatus)
  obtain ⟨hbytes, h⟩ := h.u64 (ε := PaiStatus)
  have hnat : (UInt16.ofNat (cString t.name).length).toNat = (cString t.name).length :=
    UInt16.toNat_ofNat_of_lt' (by change _ < 2 ^ 16; omega)
  have hdtype : dtypeOf t.dtype.code = .ok t.dtype := by rw [dtypeOf, PaiDtype.ofCode_code]
  refine ⟨p + 2 + (cString t.name).length + 72, ?_, h⟩
  rw [decodeTensor, refuse_bind _ (by omega), hcount, ok_bind, refuse_bind _ (by
    rintro (hz | hlong | hshort)
    · rw [hz] at hnat
      change 0 = _ at hnat
      omega
    · omega
    · omega), hnat, bytesAt_of_holds htext rfl, ok_bind]
  dsimp only
  rw [hid, ok_bind, hcode, ok_bind, hrank, ok_bind, refuse_bind _ (by
    rintro (hz | hbig)
    · rw [hz] at hrankPos
      exact absurd hrankPos (by decide)
    · omega), hdtype, ok_bind, hdims, ok_bind, hoffset, ok_bind, hbytes, ok_bind, refuse_bind _ hsize]

/-- Stored tensors are read back. -/
lemma decodeTensors_of_holds {data : List UInt8} {tensors : List PaiTensor} {p : ℕ}
    (hall : ∀ t ∈ tensors, Storable t)
    (h : Holds data p ((tensors.map PaiTensor.asString).flatMap encodeTensor)) :
    decodeTensors data tensors.length p = .ok (tensors.map PaiTensor.asString) := by
  induction tensors generalizing p with
  | nil => rfl
  | cons t tensors ih =>
    obtain ⟨ht, hall⟩ := List.forall_mem_cons.mp hall
    rw [List.map_cons, List.flatMap_cons] at h
    obtain ⟨q, hread, hrest⟩ := decodeTensor_of_holds ht h
    rw [List.length_cons, decodeTensors, hread, ok_bind]
    dsimp only
    rw [ih hall hrest, ok_bind]
    rfl

lemma exists_byte {data : List UInt8} {off : ℕ} (h : off + 1 ≤ data.length) :
    ∃ b, Holds data off [b] := by
  have hholds := holds_slice h
  obtain ⟨b, hb⟩ := List.length_eq_one_iff.mp (length_slice h)
  exact ⟨b, hb ▸ hholds⟩

/-- The extents that were read. -/
lemma holds_of_decodeDims {data : List UInt8} {off : ℕ} {dims : Dims} (h : decodeDims data off = .ok dims) :
    Holds data off (dims.val.flatMap u64le) ∧ (dims.val.flatMap u64le).length = 48 := by
  rw [decodeDims] at h
  obtain ⟨s0, h0, h⟩ := bind_eq_ok h
  obtain ⟨s1, h1, h⟩ := bind_eq_ok h
  obtain ⟨s2, h2, h⟩ := bind_eq_ok h
  obtain ⟨s3, h3, h⟩ := bind_eq_ok h
  obtain ⟨s4, h4, h⟩ := bind_eq_ok h
  obtain ⟨s5, h5, h⟩ := bind_eq_ok h
  cases h
  refine ⟨?_, rfl⟩
  have h45 := (holds_of_u64At h4).append (by rw [length_leBytes]; exact holds_of_u64At h5)
  have h345 := (holds_of_u64At h3).append (by rw [length_leBytes]; exact h45)
  have h2345 := (holds_of_u64At h2).append (by rw [length_leBytes]; exact h345)
  have h12345 := (holds_of_u64At h1).append (by rw [length_leBytes]; exact h2345)
  have hall := (holds_of_u64At h0).append (by rw [length_leBytes]; exact h12345)
  simpa only [List.flatMap_cons, List.flatMap_nil, List.append_nil] using hall

/-- What one round of the manifest loop read. -/
lemma stored_of_decodeTensor {data : List UInt8} {p q : ℕ} {t : PaiTensor}
    (h : decodeTensor data p = .ok (t, q)) :
    leNat (slice data p 2) = t.name.length ∧ t.name = slice data (p + 2) t.name.length ∧
      q = p + 2 + t.name.length + 72 ∧ 0 < t.name.length ∧ t.name.length < paiTensorNameSize ∧
      0 < t.rank.toNat ∧ t.rank.toNat ≤ paiTensorMaxRank ∧ t.sizeBytes ≠ 0 ∧
      ∃ pad, Holds data p (recordWith t pad) := by
  rw [decodeTensor] at h
  obtain ⟨hstart, h⟩ := refuse_bind_eq_ok h
  obtain ⟨nameLen, hcount, h⟩ := bind_eq_ok h
  obtain ⟨hname, h⟩ := refuse_bind_eq_ok h
  obtain ⟨name, htext, h⟩ := bind_eq_ok h
  dsimp only at h
  obtain ⟨valueId, hid, h⟩ := bind_eq_ok h
  obtain ⟨code, hcode, h⟩ := bind_eq_ok h
  obtain ⟨rank, hrank, h⟩ := bind_eq_ok h
  obtain ⟨hranks, h⟩ := refuse_bind_eq_ok h
  obtain ⟨dtype, hdtype, h⟩ := bind_eq_ok h
  obtain ⟨shape, hshape, h⟩ := bind_eq_ok h
  obtain ⟨offset, hoffset, h⟩ := bind_eq_ok h
  obtain ⟨sizeBytes, hbytes, h⟩ := bind_eq_ok h
  obtain ⟨hsize, h⟩ := refuse_bind_eq_ok h
  cases h
  obtain ⟨hslice, hlen, htext⟩ := holds_of_bytesAt htext
  have hcount := holds_of_u16At hcount
  have hnat : leNat (slice data p 2) = nameLen.toNat := by
    obtain ⟨-, hfield⟩ := hcount
    rw [length_leBytes] at hfield
    rw [hfield]
    exact leNat_leBytes_of_lt nameLen.toNat_lt
  have hrankPos : rank.toNat ≠ 0 := fun h0 => hranks (Or.inl (UInt8.toNat_inj.mp h0))
  have hlenPos : nameLen.toNat ≠ 0 := fun h0 => hname (Or.inl (UInt16.toNat_inj.mp h0))
  dsimp only
  refine ⟨hnat.trans hlen.symm, by rw [hlen]; exact hslice, by rw [hlen], by omega, by omega, by omega,
    by omega, hsize, ?_⟩
  -- the two reserved bytes are not read
  obtain ⟨a, ha⟩ := @exists_byte data (p + 2 + nameLen.toNat + 6) (by omega)
  obtain ⟨b, hb⟩ := @exists_byte data (p + 2 + nameLen.toNat + 7) (by omega)
  obtain ⟨hdims, hdimsLen⟩ := holds_of_decodeDims hshape
  refine ⟨(a, b), ?_⟩
  have hend := (holds_of_u64At hoffset).append (by
    rw [length_leBytes]
    exact holds_of_u64At hbytes)
  have hextents := hdims.append (by rw [hdimsLen]; exact hend)
  have hhead := (@Holds.append data [b] _ _ hb hextents)
  have hhead := (@Holds.append data [a] _ _ ha hhead)
  have hhead := (@Holds.append data [rank] _ _ (holds_of_u8At hrank) hhead)
  have hhead := (@Holds.append data [code] _ _ (holds_of_u8At hcode) hhead)
  have hhead := (holds_of_u32At hid).append (by rw [length_leBytes]; exact hhead)
  have hhead := htext.append (by rw [hlen]; exact hhead)
  have hhead := hcount.append (by rw [length_leBytes]; exact hhead)
  rw [recordWith]
  dsimp only
  rw [hlen, UInt16.ofNat_toNat, code_of_dtypeOf hdtype]
  exact hhead

/-- What the manifest loop read. -/
lemma stored_of_decodeTensors {data : List UInt8} {n p : ℕ} {ts : List PaiTensor}
    (h : decodeTensors data n p = .ok ts) (hp : p ≤ data.length) :
    ts.map PaiTensor.name = tensorNames data n p ∧ ts.length = n ∧
      (∀ t ∈ ts, t.name.length < paiTensorNameSize ∧ (0 ∉ t.name → Storable t)) ∧
      ∃ pads, pads.length = ts.length ∧ Holds data p (List.zipWith recordWith ts pads).flatten := by
  induction n generalizing p ts with
  | zero =>
    cases h
    exact ⟨rfl, rfl, fun t ht => absurd ht List.not_mem_nil, [], rfl,
      ⟨by rw [List.zipWith_nil_left, List.flatten_nil, List.length_nil]; exact hp, rfl⟩⟩
  | succ n ih =>
    rw [decodeTensors] at h
    obtain ⟨⟨t, q⟩, hread, h⟩ := bind_eq_ok h
    dsimp only at h
    obtain ⟨ts', hmore, h⟩ := bind_eq_ok h
    cases h
    obtain ⟨hcount, hname, rfl, hpos, hlt, hrankPos, hrankLe, hsize, pad, hholds⟩ :=
      stored_of_decodeTensor hread
    have hrecord := length_recordWith t pad
    have hend := hholds.1
    obtain ⟨hnames, hlen, hall, pads, hpads, hrest⟩ := ih hmore (by omega)
    refine ⟨?_, by rw [List.length_cons, hlen], ?_, pad :: pads, by rw [List.length_cons,
      List.length_cons, hpads], ?_⟩
    · rw [List.map_cons, hnames, tensorNames, hcount, ← hname]
    · rw [List.forall_mem_cons]
      refine ⟨⟨hlt, fun hplain => ?_⟩, hall⟩
      have hself := cString_eq_self_iff.mpr hplain
      exact ⟨by rwa [hself], by rwa [hself], hrankPos, hrankLe, hsize⟩
    · rw [List.zipWith_cons_cons, List.flatten_cons]
      refine hholds.append ?_
      rw [hrecord, show p + (74 + t.name.length) = p + 2 + t.name.length + 72 by omega]
      exact hrest

/-- Beginnings of equal length. -/
lemma prefix_append_inj {a b x y : List UInt8} (hlen : a.length = b.length) (h : a ++ x <+: b ++ y) :
    a = b ∧ x <+: y := by
  obtain ⟨w, hw⟩ := h
  rw [List.append_assoc] at hw
  obtain ⟨hab, hxy⟩ := List.append_inj hw hlen
  exact ⟨hab, w, hxy⟩

/-- A length field below its range determines the length. -/
lemma eq_of_u16le {n m : ℕ} (hn : n < 65536) (hm : m < 65536)
    (h : u16le (UInt16.ofNat n) = u16le (UInt16.ofNat m)) : n = m := by
  have hnat := congrArg leNat h
  rwa [leNat_leBytes_of_lt (UInt16.toNat_lt _), leNat_leBytes_of_lt (UInt16.toNat_lt _),
    UInt16.toNat_ofNat_of_lt' hn, UInt16.toNat_ofNat_of_lt' hm] at hnat

section Tensors

/-- Tensors whose names have no zero byte inside are written as they are stored. -/
lemma map_asString_eq {ts : List PaiTensor} (h : ∀ name ∈ ts.map PaiTensor.name, 0 ∉ name) :
    ts.map PaiTensor.asString = ts := by
  induction ts with
  | nil => rfl
  | cons t ts ih =>
    rw [List.map_cons, List.forall_mem_cons] at h
    rw [List.map_cons, ih h.2, PaiTensor.asString, cString_eq_self_iff.mpr h.1]

/-- Tensors are not written longer than they are stored. -/
lemma length_records_le {ts : List PaiTensor} {pads pads' : List (UInt8 × UInt8)}
    (hpads : pads.length = ts.length) (hpads' : pads'.length = ts.length) :
    (List.zipWith recordWith (ts.map PaiTensor.asString) pads).flatten.length ≤
      (List.zipWith recordWith ts pads').flatten.length := by
  induction ts generalizing pads pads' with
  | nil => exact Nat.zero_le _
  | cons t ts ih =>
    match pads, pads', hpads, hpads' with
    | pad :: pads, pad' :: pads', hpads, hpads' =>
      have hle := length_cString_le t.name
      have hmore := ih (Nat.succ.inj hpads) (Nat.succ.inj hpads')
      rw [List.map_cons, List.zipWith_cons_cons, List.zipWith_cons_cons, List.flatten_cons,
        List.flatten_cons, List.length_append, List.length_append, length_recordWith, length_recordWith,
        PaiTensor.asString]
      dsimp only
      omega

/-- Tensors that are written as they are stored have no zero byte in a name. -/
lemma plain_of_prefix_records {ts : List PaiTensor} {pads pads' : List (UInt8 × UInt8)}
    (hpads : pads.length = ts.length) (hpads' : pads'.length = ts.length)
    (hnames : ∀ t ∈ ts, t.name.length < paiTensorNameSize)
    (hpre : (List.zipWith recordWith (ts.map PaiTensor.asString) pads).flatten <+:
      (List.zipWith recordWith ts pads').flatten) :
    ∀ name ∈ ts.map PaiTensor.name, 0 ∉ name := by
  induction ts generalizing pads pads' with
  | nil => exact fun name hname => absurd hname List.not_mem_nil
  | cons t ts ih =>
    match pads, pads', hpads, hpads' with
    | pad :: pads, pad' :: pads', hpads, hpads' =>
      obtain ⟨hlt, hnames⟩ := List.forall_mem_cons.mp hnames
      have hle := length_cString_le t.name
      have hmax : paiTensorNameSize = 64 := rfl
      rw [List.map_cons, List.zipWith_cons_cons, List.zipWith_cons_cons, List.flatten_cons,
        List.flatten_cons] at hpre
      have hcount : (cString t.name).length = t.name.length := by
        have hfield := hpre
        rw [recordWith, recordWith, List.append_assoc, List.append_assoc (u16le _)] at hfield
        obtain ⟨hbytes, -⟩ := prefix_append_inj (by rw [length_leBytes, length_leBytes]) hfield
        exact eq_of_u16le (by omega) (by omega) hbytes
      have hplain := notMem_of_length hcount
      have hself : t.asString = t := by rw [PaiTensor.asString, cString_eq_self_iff.mpr hplain]
      rw [hself] at hpre
      have hmore := (prefix_append_inj (by rw [length_recordWith, length_recordWith]) hpre).2
      rw [List.map_cons, List.forall_mem_cons]
      exact ⟨hplain, ih (Nat.succ.inj hpads) (Nat.succ.inj hpads') hnames hmore⟩

end Tensors

/-- What an accepted manifest is, and what was read from it. -/
lemma stored_of_manifest {data : List UInt8} {maxTensors : ℕ} {ts : List PaiTensor}
    (h : paiPaiManifestDecode data maxTensors = .ok ts) :
    ts.map PaiTensor.name = storedNames data ∧ 0 < ts.length ∧ ts.length ≤ paiPaiMaxTensors ∧
      (∀ t ∈ ts, t.name.length < paiTensorNameSize ∧ (0 ∉ t.name → Storable t)) ∧
      ∃ pads, pads.length = ts.length ∧ manifestWith ts pads <+: data := by
  rw [paiPaiManifestDecode] at h
  obtain ⟨hshort, h⟩ := refuse_bind_eq_ok h
  obtain ⟨count, hcount, h⟩ := bind_eq_ok h
  obtain ⟨hrange, h⟩ := refuse_bind_eq_ok h
  have hfield := holds_of_u32At hcount
  obtain ⟨hnames, hlen, hall, pads, hpads, hholds⟩ := stored_of_decodeTensors h (by omega)
  have hpos : count.toNat ≠ 0 := fun h0 => hrange (Or.inl (UInt32.toNat_inj.mp h0))
  refine ⟨by rw [hnames, storedNames, leNat_of_holds_u32 hfield], by omega, by omega, hall, pads, hpads,
    ?_⟩
  rw [← holds_zero_iff, manifestWith, hlen, UInt32.ofNat_toNat]
  refine hfield.append ?_
  rw [length_leBytes]
  exact hholds

/-- An accepted manifest is reproduced exactly when no stored name has a zero byte inside. -/
lemma manifestReproduced_iff {data : List UInt8} {maxTensors : ℕ} {ts : List PaiTensor}
    (h : paiPaiManifestDecode data maxTensors = .ok ts) :
    ManifestReproduced data ts ↔ ∀ name ∈ storedNames data, 0 ∉ name := by
  obtain ⟨hnames, -, -, hall, pads, hpads, hpre⟩ := stored_of_manifest h
  rw [← hnames]
  constructor
  · rintro ⟨pads', hpads', hpre'⟩
    have hle := length_records_le hpads' hpads
    have hboth := List.prefix_of_prefix_length_le hpre' hpre (by
      rw [manifestWith, manifestWith, List.length_append, List.length_append, length_leBytes,
        length_leBytes]
      omega)
    rw [manifestWith, manifestWith, List.length_map, List.prefix_append_right_inj] at hboth
    exact plain_of_prefix_records hpads' hpads (fun t ht => (hall t ht).1) hboth
  · intro hplain
    refine ⟨pads, hpads, ?_⟩
    rwa [map_asString_eq hplain]

/-- Written tensors are read back exactly when each of them can be stored. -/
lemma manifest_round_trip_iff {tensors : List PaiTensor} {cap : ℕ} {bytes : List UInt8}
    (h : paiPaiManifestEncode (tensors.map PaiTensor.asString) cap = .ok bytes) :
    (∀ max, tensors.length ≤ max →
      paiPaiManifestDecode bytes max = .ok (tensors.map PaiTensor.asString)) ↔
      ∀ t ∈ tensors, Storable t := by
  obtain ⟨hpos, hle, rfl, -⟩ := paiPaiManifestEncode_eq_ok h
  constructor
  · intro hdecode t ht
    obtain ⟨-, -, -, hall, -⟩ := stored_of_manifest (hdecode tensors.length le_rfl)
    obtain ⟨-, hstorable⟩ := hall t.asString (List.mem_map_of_mem ht)
    have hself := cString_cString t.name
    obtain ⟨hpos, hlt, hrankPos, hrankLe, hsize⟩ := hstorable (cString_eq_self_iff.mp hself)
    rw [PaiTensor.asString] at hpos hlt hrankPos hrankLe hsize
    rw [hself] at hpos hlt
    exact ⟨hpos, hlt, hrankPos, hrankLe, hsize⟩
  · intro hall max hmax
    have hmaxTensors : paiPaiMaxTensors = 512 := rfl
    obtain ⟨data, hdata⟩ : ∃ data, data = u32le (UInt32.ofNat tensors.length) ++
      (tensors.map PaiTensor.asString).flatMap encodeTensor := ⟨_, rfl⟩
    have hholds := holds_self data
    nth_rewrite 2 [hdata] at hholds
    have hlen := hholds.1
    rw [List.length_append, length_leBytes] at hlen
    obtain ⟨hcount, hholds⟩ := hholds.u32 (ε := PaiStatus)
    have hnat : (UInt32.ofNat tensors.length).toNat = tensors.length :=
      UInt32.toNat_ofNat_of_lt' (by change _ < 2 ^ 32; omega)
    rw [← hdata, paiPaiManifestDecode, refuse_bind _ (by omega), hcount, ok_bind, refuse_bind _ (by
      rintro (hz | hbig | hbig)
      · rw [hz] at hnat
        change 0 = _ at hnat
        omega
      · omega
      · omega), hnat]
    exact decodeTensors_of_holds hall hholds

/-! ## Metadata -/

lemma length_metaWith (info : PaiMeta) (pad tail : List UInt8) :
    (metaWith info pad tail).length = 26 + info.name.length + pad.length + tail.length := by
  rw [metaWith]
  simp only [List.length_append, length_leBytes]
  omega

/-- Metadata that is written is read back. -/
lemma meta_round_trip {info : PaiMeta} {bytes : List UInt8} (h : paiPaiMetaEncode info.asString = .ok bytes) :
    bytes.length = paiPaiMetaSize ∧ paiPaiMetaDecode bytes = .ok info.asString := by
  have hmax : paiPaiNameMax = 31 := rfl
  have hsize : paiPaiMetaSize = 64 := rfl
  rw [paiPaiMetaEncode] at h
  split_ifs at h with hlong
  have hbytes : bytes = metaWith info.asString
      (List.replicate (paiPaiNameMax + 1 - info.asString.name.length) 0) (List.replicate 6 0) :=
    (Except.ok.inj h).symm
  have hlen : bytes.length = paiPaiMetaSize := by
    rw [hbytes, length_metaWith, List.length_replicate, List.length_replicate]
    omega
  refine ⟨hlen, ?_⟩
  have hholds := holds_self bytes
  nth_rewrite 2 [hbytes] at hholds
  rw [metaWith] at hholds
  obtain ⟨hcount, hholds⟩ := hholds.u16 (ε := PaiStatus)
  obtain ⟨htext, hholds⟩ := hholds.split
  obtain ⟨-, hholds⟩ := hholds.split
  rw [List.length_replicate, show 0 + 2 + info.asString.name.length +
    (paiPaiNameMax + 1 - info.asString.name.length) = 34 by omega] at hholds
  obtain ⟨hfamily, hholds⟩ := hholds.u32 (ε := PaiStatus)
  obtain ⟨hcontext, hholds⟩ := hholds.u32 (ε := PaiStatus)
  obtain ⟨hlayers, hholds⟩ := hholds.u32 (ε := PaiStatus)
  obtain ⟨hkv, hholds⟩ := hholds.u32 (ε := PaiStatus)
  obtain ⟨hvocab, hholds⟩ := hholds.u32 (ε := PaiStatus)
  obtain ⟨hreserved, -⟩ := hholds.u32 (ε := PaiStatus)
  have hnat : (UInt16.ofNat info.asString.name.length).toNat = info.asString.name.length :=
    UInt16.toNat_ofNat_of_lt' (by change _ < 2 ^ 16; omega)
  rw [paiPaiMetaDecode, refuse_bind _ (by omega), hcount, ok_bind, hnat, refuse_bind _ hlong,
    bytesAt_of_holds htext rfl, ok_bind, hfamily, ok_bind, hcontext, ok_bind, hlayers, ok_bind, hkv,
    ok_bind, hvocab, ok_bind, hreserved, ok_bind]

/-- Metadata is read inside its input. -/
lemma post_paiPaiMetaDecode (data : List UInt8) : Post (paiPaiMetaDecode data) fun _ => True := by
  have hmax : paiPaiNameMax = 31 := rfl
  have hsize : paiPaiMetaSize = 64 := rfl
  rw [paiPaiMetaDecode]
  refine post_refuse_bind fun hlen => ?_
  refine Post.bind (post_u16At (by omega)) fun nameLen _ _ => ?_
  refine post_refuse_bind fun hname => ?_
  refine Post.bind (post_bytesAt (by omega)) fun name _ _ => ?_
  refine Post.bind (post_u32At (by omega)) fun family _ _ => ?_
  refine Post.bind (post_u32At (by omega)) fun contextLen _ _ => ?_
  refine Post.bind (post_u32At (by omega)) fun numLayers _ _ => ?_
  refine Post.bind (post_u32At (by omega)) fun kvBytesPerToken _ _ => ?_
  refine Post.bind (post_u32At (by omega)) fun vocabSize _ _ => ?_
  exact Post.bind (post_u32At (by omega)) fun reserved _ _ => trivial

/-- What accepted metadata is, and what was read from it. -/
lemma stored_of_meta {data : List UInt8} {info : PaiMeta} (h : paiPaiMetaDecode data = .ok info) :
    info.name = storedName data ∧ info.name.length ≤ paiPaiNameMax ∧
      ∃ pad tail, pad.length = paiPaiNameMax + 1 - info.name.length ∧ tail.length = 6 ∧
        metaWith info pad tail <+: data := by
  have hmax : paiPaiNameMax = 31 := rfl
  have hsize : paiPaiMetaSize = 64 := rfl
  rw [paiPaiMetaDecode] at h
  obtain ⟨hshort, h⟩ := refuse_bind_eq_ok h
  obtain ⟨nameLen, hcount, h⟩ := bind_eq_ok h
  obtain ⟨hlong, h⟩ := refuse_bind_eq_ok h
  obtain ⟨name, htext, h⟩ := bind_eq_ok h
  obtain ⟨family, hfamily, h⟩ := bind_eq_ok h
  obtain ⟨contextLen, hcontext, h⟩ := bind_eq_ok h
  obtain ⟨numLayers, hlayers, h⟩ := bind_eq_ok h
  obtain ⟨kvBytesPerToken, hkv, h⟩ := bind_eq_ok h
  obtain ⟨vocabSize, hvocab, h⟩ := bind_eq_ok h
  obtain ⟨reserved, hreserved, h⟩ := bind_eq_ok h
  cases h
  obtain ⟨hslice, hlen, htext⟩ := holds_of_bytesAt htext
  have hcount := holds_of_u16At hcount
  have hnat : leNat (slice data 0 2) = nameLen.toNat := by
    obtain ⟨-, hfield⟩ := hcount
    rw [length_leBytes] at hfield
    rw [hfield]
    exact leNat_leBytes_of_lt nameLen.toNat_lt
  dsimp only
  refine ⟨by rw [storedName, hnat, hslice], by omega, ?_⟩
  -- the padding behind the name and the bytes behind the last field are not read
  have hpad : Holds data (2 + nameLen.toNat) (slice data (2 + nameLen.toNat) (32 - nameLen.toNat)) :=
    holds_slice (by omega)
  have hpadLen : (slice data (2 + nameLen.toNat) (32 - nameLen.toNat)).length = 32 - nameLen.toNat :=
    length_slice (by omega)
  have htail : Holds data 58 (slice data 58 6) := holds_slice (by omega)
  have hrest := (holds_of_u32At hreserved).append (by rw [length_leBytes]; exact htail)
  have hrest := (holds_of_u32At hvocab).append (by rw [length_leBytes]; exact hrest)
  have hrest := (holds_of_u32At hkv).append (by rw [length_leBytes]; exact hrest)
  have hrest := (holds_of_u32At hlayers).append (by rw [length_leBytes]; exact hrest)
  have hrest := (holds_of_u32At hcontext).append (by rw [length_leBytes]; exact hrest)
  have hrest := (holds_of_u32At hfamily).append (by rw [length_leBytes]; exact hrest)
  have hrest := hpad.append (by
    rw [hpadLen, show 2 + nameLen.toNat + (32 - nameLen.toNat) = 34 by omega]
    exact hrest)
  have hrest := htext.append (by rw [hlen]; exact hrest)
  have hrest := hcount.append (by rw [length_leBytes]; exact hrest)
  refine ⟨slice data (2 + nameLen.toNat) (32 - nameLen.toNat), slice data 58 6, ?_,
    length_slice (by omega), ?_⟩
  · rw [hpadLen, hlen]
  rw [← holds_zero_iff, metaWith]
  dsimp only
  rw [hlen, UInt16.ofNat_toNat]
  exact hrest

/-- Accepted metadata is reproduced exactly when the stored name has no zero byte inside. -/
lemma metaReproduced_iff {data : List UInt8} {info : PaiMeta} (h : paiPaiMetaDecode data = .ok info) :
    MetaReproduced data info ↔ 0 ∉ storedName data := by
  obtain ⟨hname, hle, pad, tail, hpad, htail, hpre⟩ := stored_of_meta h
  have hmax : paiPaiNameMax = 31 := rfl
  have hlen := length_cString_le info.name
  rw [← hname]
  constructor
  · rintro ⟨pad', tail', hpad', htail', hpre'⟩
    have hboth := List.prefix_of_prefix_length_le hpre' hpre (by
      rw [length_metaWith, length_metaWith, PaiMeta.asString, hpad, hpad', htail, htail']
      dsimp only
      omega)
    rw [metaWith, metaWith] at hboth
    obtain ⟨hbytes, -⟩ := prefix_append_inj (by rw [length_leBytes, length_leBytes]) hboth
    rw [PaiMeta.asString] at hbytes
    exact notMem_of_length (eq_of_u16le (by omega) (by omega) hbytes)
  · intro hplain
    have hself := cString_eq_self_iff.mpr hplain
    refine ⟨pad, tail, by rw [hself, hpad], htail, ?_⟩
    rwa [PaiMeta.asString, hself]

/-! ## The codecs -/

/-- The manifest decoder reads inside its input. -/
lemma manifest_inside (data : List UInt8) (maxTensors : ℕ) :
    paiPaiManifestDecode data maxTensors ≠ .error .outOfRange :=
  (post_paiPaiManifestDecode data maxTensors).ne_outOfRange

/-- **The codecs of the sections.**  What is promised of the tokenizer codec and of the metadata codec holds
exactly when an accepted byte string stores no text with a zero byte inside; of the manifest codec, when in
addition each of the tensors to be written can be stored. -/
theorem sectionCodecs_iff (calls : List TokCall) (tensors : List PaiTensor) (info : PaiMeta)
    (data : List UInt8) (maxTensors : ℕ) :
    (TokCodec calls data ↔
      ((∃ tok, paiTokDeserialize data = .ok tok) → ∀ text ∈ storedTexts data, 0 ∉ text)) ∧
    (ManifestCodec tensors data maxTensors ↔
      (0 < tensors.length → tensors.length ≤ paiPaiMaxTensors → ∀ t ∈ tensors, Storable t) ∧
      ((∃ ts, paiPaiManifestDecode data maxTensors = .ok ts) → ∀ name ∈ storedNames data, 0 ∉ name)) ∧
    (MetaCodec info data ↔ ((∃ info', paiPaiMetaDecode data = .ok info') → 0 ∉ storedName data)) := by
  refine ⟨?_, ?_, ?_⟩
  · constructor
    · rintro ⟨-, -, hreproduced⟩ ⟨tok, htok⟩
      exact (tokReproduced_iff htok).mp (hreproduced tok htok)
    · intro hplain
      exact ⟨tok_round_trip calls, (post_paiTokDeserialize data).ne_outOfRange, fun tok htok =>
        (tokReproduced_iff htok).mpr (hplain ⟨tok, htok⟩)⟩
  · constructor
    · rintro ⟨hround, -, hreproduced⟩
      constructor
      · intro hpos hle
        obtain ⟨cap, bytes, hbytes⟩ := exists_manifest hpos hle
        exact (manifest_round_trip_iff hbytes).mp (hround cap bytes hbytes).2
      · rintro ⟨ts, hts⟩
        exact (manifestReproduced_iff hts).mp (hreproduced ts hts)
    · rintro ⟨hstorable, hplain⟩
      refine ⟨fun cap bytes hbytes => ?_, manifest_inside data maxTensors, fun ts hts =>
        (manifestReproduced_iff hts).mpr (hplain ⟨ts, hts⟩)⟩
      obtain ⟨hpos, hle, -, hlen⟩ := paiPaiManifestEncode_eq_ok hbytes
      exact ⟨hlen, (manifest_round_trip_iff hbytes).mpr (hstorable hpos hle)⟩
  · constructor
    · rintro ⟨-, -, hreproduced⟩ ⟨info', hinfo⟩
      exact (metaReproduced_iff hinfo).mp (hreproduced info' hinfo)
    · intro hplain
      exact ⟨fun bytes hbytes => meta_round_trip hbytes, (post_paiPaiMetaDecode data).ne_outOfRange,
        fun info' hinfo => (metaReproduced_iff hinfo).mpr (hplain ⟨info', hinfo⟩)⟩

/-- A blob with one token, whose text is a letter and a zero byte. -/
def shortenedBlob : List UInt8 :=
  u32le paiTokMagic ++ u32le paiTokVersion ++ u32le 1 ++ u32le 0 ++ u32le 7 ++ [2, 97, 0]

/-- A token text with a zero byte is accepted and comes out shorter. -/
theorem shortenedBlob_not_reproduced :
    ∃ tok, paiTokDeserialize shortenedBlob = .ok tok ∧ tok.tokens.map Token.text = [[97]] ∧
      ¬ TokReproduced shortenedBlob tok := by
  have hrun : (paiTokDeserialize shortenedBlob).toOption.map (fun tok => tok.tokens.map Token.text) =
      some [[97]] := by decide +kernel
  cases htok : paiTokDeserialize shortenedBlob with
  | error st =>
    rw [htok] at hrun
    cases hrun
  | ok tok =>
    rw [htok] at hrun
    refine ⟨tok, rfl, Option.some_inj.mp hrun, fun hreproduced => ?_⟩
    have hplain := (tokReproduced_iff htok).mp hreproduced
    exact hplain [97, 0] (by decide +kernel) (by decide)

end Prospero
