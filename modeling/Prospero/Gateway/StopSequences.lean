import Prospero.Lib.Buffer
import Prospero.Lib.Search
import Prospero.Gateway.WriteBuffer

/-!
# Stop sequences

`gen_on_token` of `gateway/gateway.c`: a token of the generated text is added to the reply, and the rolling
tail of the text is compared with the stop sequences.

The tail is the end of the text in which every token is cut to its first 319 bytes (`cutTokens`), and is
compared once for a token.  So a stop sequence is found exactly when that text ends with it at the end of a
token; one that ends inside a token goes unnoticed.

### Outline

* the callback, with the array bounds of the tail;
* `Running`, the state while no stop sequence was found, and one token of it (`genOnToken_spec`);
* `genOnToken_run_iff`, whole runs, and a stop sequence inside a token.
-/

namespace Prospero

open Buffer Search WriteBuffer

/-! ## The callback -/

/-- `GW_TAIL_MAX`. -/
abbrev gwTailMax : ℕ := 320

/-- The fields of `gw_gen_ctx_t` that the callback uses; the stop sequences are C strings. -/
structure GenCtx where
  /-- `out` -/
  out : WriteBuffer.JsonWb
  /-- `stream` -/
  stream : Bool
  /-- `failed` -/
  failed : Bool
  /-- `n_stops` and `stops` -/
  stops : List (List UInt8)
  /-- `tail` -/
  tail : List UInt8
  /-- `tail_len` -/
  tailLen : ℕ
  /-- `stop_len` -/
  stopLen : ℕ
  /-- `stop_hit` -/
  stopHit : Bool
  /-- `entry->remote` -/
  remote : Bool
  /-- Texts of the chunks emitted so far. -/
  emitted : List (List UInt8)
  /-- The session was cancelled. -/
  cancelled : Bool

variable (realloc : Realloc)

/- Whether `emit_chunk` fails on a text. -/
variable (emitFails : List UInt8 → Bool)

/-- The token added to the tail, and its terminator. -/
def growTail (tail : List UInt8) (tailLen : ℕ) (token : List UInt8) : Except WbStop (List UInt8 × ℕ) :=
  let tl := token.length % 0x100000000
  let tl := if gwTailMax - 1 < tl then gwTailMax - 1 else tl
  let keep := gwTailMax - 1 - tl
  let (tail, tailLen) :=
    if gwTailMax ≤ tailLen + tl ∧ keep < tailLen then
      (overwrite tail 0 (slice tail (tailLen - keep) keep), keep)
    else (tail, tailLen)
  if tailLen + tl < tail.length then
    .ok (overwrite tail tailLen (token.take tl ++ [0]), tailLen + tl)
  else .error .outside

/-- The loop over the stop sequences: `stop_len` and `stop_hit`. -/
def matchStops (tail : List UInt8) (tailLen : ℕ) (found : ℕ × Bool) (stop : List UInt8) : ℕ × Bool :=
  if found.1 < stop.length ∧ stop.length ≤ tailLen ∧
      slice tail (tailLen - stop.length) stop.length = stop then
    (stop.length, true)
  else found

/-- The reply without the stop sequence at its end, and a terminator. -/
def dropStop (c : GenCtx) : Except WbStop GenCtx :=
  if ¬ c.stream ∧ c.stopLen ≤ c.out.len then
    let len := c.out.len - c.stopLen
    if c.out.buf = [] then .ok { c with out := { c.out with len := len } }
    else if len < c.out.buf.length then
      .ok { c with out := { c.out with buf := overwrite c.out.buf len [0], len := len } }
    else .error .outside
  else .ok c

/-- The detection of stop sequences. -/
def trackStops (c : GenCtx) (token : List UInt8) : Except WbStop GenCtx :=
  if c.stops = [] then .ok c
  else
    (growTail c.tail c.tailLen token).bind fun (tail, tailLen) =>
    let (stopLen, stopHit) := c.stops.foldl (matchStops tail tailLen) (c.stopLen, c.stopHit)
    let c := { c with tail, tailLen, stopLen, stopHit }
    if stopHit then (dropStop c).map fun c => { c with cancelled := c.cancelled || !c.remote }
    else .ok c

/-- `gen_on_token`. -/
def genOnToken (c : GenCtx) (token : List UInt8) : Except WbStop GenCtx :=
  if c.failed ∨ c.stopHit then .ok c
  else if c.stream then
    let c := { c with emitted := c.emitted ++ [token], failed := emitFails token }
    if c.failed then .ok c else trackStops c token
  else
    (paiJsonWbPuts realloc c.out token).bind fun (out, st) =>
    if st ≠ paiOk then .ok { c with out, failed := true } else trackStops { c with out } token

/-- The context of a reply that is not streamed. -/
def genStart (stops : List (List UInt8)) (tail : List UInt8) (remote : Bool) : GenCtx where
  out := WriteBuffer.paiJsonWbInit
  stream := false
  failed := false
  stops := stops
  tail := tail
  tailLen := 0
  stopLen := 0
  stopHit := false
  remote := remote
  emitted := []
  cancelled := false

/-! ## What is promised -/

/-- The state after some tokens with the text `text`: the reply is the text, cut before the stop sequence
that ends first in it. -/
structure Cut (c : GenCtx) (text : List UInt8) : Prop where
  /-- The text without a stop sequence. -/
  whole : ¬ Occurs c.stops text → Holds c.out text
  /-- The text with one. -/
  cut : ∀ pre stop, FirstEnd c.stops text pre stop → Holds c.out pre
  /-- When the flag is set. -/
  hit_iff : c.stopHit = true ↔ Occurs c.stops text
  /-- The tail is in its array. -/
  tail_lt : c.tailLen < gwTailMax

/-- The callback returns for the first `k` tokens, and the reply is as promised, for every `k`. -/
def CutsReply (c : GenCtx) (tokens : List (List UInt8)) : Prop :=
  ∀ k ≤ tokens.length, ∃ c', (tokens.take k).foldlM (genOnToken realloc emitFails) c = .ok c' ∧
    c'.stops = c.stops ∧ Cut c' (tokens.take k).flatten

/-- The text in which every token is cut to the bytes that go into the tail. -/
def cutTokens (tokens : List (List UInt8)) : List UInt8 :=
  (tokens.map (·.take (gwTailMax - 1))).flatten

/-- What a token has to meet, behind some tokens without a stop sequence: the reply stays within `2^31`
bytes; if the text has a stop sequence then the cut text ends with one, and the longest one it ends with is
as long as the text from the occurrence that ends first on; and else the cut text ends with none. -/
structure TokenMeets (stops : List (List UInt8)) (before : List (List UInt8)) (token : List UInt8) :
    Prop where
  /-- The length of the text. -/
  fits : (before ++ [token]).flatten.length ≤ 0x80000000
  /-- A stop sequence is caught. -/
  caught : ∀ pre stop, FirstEnd stops (before ++ [token]).flatten pre stop →
    EndsIn stops (cutTokens (before ++ [token])) ((before ++ [token]).flatten.length - pre.length)
  /-- None is made up. -/
  silent : ¬ Occurs stops (before ++ [token]).flatten → ¬ Ends stops (cutTokens (before ++ [token]))

/-- Every token meets its condition, up to the one with which the text has a stop sequence. -/
def TokensMeet (stops tokens : List (List UInt8)) : Prop :=
  ∀ before token after, tokens = before ++ token :: after → ¬ Occurs stops before.flatten →
    TokenMeets stops before token

/-! ## The tail -/

/-- The tail array holds the end of the cut text. -/
structure TailHolds (tail : List UInt8) (tailLen : ℕ) (seen : List UInt8) : Prop where
  /-- The size of the array. -/
  length : tail.length = gwTailMax
  /-- The counter. -/
  len : tailLen = min seen.length (gwTailMax - 1)
  /-- The bytes. -/
  bytes : tail.take tailLen = last (gwTailMax - 1) seen

lemma take_overwrite {buf a b : List UInt8} {pos : ℕ} (h : pos ≤ buf.length) :
    (overwrite buf pos (a ++ b)).take (pos + a.length) = buf.take pos ++ a := by
  rw [overwrite, List.append_assoc, ← List.append_assoc]
  refine List.take_left' ?_
  rw [List.length_append, List.length_take, min_eq_left h]

/-- The bytes of a run of the array, from its end. -/
lemma slice_eq_last {tail : List UInt8} {tailLen n : ℕ} (hn : n ≤ tailLen) (h : tailLen ≤ tail.length) :
    slice tail (tailLen - n) n = last n (tail.take tailLen) := by
  rw [last, List.length_take, min_eq_left h, List.drop_take, slice]
  congr 1
  omega

/-- A token more in the tail. -/
lemma growTail_spec {tail seen token : List UInt8} {tailLen : ℕ} (h : TailHolds tail tailLen seen)
    (htoken : token.length < 0x100000000) :
    ∃ tail' tailLen', growTail tail tailLen token = .ok (tail', tailLen') ∧
      TailHolds tail' tailLen' (seen ++ token.take (gwTailMax - 1)) := by
  obtain ⟨hlength, hlen, hbytes⟩ := h
  have hmax : gwTailMax = 320 := rfl
  have htl : (if gwTailMax - 1 < token.length % 0x100000000 then gwTailMax - 1
      else token.length % 0x100000000) = (token.take (gwTailMax - 1)).length := by
    rw [List.length_take, Nat.mod_eq_of_lt htoken]
    split_ifs <;> omega
  have htake : token.take (token.take (gwTailMax - 1)).length = token.take (gwTailMax - 1) := by
    rw [List.length_take, ← List.take_take, List.take_length]
  have hle : (token.take (gwTailMax - 1)).length ≤ gwTailMax - 1 := by
    rw [List.length_take]
    exact min_le_left _ _
  rw [growTail]
  dsimp only
  rw [htl, htake]
  generalize token.take (gwTailMax - 1) = tok at hle ⊢
  have hlast := @last_append _ _ seen _ hle
  rw [← hbytes] at hlast
  by_cases hevict : gwTailMax ≤ tailLen + tok.length ∧ gwTailMax - 1 - tok.length < tailLen
  · -- only the end of the old tail is kept
    rw [if_pos hevict]
    dsimp only
    have hslice := @slice_eq_last tail tailLen (gwTailMax - 1 - tok.length) hevict.2.le (by omega)
    have hkept : (last (gwTailMax - 1 - tok.length) (tail.take tailLen)).length =
        gwTailMax - 1 - tok.length := by
      rw [length_last, List.length_take]
      omega
    rw [hslice]
    have hlen₁ : (overwrite tail 0 (last (gwTailMax - 1 - tok.length) (tail.take tailLen))).length =
        gwTailMax := by
      rw [length_overwrite (by rw [hkept]; omega), hlength]
    rw [if_pos (by rw [hlen₁]; omega)]
    refine ⟨_, _, rfl, ?_, ?_, ?_⟩
    · rw [length_overwrite (by rw [hlen₁, List.length_append, List.length_singleton]; omega), hlen₁]
    · rw [List.length_append]
      omega
    · rw [take_overwrite (by rw [hlen₁]; omega), hlast]
      refine congrArg (· ++ tok) ?_
      rw [overwrite, List.take_zero, List.nil_append]
      exact List.take_left' hkept
  · rw [if_neg hevict]
    dsimp only
    rw [if_pos (by omega)]
    refine ⟨_, _, rfl, ?_, ?_, ?_⟩
    · rw [length_overwrite (by rw [List.length_append, List.length_singleton]; omega), hlength]
    · rw [List.length_append]
      omega
    · rw [take_overwrite (by omega), hlast, last_of_length_le]
      rw [List.length_take]
      omega

/-! ## Matching -/

/-- The comparison sees whether the cut text ends with a stop sequence. -/
lemma compare_iff {tail seen stop : List UInt8} {tailLen : ℕ} (h : TailHolds tail tailLen seen)
    (hstop : stop.length ≤ gwTailMax - 1) :
    (stop.length ≤ tailLen ∧ slice tail (tailLen - stop.length) stop.length = stop) ↔ stop <:+ seen := by
  obtain ⟨hlength, hlen, hbytes⟩ := h
  have hmax : gwTailMax = 320 := rfl
  have htaken : (tail.take tailLen).length = tailLen := by
    rw [List.length_take]
    omega
  rw [suffix_iff_last hstop, ← hbytes, List.suffix_iff_eq_drop, htaken]
  constructor
  · rintro ⟨hle, heq⟩
    rw [slice_eq_last hle (by omega), last, htaken] at heq
    exact heq.symm
  · intro heq
    have hle : stop.length ≤ tailLen := by
      have hlen' := congrArg List.length heq
      rw [List.length_drop, htaken] at hlen'
      omega
    refine ⟨hle, ?_⟩
    rw [slice_eq_last hle (by omega), last, htaken]
    exact heq.symm

/-- What the loop over the stop sequences finds. -/
def Found (stops : List (List UInt8)) (seen : List UInt8) (found : ℕ × Bool) : Prop :=
  found = (0, false) ∧ ¬ Ends stops seen ∨ 0 < found.1 ∧ found.2 = true ∧ EndsIn stops seen found.1

/-- One pass of the loop. -/
lemma found_concat {tail seen stop : List UInt8} {tailLen : ℕ} {stops : List (List UInt8)}
    {found : ℕ × Bool} (h : TailHolds tail tailLen seen) (hpos : 0 < stop.length)
    (hstop : stop.length ≤ gwTailMax - 1) (hfound : Found stops seen found) :
    Found (stops ++ [stop]) seen (matchStops tail tailLen found stop) := by
  have hends : ∀ p ∈ stops ++ [stop], p ∈ stops ∨ p = stop := fun p hp => by
    simpa using hp
  have hcompare := compare_iff h hstop
  rw [matchStops]
  split_ifs with hmatch
  · refine Or.inr ⟨hpos, rfl, ⟨stop, by simp, hcompare.mp hmatch.2, rfl⟩, fun p hp hsuffix => ?_⟩
    obtain hp | rfl := hends p hp
    · obtain ⟨-, hnone⟩ | ⟨-, -, hends⟩ := hfound
      · exact absurd ⟨p, hp, hsuffix⟩ hnone
      · exact (hends.longest p hp hsuffix).trans hmatch.1.le
    · exact le_refl _
  · obtain ⟨rfl, hnone⟩ | ⟨hfpos, hhit, ⟨p, hp, hsuffix, hlen⟩, hlongest⟩ := hfound
    · refine Or.inl ⟨rfl, ?_⟩
      rintro ⟨p, hp, hsuffix⟩
      obtain hp | rfl := hends p hp
      · exact hnone ⟨p, hp, hsuffix⟩
      · exact hmatch ⟨hpos, hcompare.mpr hsuffix⟩
    · refine Or.inr ⟨hfpos, hhit, ⟨p, by simp [hp], hsuffix, hlen⟩, fun p' hp' hsuffix' => ?_⟩
      obtain hp' | rfl := hends p' hp'
      · exact hlongest p' hp' hsuffix'
      · by_contra hlt
        exact hmatch ⟨by omega, hcompare.mpr hsuffix'⟩

/-- The loop finds the longest stop sequence the cut text ends with. -/
lemma found_foldl {tail seen : List UInt8} {tailLen : ℕ} {stops : List (List UInt8)}
    (h : TailHolds tail tailLen seen)
    (hstops : ∀ stop ∈ stops, 0 < stop.length ∧ stop.length ≤ gwTailMax - 1) :
    Found stops seen (stops.foldl (matchStops tail tailLen) (0, false)) := by
  induction stops using List.reverseRecOn with
  | nil => exact Or.inl ⟨rfl, fun ⟨p, hp, _⟩ => by cases hp⟩
  | append_singleton stops stop ih =>
    rw [List.foldl_append]
    obtain ⟨hpos, hle⟩ := hstops stop (by simp)
    exact found_concat h hpos hle (ih fun p hp => hstops p (by simp [hp]))

/-! ## One token -/

/-- The fields that the detection uses, while no stop sequence was found. -/
structure Tracking (c : GenCtx) (stops : List (List UInt8)) (seen : List UInt8) : Prop where
  stream : c.stream = false
  failed : c.failed = false
  stops : c.stops = stops
  stopLen : c.stopLen = 0
  stopHit : c.stopHit = false
  /-- The tail. -/
  tail : TailHolds c.tail c.tailLen seen

/-- The state while no stop sequence was found. -/
structure Running (c : GenCtx) (stops : List (List UInt8)) (text seen : List UInt8) : Prop where
  /-- The reply. -/
  out : Holds c.out text
  tracking : Tracking c stops seen
  /-- The cut text is no longer than the text. -/
  le : seen.length ≤ text.length

/-- The state behind a stop sequence. -/
structure Stopped (c : GenCtx) (stops : List (List UInt8)) (reply : List UInt8) : Prop where
  /-- The reply. -/
  out : Holds c.out reply
  stops : c.stops = stops
  stopHit : c.stopHit = true
  tail_lt : c.tailLen < gwTailMax

lemma TailHolds.lt {tail seen : List UInt8} {tailLen : ℕ} (h : TailHolds tail tailLen seen) :
    tailLen < gwTailMax := by
  have hmax : gwTailMax = 320 := rfl
  have hlen := h.len
  omega

/-- The stop sequence is taken off the reply. -/
lemma dropStop_spec {c : GenCtx} {text : List UInt8} (hout : Holds c.out text)
    (hstream : c.stream = false) (hpos : 0 < c.stopLen) (hle : c.stopLen ≤ text.length) :
    ∃ out, dropStop c = .ok { c with out } ∧ Holds out (text.take (text.length - c.stopLen)) := by
  have hlen := hout.len
  have hcap := hout.cap
  have hroom := hout.room
  have hne : c.out.buf ≠ [] := fun hnil => by
    rw [hnil, List.length_nil] at hcap
    omega
  have hstore : c.out.len - c.stopLen + ([0] : List UInt8).length ≤ c.out.buf.length := by
    rw [List.length_singleton]
    omega
  rw [dropStop, if_pos ⟨by rw [hstream]; exact Bool.false_ne_true, by omega⟩, if_neg hne,
    if_pos (by omega)]
  refine ⟨_, rfl, ?_, ?_, ?_, ?_, hout.doubled⟩
  · rw [List.length_take]
    dsimp only
    omega
  · dsimp only
    omega
  · dsimp only
    rw [length_overwrite hstore, hcap]
  · dsimp only
    have htake := @take_overwrite c.out.buf [] [0] (c.out.len - c.stopLen) (by omega)
    rw [List.nil_append, List.append_nil, List.length_nil, Nat.add_zero] at htake
    have htext : c.out.buf.take c.out.len = text := hout.bytes
    rw [htake, ← htext, List.take_take, List.length_take, min_eq_left (by omega)]
    congr 1
    omega

/-- The detection behind a token that is in the reply. -/
lemma trackStops_spec {c : GenCtx} {stops : List (List UInt8)} {text seen token : List UInt8}
    (hout : Holds c.out (text ++ token)) (h : Tracking c stops seen) (hle : seen.length ≤ text.length)
    (htoken : token.length < 0x100000000) (hne : stops ≠ [])
    (hstops : ∀ stop ∈ stops, 0 < stop.length ∧ stop.length ≤ gwTailMax - 1) :
    (¬ Ends stops (seen ++ token.take (gwTailMax - 1)) ∧ ∃ c', trackStops c token = .ok c' ∧
        Running c' stops (text ++ token) (seen ++ token.take (gwTailMax - 1))) ∨
      ∃ n c', EndsIn stops (seen ++ token.take (gwTailMax - 1)) n ∧ n ≤ (text ++ token).length ∧
        trackStops c token = .ok c' ∧
        Stopped c' stops ((text ++ token).take ((text ++ token).length - n)) := by
  obtain ⟨tail', tailLen', hgrow, htail⟩ := growTail_spec h.tail htoken
  have hseen : (seen ++ token.take (gwTailMax - 1)).length ≤ (text ++ token).length := by
    rw [List.length_append, List.length_append, List.length_take]
    exact Nat.add_le_add hle (min_le_right _ _)
  have hfound := found_foldl htail hstops
  rw [trackStops, h.stops, if_neg hne, hgrow, Except.bind, h.stopLen, h.stopHit]
  dsimp only
  generalize stops.foldl (matchStops tail' tailLen') (0, false) = found at hfound ⊢
  obtain ⟨rfl, hnone⟩ | ⟨hpos, hhit, hends⟩ := hfound
  · refine Or.inl ⟨hnone, _, rfl, hout, ⟨h.stream, h.failed, rfl, rfl, rfl, htail⟩, hseen⟩
  · obtain ⟨n, hit⟩ := found
    obtain rfl : hit = true := hhit
    have hn : n ≤ (text ++ token).length := by
      obtain ⟨p, -, hsuffix, hlen⟩ := hends.found
      exact (Nat.le_of_eq hlen.symm).trans (hsuffix.length_le.trans hseen)
    obtain ⟨out, hdrop, hreply⟩ := @dropStop_spec
      { c with stops := stops, tail := tail', tailLen := tailLen', stopLen := n, stopHit := true }
      (text ++ token) hout h.stream hpos hn
    dsimp only
    rw [if_pos rfl, hdrop, Except.map]
    exact Or.inr ⟨n, _, hends, hn, rfl, hreply, rfl, rfl, htail.lt⟩

/-- The allocator does not refuse. -/
def Allocates : Prop := ∀ calls size, realloc calls size ≠ none

lemma putBytes_ok {realloc : Realloc} (halloc : Allocates realloc) {wb wb' : WriteBuffer.JsonWb}
    {s : List UInt8} {st : PaiStatus} (h : putBytes realloc wb s = .ok (wb', st)) : st = paiOk := by
  have hreserve : ∀ out st', WriteBuffer.paiJsonWbReserve realloc wb s.length = .ok (out, st') →
      st' = paiOk := by
    intro out st' hrun
    rw [WriteBuffer.paiJsonWbReserve] at hrun
    split_ifs at hrun
    · cases hrun
      rfl
    · split at hrun
      · cases hrun
      · split at hrun
        next hnone => exact absurd hnone (halloc _ _)
        next =>
          cases hrun
          rfl
  rw [putBytes] at h
  cases hrun : WriteBuffer.paiJsonWbReserve realloc wb s.length with
  | error stop =>
    rw [hrun] at h
    cases h
  | ok result =>
    obtain ⟨out, st'⟩ := result
    obtain rfl := hreserve out st' hrun
    rw [hrun] at h
    have h' : (if paiOk ≠ paiOk then .ok (out, paiOk) else if s = [] then .ok (out, paiOk)
        else storeBytes out s : WbRun) = .ok (wb', st) := h
    rw [if_neg (by decide)] at h'
    clear h
    split_ifs at h'
    · cases h'
      rfl
    · rw [storeBytes] at h'
      split_ifs at h'
      cases h'
      rfl

/-- **One token.**  The callback does not return when the reply would leave its range; else it finds what
the cut text ends with. -/
lemma genOnToken_spec {realloc : Realloc} (halloc : Allocates realloc) {c : GenCtx}
    {stops : List (List UInt8)} {text seen token : List UInt8} (h : Running c stops text seen)
    (htoken : token.length < 0x100000000) (hne : stops ≠ [])
    (hstops : ∀ stop ∈ stops, 0 < stop.length ∧ stop.length ≤ gwTailMax - 1) :
    (¬ (text ++ token).length ≤ 0x80000000 ∧ ∀ c', genOnToken realloc emitFails c token ≠ .ok c') ∨
      (text ++ token).length ≤ 0x80000000 ∧
      ((¬ Ends stops (seen ++ token.take (gwTailMax - 1)) ∧
          ∃ c', genOnToken realloc emitFails c token = .ok c' ∧
          Running c' stops (text ++ token) (seen ++ token.take (gwTailMax - 1))) ∨
        ∃ n c', EndsIn stops (seen ++ token.take (gwTailMax - 1)) n ∧ n ≤ (text ++ token).length ∧
          genOnToken realloc emitFails c token = .ok c' ∧
          Stopped c' stops ((text ++ token).take ((text ++ token).length - n))) := by
  have hputs : paiJsonWbPuts realloc c.out token = putBytes realloc c.out token := by
    rw [paiJsonWbPuts, WriteBuffer.paiJsonWbPutn, Nat.mod_eq_of_lt htoken, List.take_length]
  have hcode : genOnToken realloc emitFails c token = (putBytes realloc c.out token).bind fun r =>
      if r.2 ≠ paiOk then .ok { c with out := r.1, failed := true }
      else trackStops { c with out := r.1 } token := by
    rw [genOnToken, if_neg (by rw [h.tracking.failed, h.tracking.stopHit]; decide), if_neg (by
      rw [h.tracking.stream]; decide), hputs]
  have hlen := h.out.len
  rw [List.length_append, hcode]
  by_cases hfits : text.length + token.length ≤ 0x80000000
  · obtain ⟨out, st, hput, hst⟩ := holds_put realloc h.out (s := token) (by rw [hlen]; exact hfits)
    obtain rfl := putBytes_ok halloc hput
    have hout : Holds out (text ++ token) := by
      obtain ⟨-, hout⟩ | ⟨hno, -⟩ := hst
      · exact hout
      · exact absurd rfl hno
    rw [hput, Except.bind]
    dsimp only
    rw [if_neg (by decide), ← List.length_append]
    exact Or.inr ⟨by rw [List.length_append]; exact hfits, @trackStops_spec { c with out } stops text seen
      token hout ⟨h.tracking.stream, h.tracking.failed, h.tracking.stops, h.tracking.stopLen,
        h.tracking.stopHit, h.tracking.tail⟩ h.le htoken hne hstops⟩
  · obtain ⟨stop, hstop⟩ := put_past realloc h.out htoken (by rw [hlen]; exact hfits)
    rw [hstop]
    exact Or.inl ⟨hfits, fun c' h => by cases h⟩

/-! ## Runs -/

lemma cutTokens_concat (before : List (List UInt8)) (token : List UInt8) :
    cutTokens (before ++ [token]) = cutTokens before ++ token.take (gwTailMax - 1) := by
  rw [cutTokens, List.map_append, List.flatten_append, List.map_singleton, List.flatten_singleton]
  rfl

lemma flatten_concat (before : List (List UInt8)) (token : List UInt8) :
    (before ++ [token]).flatten = before.flatten ++ token := by
  rw [List.flatten_append, List.flatten_singleton]

/-- The state behind some tokens: nothing was found, or the reply is cut. -/
def Reached (c : GenCtx) (stops before : List (List UInt8)) : Prop :=
  ¬ Occurs stops before.flatten ∧ Running c stops before.flatten (cutTokens before) ∨
    ∃ pre stop, FirstEnd stops before.flatten pre stop ∧ Stopped c stops pre

lemma Reached.cut {c : GenCtx} {stops before : List (List UInt8)} (h : Reached c stops before) :
    c.stops = stops ∧ Cut c before.flatten := by
  obtain ⟨hnone, hrunning⟩ | ⟨pre, stop, hfirst, hstopped⟩ := h
  · have hstops := hrunning.tracking.stops
    refine ⟨hstops, fun _ => hrunning.out, fun pre stop hfirst => ?_, ?_, hrunning.tracking.tail.lt⟩
    · rw [hstops] at hfirst
      exact absurd hfirst.occurs hnone
    · rw [hstops, hrunning.tracking.stopHit]
      exact iff_of_false Bool.false_ne_true hnone
  · have hstops := hstopped.stops
    refine ⟨hstops, fun hnone => ?_, fun pre' stop' hfirst' => ?_, ?_, hstopped.tail_lt⟩
    · rw [hstops] at hnone
      exact absurd hfirst.occurs hnone
    · rw [hstops] at hfirst'
      rw [← hfirst.unique hfirst']
      exact hstopped.out
    · rw [hstops, hstopped.stopHit]
      exact iff_of_true rfl hfirst.occurs

section Runs

variable {realloc : Realloc} {emitFails : List UInt8 → Bool} {stops : List (List UInt8)}
  {token : List UInt8} {before : List (List UInt8)} {c : GenCtx}

/-- One token that meets its condition. -/
lemma reached_concat (halloc : Allocates realloc) (hne : stops ≠ [])
    (hstops : ∀ stop ∈ stops, 0 < stop.length ∧ stop.length ≤ gwTailMax - 1)
    (htoken : token.length < 0x100000000) (h : Reached c stops before)
    (hmeets : ¬ Occurs stops before.flatten → TokenMeets stops before token) :
    ∃ c', genOnToken realloc emitFails c token = .ok c' ∧ Reached c' stops (before ++ [token]) := by
  obtain ⟨hnone, hrunning⟩ | ⟨pre, stop, hfirst, hstopped⟩ := h
  · obtain ⟨hfits, hcaught, hsilent⟩ := hmeets hnone
    rw [flatten_concat, cutTokens_concat] at *
    obtain ⟨hlong, -⟩ | ⟨-, ⟨hquiet, c', hrun, hrunning'⟩ | ⟨n, c', hends, hn, hrun, hstopped⟩⟩ :=
      genOnToken_spec emitFails halloc hrunning htoken hne hstops
    · exact absurd hfits hlong
    · refine ⟨c', hrun, Or.inl ?_⟩
      rw [flatten_concat, cutTokens_concat]
      refine ⟨fun hoccurs => ?_, hrunning'⟩
      obtain ⟨pre, stop, hfirst⟩ := hoccurs.firstEnd
      exact hquiet (hcaught pre stop hfirst).ends
    · have hoccurs : Occurs stops (before.flatten ++ token) := by
        by_contra hnone'
        exact hsilent hnone' hends.ends
      obtain ⟨pre, stop, hfirst⟩ := hoccurs.firstEnd
      have hpre : pre <+: before.flatten ++ token := (List.prefix_append pre stop).trans hfirst.found
      have hcut : (before.flatten ++ token).take ((before.flatten ++ token).length - n) = pre := by
        rw [hends.unique (hcaught pre stop hfirst), Nat.sub_sub_self hpre.length_le]
        exact (List.prefix_iff_eq_take.mp hpre).symm
      rw [hcut] at hstopped
      refine ⟨c', hrun, Or.inr ⟨pre, stop, ?_, hstopped⟩⟩
      rw [flatten_concat]
      exact hfirst
  · refine ⟨c, ?_, Or.inr ⟨pre, stop, ?_, hstopped⟩⟩
    · rw [genOnToken, if_pos (Or.inr hstopped.stopHit)]
    · rw [flatten_concat]
      exact hfirst.append token

lemma foldlM_concat {ε σ α : Type} {f : σ → α → Except ε σ} {l : List α} {s s' : σ} (a : α)
    (h : l.foldlM f s = .ok s') : (l ++ [a]).foldlM f s = f s' a := by
  have hlast : [a].foldlM f s' = f s' a := by
    rw [List.foldlM_cons]
    exact bind_pure _
  rw [List.foldlM_append, h]
  exact hlast

/-- A run of tokens that meet their conditions. -/
lemma reached_take (halloc : Allocates realloc) (hne : stops ≠ [])
    (hstops : ∀ stop ∈ stops, 0 < stop.length ∧ stop.length ≤ gwTailMax - 1)
    {tokens : List (List UInt8)} (htokens : ∀ token ∈ tokens, token.length < 0x100000000)
    (hstart : Reached c stops []) (hmeet : TokensMeet stops tokens) {k : ℕ} (hk : k ≤ tokens.length) :
    ∃ c', (tokens.take k).foldlM (genOnToken realloc emitFails) c = .ok c' ∧
      Reached c' stops (tokens.take k) := by
  induction k with
  | zero => exact ⟨c, rfl, hstart⟩
  | succ k ih =>
    obtain ⟨c₁, hrun, hreached⟩ := ih (Nat.le_of_succ_le hk)
    have hlt : k < tokens.length := hk
    obtain ⟨c₂, hstep, hreached'⟩ := @reached_concat realloc emitFails stops tokens[k] _ c₁ halloc hne hstops
      (htokens _ (List.getElem_mem hlt)) hreached fun hnone =>
        hmeet (tokens.take k) tokens[k] (tokens.drop (k + 1)) (by simp) hnone
    rw [List.take_succ_eq_append_getElem hlt]
    exact ⟨c₂, (foldlM_concat _ hrun).trans hstep, hreached'⟩

/-- What a run that cuts the reply as promised does behind some of its tokens. -/
lemma CutsReply.at {tokens : List (List UInt8)} (h : CutsReply realloc emitFails c tokens)
    (hbefore : before <+: tokens) (hstops : c.stops = stops) :
    ∃ c', before.foldlM (genOnToken realloc emitFails) c = .ok c' ∧ c'.stops = stops ∧
      Cut c' before.flatten := by
  have hrun := h before.length hbefore.length_le
  rwa [← List.prefix_iff_eq_take.mp hbefore, hstops] at hrun

/-- In a run that cuts the reply as promised, nothing was found while the text has no stop sequence. -/
lemma running_of_cutsReply (halloc : Allocates realloc) (hne : stops ≠ [])
    (hstops : ∀ stop ∈ stops, 0 < stop.length ∧ stop.length ≤ gwTailMax - 1)
    {tokens : List (List UInt8)} (htokens : ∀ token ∈ tokens, token.length < 0x100000000)
    (hstart : Running c stops [] []) (hcuts : CutsReply realloc emitFails c tokens)
    (hbefore : before <+: tokens) (hnone : ¬ Occurs stops before.flatten) :
    ∃ c', before.foldlM (genOnToken realloc emitFails) c = .ok c' ∧
      Running c' stops before.flatten (cutTokens before) := by
  induction before using List.reverseRecOn with
  | nil => exact ⟨c, rfl, hstart⟩
  | append_singleton before token ih =>
    rw [flatten_concat] at hnone
    obtain ⟨c₁, hrun, hrunning⟩ := ih ((List.prefix_append _ _).trans hbefore)
      fun hoccurs => hnone (hoccurs.append token)
    obtain ⟨c₂, hrun₂, -, hcut⟩ := hcuts.at hbefore hstart.tracking.stops
    rw [foldlM_concat token hrun] at hrun₂ ⊢
    rw [flatten_concat] at hcut ⊢
    rw [cutTokens_concat]
    obtain ⟨-, hno⟩ | ⟨-, ⟨-, c', hrun', hrunning'⟩ | ⟨n, c', -, -, hrun', hstopped⟩⟩ :=
      genOnToken_spec emitFails halloc hrunning (htokens token (hbefore.subset (by simp))) hne hstops
    · exact absurd hrun₂ (hno c₂)
    · exact ⟨c', hrun', hrunning'⟩
    · obtain rfl : c₂ = c' := Except.ok.inj (hrun₂.symm.trans hrun')
      have hoccurs := hcut.hit_iff.mp hstopped.stopHit
      rw [hstopped.stops] at hoccurs
      exact absurd hoccurs hnone

/-- In a run that cuts the reply as promised, every token meets its condition. -/
lemma tokensMeet_of_cutsReply (halloc : Allocates realloc) (hne : stops ≠ [])
    (hstops : ∀ stop ∈ stops, 0 < stop.length ∧ stop.length ≤ gwTailMax - 1)
    {tokens : List (List UInt8)} (htokens : ∀ token ∈ tokens, token.length < 0x100000000)
    (hstart : Running c stops [] []) (hcuts : CutsReply realloc emitFails c tokens) :
    TokensMeet stops tokens := by
  intro before token after hsplit hnone
  have hnext : before ++ [token] <+: tokens := ⟨after, by rw [hsplit]; simp⟩
  obtain ⟨c₁, hrun, hrunning⟩ := running_of_cutsReply halloc hne hstops htokens hstart hcuts
    ((List.prefix_append _ _).trans hnext) hnone
  obtain ⟨c₂, hrun₂, hc₂, hwhole, hcut, hhit, -⟩ := hcuts.at hnext hstart.tracking.stops
  rw [foldlM_concat token hrun] at hrun₂
  rw [hc₂, flatten_concat] at hcut hhit
  obtain ⟨-, hno⟩ | ⟨hfits, ⟨hquiet, c', hrun', hrunning'⟩ | ⟨n, c', hends, hn, hrun', hstopped⟩⟩ :=
    genOnToken_spec emitFails halloc hrunning (htokens token (hnext.subset (by simp))) hne hstops
  · exact absurd hrun₂ (hno c₂)
  · obtain rfl : c₂ = c' := Except.ok.inj (hrun₂.symm.trans hrun')
    have hno : ¬ Occurs stops (before.flatten ++ token) := fun hoccurs => by
      have hset := hhit.mpr hoccurs
      rw [hrunning'.tracking.stopHit] at hset
      cases hset
    constructor
    · rw [flatten_concat]
      exact hfits
    · rw [flatten_concat]
      exact fun pre stop hfirst => absurd hfirst.occurs hno
    · rw [cutTokens_concat]
      exact fun _ => hquiet
  · obtain rfl : c₂ = c' := Except.ok.inj (hrun₂.symm.trans hrun')
    have hoccurs := hhit.mp hstopped.stopHit
    constructor
    · rw [flatten_concat]
      exact hfits
    · rw [flatten_concat, cutTokens_concat]
      intro pre stop hfirst
      -- both describe the bytes of the reply
      have hheld := (hcut pre stop hfirst).len
      rw [hstopped.out.len, List.length_take] at hheld
      have hpre : pre.length ≤ (before.flatten ++ token).length :=
        ((List.prefix_append pre stop).trans hfirst.found).length_le
      rwa [show (before.flatten ++ token).length - pre.length = n by omega]
    · rw [flatten_concat]
      exact fun hno => absurd hoccurs hno

end Runs

/-- Tokens that fit into the tail meet their conditions as long as the stop sequence that ends first ends
with a token. -/
lemma tokenMeets_of_aligned {stops before : List (List UInt8)} {token : List UInt8}
    (hshort : ∀ t ∈ before ++ [token], t.length ≤ gwTailMax - 1)
    (hfits : (before ++ [token]).flatten.length ≤ 0x80000000)
    (haligned : ∀ pre stop, FirstEnd stops (before ++ [token]).flatten pre stop →
      pre ++ stop = (before ++ [token]).flatten) : TokenMeets stops before token := by
  have hcut : cutTokens (before ++ [token]) = (before ++ [token]).flatten := by
    rw [cutTokens, List.map_congr_left fun t ht => List.take_of_length_le (hshort t ht), List.map_id']
  refine ⟨hfits, fun pre stop hfirst => ?_, fun hnone hends => ?_⟩
  · have htext := haligned pre stop hfirst
    rw [hcut, ← htext, List.length_append, Nat.add_sub_cancel_left]
    refine ⟨⟨stop, hfirst.mem, List.suffix_append _ _, rfl⟩, fun p hp hsuffix => ?_⟩
    obtain ⟨q, hq⟩ := hsuffix
    exact hfirst.longest q p hp (by rw [hq]; exact hfirst.found) (by rw [hq])
  · rw [hcut] at hends
    exact hnone hends.occurs

/-- **Stop sequences.**  In a run of tokens the reply is cut before the stop sequence that ends first, and
the flag set as soon as there is one, exactly when every token up to there meets its condition. -/
theorem genOnToken_run_iff {realloc : Realloc} (halloc : Allocates realloc) (emitFails : List UInt8 → Bool)
    {stops : List (List UInt8)} (hne : stops ≠ [])
    (hstops : ∀ stop ∈ stops, 0 < stop.length ∧ stop.length ≤ gwTailMax - 1)
    {tail : List UInt8} (htail : tail.length = gwTailMax) (remote : Bool)
    {tokens : List (List UInt8)} (htokens : ∀ token ∈ tokens, token.length < 0x100000000) :
    CutsReply realloc emitFails (genStart stops tail remote) tokens ↔ TokensMeet stops tokens := by
  have hstart : Running (genStart stops tail remote) stops [] [] :=
    ⟨holds_init, ⟨rfl, rfl, rfl, rfl, rfl, htail, rfl, rfl⟩, Nat.le_refl _⟩
  have hnone : ¬ Occurs stops ([] : List (List UInt8)).flatten := by
    rintro ⟨p, hp, hinfix⟩
    have hpos := (hstops p hp).1
    rw [List.infix_nil.mp hinfix, List.length_nil] at hpos
    exact absurd hpos (lt_irrefl 0)
  refine ⟨tokensMeet_of_cutsReply halloc hne hstops htokens hstart, fun hmeet k hk => ?_⟩
  obtain ⟨c', hrun, hreached⟩ := reached_take halloc hne hstops htokens (Or.inl ⟨hnone, hstart⟩) hmeet hk
  exact ⟨c', hrun, hreached.cut⟩

/-- The text `xab` in two tokens, with the stop sequence `ab`. -/
theorem genOnToken_run_iff_two :
    CutsReply (fun _ _ => some fun _ => 0) (fun _ => false)
        (genStart [[97, 98]] (List.replicate gwTailMax 0) false) [[120, 97], [98]] ↔
      TokensMeet [[97, 98]] [[120, 97], [98]] :=
  @genOnToken_run_iff (fun _ _ => some fun _ => 0) (fun _ _ => Option.some_ne_none _) (fun _ => false)
    [[97, 98]] (by decide) (by decide) (List.replicate gwTailMax 0) List.length_replicate false
    [[120, 97], [98]] (by decide)

/-- The stop sequence `a` inside the token `ab` goes unnoticed. -/
theorem genOnToken_misses :
    ¬ CutsReply (fun _ _ => some fun _ => 0) (fun _ => false)
      (genStart [[97]] (List.replicate gwTailMax 0) false) [[97, 98]] := by
  intro hcuts
  obtain ⟨c, hrun, hstops, hcut⟩ := hcuts 1 (by decide)
  have hrun' : genOnToken (fun _ _ => some fun _ => 0) (fun _ => false)
      (genStart [[97]] (List.replicate gwTailMax 0) false) [97, 98] = .ok c := by
    rw [← hrun, ← List.nil_append (List.take 1 _)]
    exact (foldlM_concat (l := []) _ rfl).symm
  have hflag : (genOnToken (fun _ _ => some fun _ => 0) (fun _ => false)
      (genStart [[97]] (List.replicate gwTailMax 0) false) [97, 98]).toOption.map GenCtx.stopHit =
      some false := by decide +kernel
  rw [hrun', Except.toOption, Option.map_some, Option.some_inj] at hflag
  have hset := hcut.hit_iff.mpr
  rw [hstops, hflag] at hset
  exact Bool.false_ne_true (hset ⟨[97], by decide, [], [98], rfl⟩)

end Prospero
