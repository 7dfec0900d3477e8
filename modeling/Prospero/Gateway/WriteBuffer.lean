import Prospero.Gateway.JsonWriter

/-!
# The memory of the write buffer

`gateway/json.c`: `pai_json_wb_reserve`, `pai_json_wb_putc`, `pai_json_wb_putn`, `pai_json_wb_puts` and
`pai_json_quote` on the allocated block itself, with allocations that may fail and a block whose new bytes
are arbitrary.  A write past the block stops the run (`WbStop.outside`), and so does a doubling loop that
does not end (`WbStop.hang`).

### Outline
* `Holds` ties a buffer to what was written: the length is within the capacity, the capacity is the size
  of the block, and the block opens with the bytes written.
* A put keeps it as long as the buffer stays within `2 ^ 31` bytes (`holds_put`), and a put past that does
  not obey its law (`put_past`).
* From that, whole runs of calls (`writeBuffer_run`).
-/

namespace Prospero.WriteBuffer

/-! ## The buffer -/

/-- `pai_json_wb_t` with the block it points to and the number of `realloc` calls so far. -/
structure JsonWb where
  /-- The allocated block. -/
  buf : List UInt8
  /-- Bytes written. -/
  len : ℕ
  /-- Capacity. -/
  cap : ℕ
  /-- `realloc` calls so far. -/
  calls : ℕ

/-- `pai_json_wb_init`. -/
def paiJsonWbInit : JsonWb := ⟨[], 0, 0, 0⟩

/-- Why a call does not return. -/
inductive WbStop where
  /-- The doubling loop does not end. -/
  | hang
  /-- A write past the allocated block. -/
  | outside
deriving DecidableEq

/-- A call: the buffer and the status it returns. -/
abbrev WbRun := Except WbStop (JsonWb × PaiStatus)

/-- The answers of `realloc` by the number of the call and the size asked for: a refusal, or the bytes
that the new part of the block holds. -/
abbrev Realloc := ℕ → ℕ → Option (ℕ → UInt8)

variable (realloc : Realloc)

/-- A block grown to a size. -/
def growBlock (buf : List UInt8) (size : ℕ) (fresh : ℕ → UInt8) : List UInt8 :=
  buf ++ (List.range (size - buf.length)).map fresh

/-- `pai_json_wb_reserve`. -/
def paiJsonWbReserve (wb : JsonWb) (extra : ℕ) : WbRun :=
  let need := (wb.len + extra) % 0x100000000
  if need ≤ wb.cap then .ok (wb, paiOk)
  else match growTo 256 wb.cap need with
    | none => .error .hang
    | some ncap =>
      match realloc wb.calls ncap with
      | none => .ok ({ wb with calls := wb.calls + 1 }, paiErrNomem)
      | some fresh =>
        .ok ({ wb with buf := growBlock wb.buf ncap fresh, cap := ncap, calls := wb.calls + 1 }, paiOk)

/-- Bytes stored behind those written, and counted. -/
def storeBytes (wb : JsonWb) (s : List UInt8) : WbRun :=
  if wb.len + s.length ≤ wb.buf.length then
    .ok ({ wb with
           buf := wb.buf.take wb.len ++ s ++ wb.buf.drop (wb.len + s.length)
           len := (wb.len + s.length) % 0x100000000 }, paiOk)
  else .error .outside

/-- The body that the puts share: room first, then the bytes. -/
def putBytes (wb : JsonWb) (s : List UInt8) : WbRun := do
  let (wb, st) ← paiJsonWbReserve realloc wb s.length
  if st ≠ paiOk then .ok (wb, st) else if s = [] then .ok (wb, paiOk) else storeBytes wb s

/-- `pai_json_wb_putc`. -/
def paiJsonWbPutc (wb : JsonWb) (c : UInt8) : WbRun := putBytes realloc wb [c]

/-- `pai_json_wb_putn` on bytes, or on a null pointer with a count. -/
def paiJsonWbPutn (wb : JsonWb) (s : Option (List UInt8)) (n : ℕ) : WbRun :=
  match s with
  | none => if n ≠ 0 then .ok (wb, paiErrInvalidArg) else putBytes realloc wb []
  | some s => putBytes realloc wb (s.take n)

/-- `pai_json_wb_puts`: the length of the string is narrowed to 32 bits. -/
def paiJsonWbPuts (wb : JsonWb) (s : List UInt8) : WbRun :=
  paiJsonWbPutn realloc wb (some s) (s.length % 0x100000000)

/-- What `pai_json_quote` puts for a byte. -/
def quotePut (wb : JsonWb) (c : UInt8) : WbRun :=
  match quoteByte c with
  | [b] => paiJsonWbPutc realloc wb b
  | escape => paiJsonWbPuts realloc wb escape

/-- The loop of `pai_json_quote`. -/
def quoteLoop : List UInt8 → JsonWb → WbRun
  | [], wb => paiJsonWbPutc realloc wb 34
  | c :: s, wb => do
    let (wb, st) ← quotePut realloc wb c
    if st ≠ paiOk then .ok (wb, st) else quoteLoop s wb

/-- `pai_json_quote`. -/
def paiJsonQuote (wb : JsonWb) (s : List UInt8) : WbRun := do
  let (wb, st) ← paiJsonWbPutc realloc wb 34
  if st ≠ paiOk then .ok (wb, st) else quoteLoop realloc s wb

/-! ## Calls -/

/-- One call.  A count of `pai_json_wb_putn` and `pai_json_quote` has 32 bits, a string has any length. -/
inductive WbCall where
  /-- `pai_json_wb_putc`. -/
  | putc (c : UInt8)
  /-- `pai_json_wb_putn`. -/
  | putn (s : List UInt8) (h : s.length < 0x100000000)
  /-- `pai_json_wb_putn` on a null pointer. -/
  | putnNull (n : ℕ) (h : n < 0x100000000)
  /-- `pai_json_wb_puts`. -/
  | puts (s : List UInt8)
  /-- `pai_json_quote`. -/
  | quote (s : List UInt8) (h : s.length < 0x100000000)

/-- What a call does. -/
def WbCall.run (wb : JsonWb) : WbCall → WbRun
  | .putc c => paiJsonWbPutc realloc wb c
  | .putn s _ => paiJsonWbPutn realloc wb (some s) s.length
  | .putnNull n _ => paiJsonWbPutn realloc wb none n
  | .puts s => paiJsonWbPuts realloc wb s
  | .quote s _ => paiJsonQuote realloc wb s

/-- The text of a quoted string. -/
def quoted (s : List UInt8) : List UInt8 := 34 :: (s.flatMap quoteByte ++ [34])

/-- What a call has to write. -/
def WbCall.text : WbCall → List UInt8
  | .putc c => [c]
  | .putn s _ => s
  | .putnNull _ _ => []
  | .puts s => s
  | .quote s _ => quoted s

/-- A put writes its text at once, a quote piece by piece. -/
def WbCall.isPut : WbCall → Prop
  | .quote _ _ => False
  | _ => True

/-- A put with a 32-bit count. -/
def WbCall.counted : WbCall → Prop
  | .puts _ => False
  | .quote _ _ => False
  | _ => True

/-- What a call wrote: its text when it returns `PAI_OK`; else nothing, or the beginning of a quoted
string. -/
def WbCall.Wrote (call : WbCall) (st : PaiStatus) (out : List UInt8) : Prop :=
  (st = paiOk ∧ out = call.text) ∨ (st ≠ paiOk ∧ out <+: call.text ∧ (call.isPut → out = []))

/-- The buffer holds what was written: the length is within the capacity, which is the size of the block,
and the block opens with the bytes written. -/
structure Holds (wb : JsonWb) (written : List UInt8) : Prop where
  /-- The length. -/
  len : wb.len = written.length
  /-- The length is within the capacity. -/
  room : wb.len ≤ wb.cap
  /-- The capacity is the size really allocated. -/
  cap : wb.cap = wb.buf.length
  /-- The bytes written. -/
  bytes : wb.buf.take wb.len = written
  /-- The capacity was reached by doubling. -/
  doubled : ReachedCap 8 wb.cap

/-- A call returns, and the buffer holds what was written before and what the call wrote. -/
def Obeys (wb : JsonWb) (written : List UInt8) (call : WbCall) : Prop :=
  ∃ wb' st out, call.run realloc wb = .ok (wb', st) ∧ call.Wrote st out ∧ Holds wb' (written ++ out)

/-- The buffer stays within `2 ^ 31` bytes in a call. -/
def InRange (wb : JsonWb) (call : WbCall) : Prop := wb.len + call.text.length ≤ 0x80000000

/-- The law of a run: in every state reached the buffer holds what was written.  A call obeys its law when
the buffer stays in range, and the run goes on from there; a put with a 32-bit count obeys it only then. -/
def Lawful : List WbCall → JsonWb → List UInt8 → Prop
  | [], wb, written => Holds wb written
  | call :: calls, wb, written =>
    Holds wb written ∧ (call.counted → Obeys realloc wb written call → InRange wb call) ∧
      (InRange wb call → ∃ wb' st out, call.run realloc wb = .ok (wb', st) ∧ call.Wrote st out ∧
        Lawful calls wb' (written ++ out))

/-! ## One put -/

lemma holds_init : Holds paiJsonWbInit [] where
  len := rfl
  room := le_refl _
  cap := rfl
  bytes := rfl
  doubled := .inl rfl

lemma Holds.cap_le {wb : JsonWb} {written : List UInt8} (h : Holds wb written) : wb.cap ≤ 0x80000000 := by
  rcases h.doubled with hzero | ⟨m, -, hm, heq⟩
  · omega
  · rw [heq]
    exact Nat.pow_le_pow_right (by decide) hm

/-- Room for more bytes: the block is large enough, or the allocation was refused; the bytes written stay. -/
lemma holds_reserve {wb : JsonWb} {written : List UInt8} (h : Holds wb written) {extra : ℕ}
    (hrange : wb.len + extra ≤ 0x80000000) :
    ∃ wb' st, paiJsonWbReserve realloc wb extra = .ok (wb', st) ∧ Holds wb' written ∧
      (st = paiOk ∧ written.length + extra ≤ wb'.cap ∨ st = paiErrNomem) := by
  have hneed : (wb.len + extra) % 0x100000000 = wb.len + extra := Nat.mod_eq_of_lt (by omega)
  rw [paiJsonWbReserve]
  simp only [hneed]
  split_ifs with hroom
  · exact ⟨wb, paiOk, rfl, h, .inl ⟨rfl, by rw [← h.len]; exact hroom⟩⟩
  · have hspec := growTo_spec (k := 8) (by decide) h.doubled (show 0 < wb.len + extra by omega)
    obtain ⟨ncap, hncap⟩ : ∃ ncap, growTo 256 wb.cap (wb.len + extra) = some ncap := hspec.2 hrange
    obtain ⟨-, hle, hdoubled⟩ := hspec.1 ncap hncap
    rw [hncap]
    dsimp only
    cases realloc wb.calls ncap with
    | none => exact ⟨_, _, rfl, ⟨h.len, h.room, h.cap, h.bytes, h.doubled⟩, .inr rfl⟩
    | some fresh =>
      refine ⟨_, _, rfl, ⟨h.len, by dsimp only; omega, ?_, ?_, hdoubled⟩, .inl ⟨rfl, by rw [← h.len]; exact hle⟩⟩
      · have hcap := h.cap
        simp only [growBlock, List.length_append, List.length_map, List.length_range]
        omega
      · have hlen : wb.len ≤ wb.buf.length := h.cap ▸ h.room
        rw [growBlock, List.take_append_of_le_length hlen]
        exact h.bytes

/-- Bytes stored in a block that has room. -/
lemma holds_store {wb : JsonWb} {written s : List UInt8} (h : Holds wb written)
    (hroom : written.length + s.length ≤ wb.cap) :
    ∃ wb', storeBytes wb s = .ok (wb', paiOk) ∧ Holds wb' (written ++ s) := by
  have hlen := h.len
  have hcap := h.cap
  have hmax := h.cap_le
  have hwrap : (wb.len + s.length) % 0x100000000 = wb.len + s.length := Nat.mod_eq_of_lt (by omega)
  have htaken : (wb.buf.take wb.len).length = wb.len := by
    rw [List.length_take]
    omega
  rw [storeBytes, if_pos (by omega)]
  refine ⟨_, rfl, ⟨?_, ?_, ?_, ?_, h.doubled⟩⟩
  · rw [hwrap, List.length_append, hlen]
  · dsimp only
    omega
  · simp only [List.length_append, List.length_drop, htaken]
    omega
  · dsimp only
    rw [hwrap, List.take_left' (by rw [List.length_append, htaken]), h.bytes]

/-- A put within the range. -/
lemma holds_put {wb : JsonWb} {written s : List UInt8} (h : Holds wb written)
    (hrange : wb.len + s.length ≤ 0x80000000) :
    ∃ wb' st, putBytes realloc wb s = .ok (wb', st) ∧
      (st = paiOk ∧ Holds wb' (written ++ s) ∨ st ≠ paiOk ∧ Holds wb' written) := by
  obtain ⟨wb', st, hreserve, hholds, hst⟩ := holds_reserve realloc h hrange
  rw [putBytes, hreserve]
  rcases hst with ⟨rfl, hroom⟩ | rfl
  · by_cases hnil : s = []
    · refine ⟨wb', paiOk, ?_, .inl ⟨rfl, by rwa [hnil, List.append_nil]⟩⟩
      rw [hnil]
      rfl
    · obtain ⟨wb'', hstore, hholds'⟩ := holds_store hholds hroom
      refine ⟨wb'', paiOk, ?_, .inl ⟨rfl, hholds'⟩⟩
      simpa [Except.bind, bind, hnil] using hstore
  · exact ⟨wb', paiErrNomem, rfl, .inr ⟨by decide, hholds⟩⟩

/-- A put past the range does not return: its doubling loop does not end, or the length wraps and the
bytes are written past the block. -/
lemma put_past {wb : JsonWb} {written s : List UInt8} (h : Holds wb written) (hs : s.length < 0x100000000)
    (hrange : ¬ wb.len + s.length ≤ 0x80000000) : ∃ stop, putBytes realloc wb s = .error stop := by
  have hmax := h.cap_le
  have hroom := h.room
  have hcap := h.cap
  by_cases hwrap : wb.len + s.length < 0x100000000
  · -- no doubling reaches this many bytes
    have hneed : (wb.len + s.length) % 0x100000000 = wb.len + s.length := Nat.mod_eq_of_lt hwrap
    have hnone : growTo 256 wb.cap (wb.len + s.length) = none := by
      cases hgrow : growTo 256 wb.cap (wb.len + s.length) with
      | none => rfl
      | some ncap =>
        have hspec := growTo_spec (k := 8) (by decide) h.doubled (show 0 < wb.len + s.length by omega)
        exact absurd (hspec.1 ncap hgrow).1 hrange
    refine ⟨.hang, ?_⟩
    rw [putBytes, paiJsonWbReserve]
    simp only [hneed, hnone]
    rw [if_neg (by omega)]
    rfl
  · -- the need wraps to one that the block meets
    have hneed : (wb.len + s.length) % 0x100000000 ≤ wb.cap := by omega
    have hnil : s ≠ [] := by
      rintro rfl
      rw [List.length_nil] at hwrap
      omega
    refine ⟨.outside, ?_⟩
    rw [putBytes, paiJsonWbReserve]
    simp only [if_pos hneed, Except.bind, bind]
    rw [if_neg (by decide), if_neg hnil, storeBytes, if_neg (by omega)]

/-! ## Calls -/

/-- A call that is one put. -/
lemma obeys_of_put {wb : JsonWb} {written : List UInt8} (h : Holds wb written) {call : WbCall}
    (hrun : call.run realloc wb = putBytes realloc wb call.text)
    (hrange : InRange wb call) :
    ∃ wb' st out, call.run realloc wb = .ok (wb', st) ∧ call.Wrote st out ∧ Holds wb' (written ++ out) := by
  obtain ⟨wb', st, hputs, hst⟩ := holds_put realloc h hrange
  rcases hst with ⟨rfl, hholds⟩ | ⟨hst, hholds⟩
  · exact ⟨wb', paiOk, call.text, hrun.trans hputs, .inl ⟨rfl, rfl⟩, hholds⟩
  · refine ⟨wb', st, [], hrun.trans hputs, .inr ⟨hst, List.nil_prefix, fun _ => rfl⟩, ?_⟩
    rwa [List.append_nil]

lemma quoteByte_length (c : UInt8) : 1 ≤ (quoteByte c).length ∧ (quoteByte c).length ≤ 6 := by
  unfold quoteByte
  split <;> first | decide | (split_ifs <;> simp [fmt04x])

lemma quotePut_eq (wb : JsonWb) (c : UInt8) : quotePut realloc wb c = putBytes realloc wb (quoteByte c) := by
  have hlen := quoteByte_length c
  have hputs : paiJsonWbPuts realloc wb (quoteByte c) = putBytes realloc wb (quoteByte c) := by
    rw [paiJsonWbPuts, paiJsonWbPutn, Nat.mod_eq_of_lt (by omega), List.take_length]
  unfold quotePut
  split
  next b hb => rw [hb]; rfl
  next => exact hputs

/-- The loop of a quote within the range. -/
lemma holds_quoteLoop {wb : JsonWb} {written s : List UInt8} (h : Holds wb written)
    (hrange : wb.len + (s.flatMap quoteByte ++ [34]).length ≤ 0x80000000) :
    ∃ wb' st out, quoteLoop realloc s wb = .ok (wb', st) ∧ Holds wb' (written ++ out) ∧
      (st = paiOk ∧ out = s.flatMap quoteByte ++ [34] ∨ st ≠ paiOk ∧ out <+: s.flatMap quoteByte ++ [34]) := by
  induction s generalizing wb written with
  | nil =>
    obtain ⟨wb', st, hput, hst⟩ := holds_put realloc h (s := [34]) hrange
    rcases hst with ⟨rfl, hholds⟩ | ⟨hst, hholds⟩
    · exact ⟨wb', paiOk, [34], hput, hholds, .inl ⟨rfl, rfl⟩⟩
    · exact ⟨wb', st, [], hput, by rwa [List.append_nil], .inr ⟨hst, List.nil_prefix⟩⟩
  | cons c s ih =>
    rw [List.flatMap_cons, List.append_assoc, List.length_append] at hrange
    obtain ⟨wb', st, hput, hst⟩ := holds_put realloc h (s := quoteByte c) (by omega)
    rw [quoteLoop, quotePut_eq, hput, List.flatMap_cons, List.append_assoc]
    rcases hst with ⟨rfl, hholds⟩ | ⟨hst, hholds⟩
    · have hlen := hholds.len
      rw [List.length_append, ← h.len] at hlen
      obtain ⟨wb'', st, out, hloop, hholds', hout⟩ := ih hholds (by omega)
      refine ⟨wb'', st, quoteByte c ++ out, hloop, by rwa [← List.append_assoc], ?_⟩
      rcases hout with ⟨hst, rfl⟩ | ⟨hst, hout⟩
      · exact .inl ⟨hst, rfl⟩
      · exact .inr ⟨hst, (List.prefix_append_right_inj _).mpr hout⟩
    · refine ⟨wb', st, [], ?_, by rwa [List.append_nil], .inr ⟨hst, List.nil_prefix⟩⟩
      simp only [Except.bind, bind]
      rw [if_pos hst]

/-- A call within the range. -/
lemma call_inRange {wb : JsonWb} {written : List UInt8} (h : Holds wb written) {call : WbCall}
    (hrange : InRange wb call) :
    ∃ wb' st out, call.run realloc wb = .ok (wb', st) ∧ call.Wrote st out ∧ Holds wb' (written ++ out) := by
  cases call with
  | putc c => exact obeys_of_put realloc h rfl hrange
  | putn s hs =>
    refine obeys_of_put realloc h ?_ hrange
    change putBytes realloc wb (s.take s.length) = _
    rw [List.take_length]
    rfl
  | putnNull n hn =>
    by_cases hzero : n = 0
    · refine obeys_of_put realloc h ?_ hrange
      change (if n ≠ 0 then _ else putBytes realloc wb []) = _
      rw [if_neg (by simpa using hzero)]
      rfl
    · refine ⟨wb, paiErrInvalidArg, [], if_pos hzero, .inr ⟨by decide, List.nil_prefix, fun _ => rfl⟩, ?_⟩
      rwa [List.append_nil]
  | puts s =>
    refine obeys_of_put realloc h ?_ hrange
    have hs : s.length < 0x100000000 := by
      have hle : wb.len + s.length ≤ 0x80000000 := hrange
      omega
    change putBytes realloc wb (s.take (s.length % 0x100000000)) = _
    rw [Nat.mod_eq_of_lt hs, List.take_length]
    rfl
  | quote s hs =>
    have hlen : wb.len + (quoted s).length ≤ 0x80000000 := hrange
    rw [quoted, List.length_cons] at hlen
    obtain ⟨wb', st, hput, hst⟩ := holds_put realloc h (s := [34]) (by rw [List.length_singleton]; omega)
    have hrun : WbCall.run realloc wb (.quote s hs) = (do
        let (wb, st) ← (.ok (wb', st) : WbRun)
        if st ≠ paiOk then .ok (wb, st) else quoteLoop realloc s wb) := by
      rw [← hput]
      rfl
    rw [hrun]
    rcases hst with ⟨rfl, hholds⟩ | ⟨hst, hholds⟩
    · have hlen' := hholds.len
      rw [List.length_append, ← h.len, List.length_singleton] at hlen'
      obtain ⟨wb'', st, out, hloop, hholds', hout⟩ := holds_quoteLoop realloc hholds (s := s) (by omega)
      refine ⟨wb'', st, 34 :: out, hloop, ?_, by simpa using hholds'⟩
      rcases hout with ⟨hst, rfl⟩ | ⟨hst, hout⟩
      · exact .inl ⟨hst, rfl⟩
      · exact .inr ⟨hst, List.cons_prefix_cons.mpr ⟨rfl, hout⟩, fun hput => hput.elim⟩
    · refine ⟨wb', st, [], ?_, .inr ⟨hst, List.nil_prefix, fun _ => rfl⟩, by rwa [List.append_nil]⟩
      simp only [Except.bind, bind]
      rw [if_pos hst]

/-- A counted put that obeys its law is in range. -/
lemma inRange_of_obeys {wb : JsonWb} {written : List UInt8} (h : Holds wb written) {call : WbCall}
    (hcounted : call.counted) (hobeys : Obeys realloc wb written call) : InRange wb call := by
  obtain ⟨wb', st, out, hrun, -, -⟩ := hobeys
  by_contra hrange
  have hstop : ∀ s : List UInt8, call.run realloc wb = putBytes realloc wb s → s.length < 0x100000000 →
      s.length = call.text.length → False := by
    intro s hs hlen heq
    obtain ⟨stop, hstop⟩ := put_past realloc h hlen (by rw [heq]; exact hrange)
    rw [hs, hstop] at hrun
    cases hrun
  cases call with
  | putc c => exact hstop [c] rfl (by simp) rfl
  | putn s hs =>
    refine hstop s ?_ hs rfl
    change putBytes realloc wb (s.take s.length) = _
    rw [List.take_length]
  | putnNull n hn =>
    have hmax := h.cap_le
    have hroom := h.room
    exact hrange (by change wb.len + 0 ≤ _; omega)
  | puts s => exact hcounted
  | quote s hs => exact hcounted

/-- In every run of calls, as long as the buffer stays within `2 ^ 31` bytes, each call returns and the
buffer holds everything written so far. -/
theorem writeBuffer_run (calls : List WbCall) : Lawful realloc calls paiJsonWbInit [] := by
  have hrun : ∀ wb written, Holds wb written → Lawful realloc calls wb written := by
    induction calls with
    | nil => exact fun wb written h => h
    | cons call calls ih =>
      refine fun wb written h => ⟨h, inRange_of_obeys realloc h, fun hrange => ?_⟩
      obtain ⟨wb', st, out, hcall, hwrote, hholds⟩ := call_inRange realloc h hrange
      exact ⟨wb', st, out, hcall, hwrote, ih wb' (written ++ out) hholds⟩
  exact hrun paiJsonWbInit [] holds_init

/-- A put of `2 ^ 31 + 1` bytes to a new buffer does not end. -/
theorem writeBuffer_hangs : ∃ call : WbCall,
    call.run (fun _ _ => some fun _ => 0) paiJsonWbInit = .error .hang := by
  have hgrow : growTo 256 0 0x80000001 = none := doubleCap_eq_none (.inr ⟨8, by decide, rfl⟩) (by decide)
  have hput : ∀ s : List UInt8, s.length = 0x80000001 →
      putBytes (fun _ _ => some fun _ => 0) paiJsonWbInit s = .error .hang := by
    intro s hs
    rw [putBytes, paiJsonWbReserve, hs]
    simp only [paiJsonWbInit, Nat.zero_add]
    rw [if_neg (by decide), show (0x80000001 : ℕ) % 0x100000000 = 0x80000001 from rfl, hgrow]
    rfl
  refine ⟨.putn (List.replicate 0x80000001 0) (by rw [List.length_replicate]; decide), ?_⟩
  refine hput _ ?_
  rw [List.length_take, List.length_replicate, Nat.min_self]

end Prospero.WriteBuffer
