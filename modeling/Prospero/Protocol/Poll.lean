import Mathlib
import Prospero.Protocol.Connection

/-!
# Receive pump

`pai_proto_conn_poll` (`protocol/connection.c`): the resumable three-phase loop that completes a
header, completes its payload, checks the frame and dispatches it, at most 64 frames a call.

The transport hands out the delivered byte stream in arbitrary pieces: `Rx` is what is left of the
stream, and a schedule `cut` says how many bytes each `recv` call may return, zero included.

The reference machine `feedByte` takes the stream one byte at a time.  `pollLoop_reads` shows
that a poll, wherever its reads are cut, is `feed` on the bytes it reads, so the endpoint reached
by a schedule that drains the stream is a function of the stream alone.
-/

namespace Prospero

variable {U : Type}

/-- `PAI_PROTO_POLL_BATCH`. -/
abbrev paiProtoPollBatch : ℕ := 64

/-! ## The transport side -/

/-- The receiving side of a transport: the bytes not yet read, whether the peer has closed after
them, and the number of `recv` calls made. -/
structure Rx where
  /-- Bytes delivered and not yet read. -/
  rest : List UInt8
  /-- The stream ends after `rest`. -/
  eof : Bool
  /-- Number of `recv` calls so far. -/
  reads : ℕ

/-- Result of one `recv` call. -/
structure RecvResult where
  /-- The transport after the call. -/
  rx : Rx
  /-- Returned status; `PAI_ERR_IO` signals the end of the stream. -/
  status : PaiStatus
  /-- The bytes read. -/
  got : List UInt8

/-- `transport.recv`: up to `n` bytes, as many as the schedule allows for this call.  The end of
the stream is reported once every byte has been read; a schedule entry of `0` is a read that finds
nothing available yet. -/
def transportRecv (cut : ℕ → ℕ) (rx : Rx) (n : ℕ) : RecvResult :=
  let k := min (cut rx.reads) n
  let next := { rx with reads := rx.reads + 1 }
  if rx.rest = [] then
    ⟨next, if rx.eof ∧ 0 < cut rx.reads then paiErrIo else paiOk, []⟩
  else ⟨{ next with rest := rx.rest.drop k }, paiOk, rx.rest.take k⟩

/-! ## The pump -/

/-- What `pai_proto_conn_poll` leaves behind and returns. -/
structure PollResult (U : Type) where
  /-- The endpoint after the call. -/
  endpoint : Endpoint U
  /-- The transport after the call. -/
  rx : Rx
  /-- Returned status. -/
  status : PaiStatus
  /-- `*out_frames`. -/
  frames : ℕ

/-- Phase 1 of an iteration: complete the header.  `error` leaves the loop. -/
def pollHeader (cb : Callbacks U) (cut : ℕ → ℕ) (e : Endpoint U) (rx : Rx) (frames : ℕ) :
    Except (PollResult U) (Endpoint U × Rx) :=
  if e.conn.headerBuf.length < paiProtoHeaderSize then
    let r := transportRecv cut rx (paiProtoHeaderSize - e.conn.headerBuf.length)
    if r.status = paiErrIo ∧ r.got = [] then
      .error ⟨connSetClosed cb e paiProtoClosePeerGone, r.rx, paiOk, frames⟩
    else if r.status ≠ paiOk then
      .error ⟨connSetClosed cb e paiProtoClosePeerGone, r.rx, r.status, frames⟩
    else
      let header := e.conn.headerBuf ++ r.got
      let e := { e with conn := { e.conn with headerBuf := header } }
      if header.length < paiProtoHeaderSize then .error ⟨e, r.rx, paiOk, frames⟩
      else
        match paiProtoFrameDecode header with
        | none => .error ⟨connSetClosed cb e paiProtoCloseProtocol, r.rx, paiErrProtocol, frames⟩
        | some h => .ok ({ e with conn := { e.conn with pending := h, payloadBuf := [] } }, r.rx)
  else .ok (e, rx)

/-- Phase 2 of an iteration: complete the payload. -/
def pollPayload (cb : Callbacks U) (cut : ℕ → ℕ) (e : Endpoint U) (rx : Rx) (frames : ℕ) :
    Except (PollResult U) (Endpoint U × Rx) :=
  if e.conn.payloadBuf.length < e.conn.pending.payloadLen then
    let r := transportRecv cut rx (e.conn.pending.payloadLen - e.conn.payloadBuf.length)
    if r.status = paiErrIo then
      .error ⟨connSetClosed cb e paiProtoCloseProtocol, r.rx, paiErrProtocol, frames⟩
    else if r.status ≠ paiOk then
      .error ⟨connSetClosed cb e paiProtoClosePeerGone, r.rx, r.status, frames⟩
    else
      let payload := e.conn.payloadBuf ++ r.got
      let e := { e with conn := { e.conn with payloadBuf := payload } }
      if payload.length < e.conn.pending.payloadLen then .error ⟨e, r.rx, paiOk, frames⟩
      else .ok (e, r.rx)
  else .ok (e, rx)

/-- Phase 3: integrity check and dispatch of the complete frame. -/
def pollFrame (cb : Callbacks U) (e : Endpoint U) : Endpoint U × PaiStatus :=
  if paiProtoFrameValidate e.conn.headerBuf e.conn.payloadBuf ≠ paiOk then
    (connSetClosed cb e paiProtoCloseProtocol, paiErrProtocol)
  else connDispatch cb e { e.conn.pending.frame with payload := e.conn.payloadBuf }

/-- One iteration of the loop: the three phases in turn. -/
def pollIteration (cb : Callbacks U) (cut : ℕ → ℕ) (e : Endpoint U) (rx : Rx) (frames : ℕ) :
    Except (PollResult U) (Endpoint U × Rx) :=
  match pollHeader cb cut e rx frames with
  | .error r => .error r
  | .ok (e, rx) =>
    match pollPayload cb cut e rx frames with
    | .error r => .error r
    | .ok (e, rx) =>
      let d := pollFrame cb e
      if d.2 ≠ paiOk then .error ⟨d.1, rx, d.2, frames⟩ else .ok (d.1, rx)

/-- The loop of `pai_proto_conn_poll` with room for `batch` more frames. -/
def pollLoop (cb : Callbacks U) (cut : ℕ → ℕ) :
    ℕ → Endpoint U → Rx → ℕ → PollResult U
  | 0, e, rx, frames => ⟨e, rx, paiOk, frames⟩
  | batch + 1, e, rx, frames =>
    if e.conn.state = .closed then ⟨e, rx, paiOk, frames⟩
    else
      match pollIteration cb cut e rx frames with
      | .error r => r
      | .ok (e, rx) => pollLoop cb cut batch e rx (frames + 1)

/-- `pai_proto_conn_poll`. -/
def paiProtoConnPoll (cb : Callbacks U) (cut : ℕ → ℕ) (e : Endpoint U) (rx : Rx) : PollResult U :=
  pollLoop cb cut paiProtoPollBatch e rx 0

/-- `n` successive polls. -/
def pollMany (cb : Callbacks U) (cut : ℕ → ℕ) : ℕ → Endpoint U → Rx → Endpoint U × Rx
  | 0, e, rx => (e, rx)
  | n + 1, e, rx =>
    let r := paiProtoConnPoll cb cut e rx
    pollMany cb cut n r.endpoint r.rx

/-- The schedule under which the whole stream is available from the first poll on: every read
returns all it asks for. -/
def wholeCut : ℕ → ℕ := fun _ => paiProtoMaxPayload

/-- Under the whole schedule every read may return bytes. -/
theorem wholeCut_pos (k : ℕ) : 0 < wholeCut k := by
  simp [wholeCut]

/-- The stream is drained: the connection is closed, or every byte has been read and no end of
stream is left to report. -/
def Drained (s : Endpoint U × Rx) : Prop :=
  s.1.conn.state = .closed ∨ (s.2.rest = [] ∧ s.2.eof = false)

/-! ## The byte-level reference machine -/

/-- Take one byte of the stream. -/
def feedByte (cb : Callbacks U) (e : Endpoint U) (b : UInt8) : Endpoint U :=
  if e.conn.state = .closed then e
  else if e.conn.headerBuf.length < paiProtoHeaderSize then
    let header := e.conn.headerBuf ++ [b]
    let e := { e with conn := { e.conn with headerBuf := header } }
    if header.length < paiProtoHeaderSize then e
    else
      match paiProtoFrameDecode header with
      | none => connSetClosed cb e paiProtoCloseProtocol
      | some h =>
        let e := { e with conn := { e.conn with pending := h, payloadBuf := [] } }
        if 0 < h.payloadLen then e else (pollFrame cb e).1
  else
    let payload := e.conn.payloadBuf ++ [b]
    let e := { e with conn := { e.conn with payloadBuf := payload } }
    if payload.length < e.conn.pending.payloadLen then e else (pollFrame cb e).1

/-- Take a stretch of the stream. -/
def feed (cb : Callbacks U) (e : Endpoint U) (bytes : List UInt8) : Endpoint U :=
  bytes.foldl (feedByte cb) e

/-- Take the end of the stream: clean between frames and inside a header, a protocol error inside a
payload. -/
def feedEof (cb : Callbacks U) (e : Endpoint U) : Endpoint U :=
  if e.conn.headerBuf.length < paiProtoHeaderSize then connSetClosed cb e paiProtoClosePeerGone
  else connSetClosed cb e paiProtoCloseProtocol

/-- Take a whole stream, and its end when there is one. -/
def deliver (cb : Callbacks U) (e : Endpoint U) (stream : List UInt8) (eof : Bool) : Endpoint U :=
  let e := feed cb e stream
  if eof then feedEof cb e else e

/-- Between polls a live connection awaits bytes: its header is incomplete, or its payload is. -/
def Endpoint.Awaiting (e : Endpoint U) : Prop :=
  e.conn.state ≠ .closed → e.conn.headerBuf.length < paiProtoHeaderSize ∨
    (e.conn.headerBuf.length = paiProtoHeaderSize ∧
      e.conn.payloadBuf.length < e.conn.pending.payloadLen)

/-! ### Closed connections -/

/-- Closing leaves the connection closed. -/
@[simp] theorem connSetClosed_state (cb : Callbacks U) (e : Endpoint U) (reason : UInt32) :
    (connSetClosed cb e reason).conn.state = .closed := by
  unfold connSetClosed
  split
  · assumption
  · rfl

/-- Closing a closed connection changes nothing. -/
theorem connSetClosed_of_closed (cb : Callbacks U) {e : Endpoint U}
    (h : e.conn.state = .closed) (reason : UInt32) : connSetClosed cb e reason = e := by
  rw [connSetClosed, if_pos h]

/-- A closed connection ignores further bytes. -/
theorem feed_of_closed (cb : Callbacks U) {e : Endpoint U} (h : e.conn.state = .closed)
    (bytes : List UInt8) : feed cb e bytes = e := by
  induction bytes with
  | nil => rfl
  | cons b bytes ih =>
    have hb : feedByte cb e b = e := by rw [feedByte, if_pos h]
    rw [feed, List.foldl_cons, hb]
    exact ih

/-- A closed connection ignores the end of the stream. -/
theorem feedEof_of_closed (cb : Callbacks U) {e : Endpoint U} (h : e.conn.state = .closed) :
    feedEof cb e = e := by
  unfold feedEof
  split <;> exact connSetClosed_of_closed cb h _

/-- A closed connection ignores the rest of a stream altogether. -/
theorem deliver_of_closed (cb : Callbacks U) {e : Endpoint U} (h : e.conn.state = .closed)
    (stream : List UInt8) (eof : Bool) : deliver cb e stream eof = e := by
  unfold deliver
  rw [feed_of_closed cb h]
  split
  · exact feedEof_of_closed cb h
  · rfl

/-- Feeding a concatenation is feeding its parts in turn. -/
theorem feed_append (cb : Callbacks U) (e : Endpoint U) (a b : List UInt8) :
    feed cb e (a ++ b) = feed cb (feed cb e a) b := by
  simp [feed]

/-- Delivering a stream is feeding a first part and delivering the rest. -/
theorem deliver_append (cb : Callbacks U) (e : Endpoint U) (a b : List UInt8) (eof : Bool) :
    deliver cb e (a ++ b) eof = deliver cb (feed cb e a) b eof := by
  simp only [deliver, feed_append]

/-! ### Blocks of bytes inside one phase -/

/-- Header bytes that do not complete the header are only collected. -/
theorem feed_header (cb : Callbacks U) (e : Endpoint U) (bytes : List UInt8)
    (hstate : e.conn.state ≠ .closed)
    (hlen : e.conn.headerBuf.length + bytes.length < paiProtoHeaderSize) :
    feed cb e bytes =
      { e with conn := { e.conn with headerBuf := e.conn.headerBuf ++ bytes } } := by
  induction bytes generalizing e with
  | nil => simp [feed]
  | cons b bytes ih =>
    rw [List.length_cons] at hlen
    have hb : feedByte cb e b =
        { e with conn := { e.conn with headerBuf := e.conn.headerBuf ++ [b] } } := by
      rw [feedByte, if_neg hstate, if_pos (by omega)]
      simp only
      rw [if_pos (by simp; omega)]
    rw [feed, List.foldl_cons, hb]
    have := ih { e with conn := { e.conn with headerBuf := e.conn.headerBuf ++ [b] } } hstate
      (by simp; omega)
    rw [feed] at this
    rw [this]
    simp

/-- Payload bytes that do not complete the payload are only collected. -/
theorem feed_payload (cb : Callbacks U) (e : Endpoint U) (bytes : List UInt8)
    (hstate : e.conn.state ≠ .closed)
    (hheader : ¬ e.conn.headerBuf.length < paiProtoHeaderSize)
    (hlen : e.conn.payloadBuf.length + bytes.length < e.conn.pending.payloadLen) :
    feed cb e bytes =
      { e with conn := { e.conn with payloadBuf := e.conn.payloadBuf ++ bytes } } := by
  induction bytes generalizing e with
  | nil => simp [feed]
  | cons b bytes ih =>
    rw [List.length_cons] at hlen
    have hb : feedByte cb e b =
        { e with conn := { e.conn with payloadBuf := e.conn.payloadBuf ++ [b] } } := by
      rw [feedByte, if_neg hstate, if_neg hheader]
      simp only
      rw [if_pos (by simp; omega)]
    rw [feed, List.foldl_cons, hb]
    have := ih { e with conn := { e.conn with payloadBuf := e.conn.payloadBuf ++ [b] } } hstate
      hheader (by simp; omega)
    rw [feed] at this
    rw [this]
    simp

/-- The step the reference machine takes once a header is complete: a frame without payload is
dispatched at once. -/
def settle (cb : Callbacks U) (e : Endpoint U) : Endpoint U :=
  if e.conn.payloadBuf.length < e.conn.pending.payloadLen then e else (pollFrame cb e).1

/-- Header bytes that complete the header decode it. -/
theorem feed_header_complete (cb : Callbacks U) (e : Endpoint U) (bytes : List UInt8)
    (hstate : e.conn.state ≠ .closed) (hne : bytes ≠ [])
    (hlen : e.conn.headerBuf.length + bytes.length = paiProtoHeaderSize) :
    feed cb e bytes =
      match paiProtoFrameDecode (e.conn.headerBuf ++ bytes) with
      | none =>
        connSetClosed cb { e with conn := { e.conn with headerBuf := e.conn.headerBuf ++ bytes } }
          paiProtoCloseProtocol
      | some h =>
        settle cb { e with conn :=
          { e.conn with headerBuf := e.conn.headerBuf ++ bytes, pending := h, payloadBuf := [] } } := by
  obtain ⟨init, b, rfl⟩ : ∃ init b, bytes = init ++ [b] :=
    ⟨bytes.dropLast, bytes.getLast hne, (List.dropLast_append_getLast hne).symm⟩
  simp only [List.length_append, List.length_singleton] at hlen
  rw [feed_append, feed_header cb e init hstate (by omega), feed, List.foldl_cons, List.foldl_nil,
    feedByte, if_neg hstate, if_pos (by simp; omega)]
  simp only [List.append_assoc]
  rw [if_neg (by simp; omega)]
  cases paiProtoFrameDecode (e.conn.headerBuf ++ (init ++ [b])) <;> simp [settle]

/-- Payload bytes that complete the payload dispatch the frame. -/
theorem feed_payload_complete (cb : Callbacks U) (e : Endpoint U) (bytes : List UInt8)
    (hstate : e.conn.state ≠ .closed) (hne : bytes ≠ [])
    (hheader : ¬ e.conn.headerBuf.length < paiProtoHeaderSize)
    (hlen : e.conn.payloadBuf.length + bytes.length = e.conn.pending.payloadLen) :
    feed cb e bytes =
      (pollFrame cb
        { e with conn := { e.conn with payloadBuf := e.conn.payloadBuf ++ bytes } }).1 := by
  obtain ⟨init, b, rfl⟩ : ∃ init b, bytes = init ++ [b] :=
    ⟨bytes.dropLast, bytes.getLast hne, (List.dropLast_append_getLast hne).symm⟩
  simp only [List.length_append, List.length_singleton] at hlen
  rw [feed_append, feed_payload cb e init hstate hheader (by omega), feed, List.foldl_cons,
    List.foldl_nil, feedByte, if_neg hstate, if_neg hheader]
  simp only [List.append_assoc]
  rw [if_neg (by simp; omega)]

/-! ## A poll is the reference machine on what it reads -/

/-- A `recv` call returns a first part of what is left, or reports the end of the stream after its
last byte. -/
theorem transportRecv_cases (cut : ℕ → ℕ) (rx : Rx) (n : ℕ) :
    (transportRecv cut rx n).rx.eof = rx.eof ∧
      (((transportRecv cut rx n).status = paiOk ∧ (transportRecv cut rx n).got.length ≤ n ∧
          rx.rest = (transportRecv cut rx n).got ++ (transportRecv cut rx n).rx.rest) ∨
        ((transportRecv cut rx n).status = paiErrIo ∧ (transportRecv cut rx n).got = [] ∧
          rx.rest = [] ∧ (transportRecv cut rx n).rx.rest = [] ∧ rx.eof = true)) := by
  unfold transportRecv
  by_cases hrest : rx.rest = []
  · by_cases heof : rx.eof = true ∧ 0 < cut rx.reads
    · simp [hrest, heof]
    · simp [hrest, heof]
  · simp [hrest]

/-- `e'` is what the reference machine makes of `e` and the bytes read between `rx` and `rx'`. -/
def Takes (cb : Callbacks U) (e : Endpoint U) (rx : Rx) (e' : Endpoint U) (rx' : Rx) : Prop :=
  ∃ got, rx.rest = got ++ rx'.rest ∧ rx'.eof = rx.eof ∧ e' = feed cb e got

/-- As `Takes`, or the whole stream and its end were read. -/
def Reads (cb : Callbacks U) (e : Endpoint U) (rx : Rx) (e' : Endpoint U) (rx' : Rx) : Prop :=
  Takes cb e rx e' rx' ∨
    rx.eof = true ∧ rx'.eof = true ∧ rx'.rest = [] ∧ e' = feedEof cb (feed cb e rx.rest)

/-- Reading nothing. -/
theorem Takes.refl (cb : Callbacks U) (e : Endpoint U) (rx : Rx) : Takes cb e rx e rx :=
  ⟨[], rfl, rfl, rfl⟩

/-- Reading in two parts. -/
theorem Takes.trans {cb : Callbacks U} {e e₁ e₂ : Endpoint U} {rx rx₁ rx₂ : Rx}
    (h₁ : Takes cb e rx e₁ rx₁) (h₂ : Takes cb e₁ rx₁ e₂ rx₂) : Takes cb e rx e₂ rx₂ := by
  obtain ⟨a, ha, heof₁, rfl⟩ := h₁
  obtain ⟨b, hb, heof₂, rfl⟩ := h₂
  refine ⟨a ++ b, ?_, heof₂.trans heof₁, (feed_append cb e a b).symm⟩
  rw [ha, hb, List.append_assoc]

/-- Reading in two parts, the second of which may meet the end of the stream. -/
theorem Takes.trans_reads {cb : Callbacks U} {e e₁ e₂ : Endpoint U} {rx rx₁ rx₂ : Rx}
    (h₁ : Takes cb e rx e₁ rx₁) (h₂ : Reads cb e₁ rx₁ e₂ rx₂) : Reads cb e rx e₂ rx₂ := by
  obtain h₂ | ⟨heof, heof₂, hrest, rfl⟩ := h₂
  · exact Or.inl (h₁.trans h₂)
  · obtain ⟨a, ha, heof₁, rfl⟩ := h₁
    refine Or.inr ⟨heof₁ ▸ heof, heof₂, hrest, ?_⟩
    rw [ha, feed_append]

/-- What is read leaves the outcome of the stream unchanged. -/
theorem Reads.deliver_eq {cb : Callbacks U} {e e' : Endpoint U} {rx rx' : Rx}
    (h : Reads cb e rx e' rx') :
    deliver cb e' rx'.rest rx'.eof = deliver cb e rx.rest rx.eof := by
  obtain ⟨got, hrest, heof, rfl⟩ | ⟨heof, heof', hrest, rfl⟩ := h
  · rw [hrest, heof, deliver_append]
  · have hclosed : (feedEof cb (feed cb e rx.rest)).conn.state = .closed := by
      unfold feedEof
      split_ifs <;> exact connSetClosed_state cb _ _
    rw [deliver_of_closed cb hclosed, heof, deliver, if_pos rfl]

/-- Dispatching a frame leaves the connection closed or between two frames. -/
theorem pollFrame_awaiting (cb : Callbacks U) (e : Endpoint U) :
    (pollFrame cb e).1.Awaiting := by
  have hclosed (e' : Endpoint U) : (connSetClosed cb e' paiProtoCloseProtocol).Awaiting :=
    fun h => absurd (connSetClosed_state cb e' _) h
  unfold pollFrame
  split_ifs
  · exact hclosed e
  · unfold connDispatch
    simp only
    split_ifs
    · exact hclosed _
    · exact fun _ => Or.inl (by simp [connResetPhase])

/-- Phase 1 on a live connection is the reference machine on the bytes it reads. -/
theorem pollHeader_reads (cb : Callbacks U) (cut : ℕ → ℕ) (e : Endpoint U) (rx : Rx)
    (frames : ℕ) (hstate : e.conn.state ≠ .closed)
    (hwait : e.conn.headerBuf.length < paiProtoHeaderSize ∨
      (e.conn.headerBuf.length = paiProtoHeaderSize ∧
        e.conn.payloadBuf.length < e.conn.pending.payloadLen)) :
    match pollHeader cb cut e rx frames with
    | .error r => r.endpoint.Awaiting ∧ Reads cb e rx r.endpoint r.rx
    | .ok (e', rx') => e'.conn.state ≠ .closed ∧
        e'.conn.headerBuf.length = paiProtoHeaderSize ∧ Takes cb e rx (settle cb e') rx' := by
  by_cases hheader : e.conn.headerBuf.length < paiProtoHeaderSize
  · rw [pollHeader, if_pos hheader]
    simp only
    obtain ⟨heof, ⟨hst, hlen, hrest⟩ | ⟨hst, hgot, hrest, hrest', heof'⟩⟩ :=
      transportRecv_cases cut rx (paiProtoHeaderSize - e.conn.headerBuf.length)
    · set r := transportRecv cut rx (paiProtoHeaderSize - e.conn.headerBuf.length)
      have hio : ¬ r.status = paiErrIo := by rw [hst]; decide
      rw [if_neg (fun h => hio h.1), if_neg (not_not.mpr hst)]
      by_cases hshort : (e.conn.headerBuf ++ r.got).length < paiProtoHeaderSize
      · rw [if_pos hshort]
        rw [List.length_append] at hshort
        refine ⟨fun _ => Or.inl (by simpa using hshort), Or.inl ⟨r.got, hrest, heof, ?_⟩⟩
        rw [feed_header cb e r.got hstate hshort]
      · rw [if_neg hshort]
        rw [List.length_append] at hshort
        have hcomplete : e.conn.headerBuf.length + r.got.length = paiProtoHeaderSize := by omega
        have hne : r.got ≠ [] := by
          intro h
          rw [h, List.length_nil] at hcomplete
          omega
        have hfeed := feed_header_complete cb e r.got hstate hne hcomplete
        cases hdec : paiProtoFrameDecode (e.conn.headerBuf ++ r.got) with
        | none =>
          rw [hdec] at hfeed
          exact ⟨fun h => absurd (connSetClosed_state cb _ _) h,
            Or.inl ⟨r.got, hrest, heof, hfeed.symm⟩⟩
        | some h =>
          rw [hdec] at hfeed
          exact ⟨hstate, by simpa using hcomplete, r.got, hrest, heof, hfeed.symm⟩
    · rw [if_pos ⟨hst, hgot⟩]
      refine ⟨fun h => absurd (connSetClosed_state cb _ _) h,
        Or.inr ⟨heof', heof.trans heof', hrest', ?_⟩⟩
      rw [hrest, feed, List.foldl_nil, feedEof, if_pos hheader]
  · obtain h | ⟨hfull, hshort⟩ := hwait
    · exact absurd h hheader
    · rw [pollHeader, if_neg hheader]
      refine ⟨hstate, hfull, ?_⟩
      rw [settle, if_pos hshort]
      exact Takes.refl cb e rx

/-- Phase 2 on a live connection with a complete header is the reference machine on the bytes it
reads. -/
theorem pollPayload_reads (cb : Callbacks U) (cut : ℕ → ℕ) (e : Endpoint U) (rx : Rx)
    (frames : ℕ) (hstate : e.conn.state ≠ .closed)
    (hfull : e.conn.headerBuf.length = paiProtoHeaderSize) :
    match pollPayload cb cut e rx frames with
    | .error r => r.endpoint.Awaiting ∧ Reads cb (settle cb e) rx r.endpoint r.rx
    | .ok (e', rx') => Takes cb (settle cb e) rx (pollFrame cb e').1 rx' := by
  have hheader : ¬ e.conn.headerBuf.length < paiProtoHeaderSize := by omega
  by_cases hpay : e.conn.payloadBuf.length < e.conn.pending.payloadLen
  · rw [pollPayload, if_pos hpay, settle, if_pos hpay]
    simp only
    obtain ⟨heof, ⟨hst, hlen, hrest⟩ | ⟨hst, hgot, hrest, hrest', heof'⟩⟩ :=
      transportRecv_cases cut rx (e.conn.pending.payloadLen - e.conn.payloadBuf.length)
    · set r := transportRecv cut rx (e.conn.pending.payloadLen - e.conn.payloadBuf.length)
      have hio : ¬ r.status = paiErrIo := by rw [hst]; decide
      rw [if_neg hio, if_neg (not_not.mpr hst)]
      by_cases hshort : (e.conn.payloadBuf ++ r.got).length < e.conn.pending.payloadLen
      · rw [if_pos hshort]
        rw [List.length_append] at hshort
        refine ⟨fun _ => Or.inr ⟨hfull, by simpa using hshort⟩, Or.inl ⟨r.got, hrest, heof, ?_⟩⟩
        rw [feed_payload cb e r.got hstate hheader hshort]
      · rw [if_neg hshort]
        rw [List.length_append] at hshort
        have hcomplete : e.conn.payloadBuf.length + r.got.length = e.conn.pending.payloadLen := by
          omega
        have hne : r.got ≠ [] := by
          intro h
          rw [h, List.length_nil] at hcomplete
          omega
        refine ⟨r.got, hrest, heof, ?_⟩
        rw [feed_payload_complete cb e r.got hstate hne hheader hcomplete]
    · rw [if_pos hst]
      refine ⟨fun h => absurd (connSetClosed_state cb _ _) h,
        Or.inr ⟨heof', heof.trans heof', hrest', ?_⟩⟩
      rw [hrest, feed, List.foldl_nil, feedEof, if_neg hheader]
  · rw [pollPayload, if_neg hpay]
    simp only
    rw [settle, if_neg hpay]
    exact Takes.refl cb _ rx

/-- One iteration on a live connection is the reference machine on the bytes it reads. -/
theorem pollIteration_reads (cb : Callbacks U) (cut : ℕ → ℕ) (e : Endpoint U) (rx : Rx)
    (frames : ℕ) (hstate : e.conn.state ≠ .closed) (hwait : e.Awaiting) :
    match pollIteration cb cut e rx frames with
    | .error r => r.endpoint.Awaiting ∧ Reads cb e rx r.endpoint r.rx
    | .ok (e', rx') => e'.Awaiting ∧ Takes cb e rx e' rx' := by
  have hheader := pollHeader_reads cb cut e rx frames hstate (hwait hstate)
  unfold pollIteration
  cases hph : pollHeader cb cut e rx frames with
  | error r =>
    rw [hph] at hheader
    exact hheader
  | ok s =>
    obtain ⟨e₁, rx₁⟩ := s
    rw [hph] at hheader
    obtain ⟨hstate₁, hfull₁, htakes₁⟩ := hheader
    have hpayload := pollPayload_reads cb cut e₁ rx₁ frames hstate₁ hfull₁
    simp only
    cases hpp : pollPayload cb cut e₁ rx₁ frames with
    | error r =>
      rw [hpp] at hpayload
      exact ⟨hpayload.1, htakes₁.trans_reads hpayload.2⟩
    | ok s =>
      obtain ⟨e₂, rx₂⟩ := s
      rw [hpp] at hpayload
      simp only at hpayload ⊢
      split_ifs
      · exact ⟨pollFrame_awaiting cb e₂, Or.inl (htakes₁.trans hpayload)⟩
      · exact ⟨pollFrame_awaiting cb e₂, htakes₁.trans hpayload⟩

/-- A poll, however its reads are cut, is the reference machine on the bytes it reads. -/
theorem pollLoop_reads (cb : Callbacks U) (cut : ℕ → ℕ) (batch : ℕ) (e : Endpoint U) (rx : Rx)
    (frames : ℕ) (hwait : e.Awaiting) :
    (pollLoop cb cut batch e rx frames).endpoint.Awaiting ∧
      Reads cb e rx (pollLoop cb cut batch e rx frames).endpoint
        (pollLoop cb cut batch e rx frames).rx := by
  -- induction on the frames the batch still has room for
  induction batch generalizing e rx frames with
  | zero => exact ⟨hwait, Or.inl (Takes.refl cb e rx)⟩
  | succ batch ih =>
    unfold pollLoop
    by_cases hclosed : e.conn.state = .closed
    · rw [if_pos hclosed]
      exact ⟨hwait, Or.inl (Takes.refl cb e rx)⟩
    rw [if_neg hclosed]
    have hiter := pollIteration_reads cb cut e rx frames hclosed hwait
    cases hpi : pollIteration cb cut e rx frames with
    | error r =>
      rw [hpi] at hiter
      exact hiter
    | ok s =>
      obtain ⟨e₁, rx₁⟩ := s
      rw [hpi] at hiter
      obtain ⟨hwait', hreads'⟩ := ih e₁ rx₁ (frames + 1) hiter.1
      exact ⟨hwait', hiter.2.trans_reads hreads'⟩

/-- The outcome of the stream is the same before and after any number of polls. -/
theorem pollMany_deliver (cb : Callbacks U) (cut : ℕ → ℕ) (n : ℕ) (e : Endpoint U) (rx : Rx)
    (hwait : e.Awaiting) :
    (pollMany cb cut n e rx).1.Awaiting ∧
      deliver cb (pollMany cb cut n e rx).1 (pollMany cb cut n e rx).2.rest
          (pollMany cb cut n e rx).2.eof = deliver cb e rx.rest rx.eof := by
  induction n generalizing e rx with
  | zero => exact ⟨hwait, rfl⟩
  | succ n ih =>
    obtain ⟨hwait₁, hreads⟩ := pollLoop_reads cb cut paiProtoPollBatch e rx 0 hwait
    obtain ⟨hwait₂, hdel₂⟩ := ih _ (pollLoop cb cut paiProtoPollBatch e rx 0).rx hwait₁
    exact ⟨hwait₂, hdel₂.trans hreads.deliver_eq⟩

/-- Once the stream is drained there is nothing left to deliver. -/
theorem deliver_of_drained (cb : Callbacks U) {s : Endpoint U × Rx} (h : Drained s) :
    deliver cb s.1 s.2.rest s.2.eof = s.1 := by
  obtain hclosed | ⟨hrest, heof⟩ := h
  · exact deliver_of_closed cb hclosed _ _
  · simp [hrest, heof, deliver, feed]

/-! ## Progress -/

/-- A `recv` call never puts bytes back. -/
theorem transportRecv_rest_le (cut : ℕ → ℕ) (rx : Rx) (n : ℕ) :
    (transportRecv cut rx n).rx.rest.length ≤ rx.rest.length := by
  unfold transportRecv
  split_ifs <;> simp

/-- A `recv` call that may return bytes reads at least one when there is one, and reports the end
of the stream when there is none. -/
theorem transportRecv_progress (cut : ℕ → ℕ) (rx : Rx) (n : ℕ) (hcut : ∀ k, 0 < cut k)
    (hn : 0 < n) :
    (transportRecv cut rx n).rx.rest.length < rx.rest.length ∨
      (transportRecv cut rx n).rx.rest = [] ∧ (transportRecv cut rx n).got = [] ∧
        (transportRecv cut rx n).rx.eof = rx.eof ∧
        (transportRecv cut rx n).status = if rx.eof then paiErrIo else paiOk := by
  by_cases hrest : rx.rest = []
  · right
    simp [transportRecv, hrest, hcut]
  · left
    have hlen : 0 < rx.rest.length := List.length_pos_iff.mpr hrest
    have hk : 0 < min (cut rx.reads) n := lt_min (hcut _) hn
    simp only [transportRecv, if_neg hrest, List.length_drop]
    omega

/-- What a phase or an iteration has done for progress: leaving the loop it has drained the stream
or read a byte; going on it has read a byte, unless it had nothing to read. -/
def Progress (rx : Rx) (idle : Prop) (r : Except (PollResult U) (Endpoint U × Rx)) : Prop :=
  match r with
  | .error r => Drained (r.endpoint, r.rx) ∨ r.rx.rest.length < rx.rest.length
  | .ok (_, rx') => rx'.rest.length < rx.rest.length ∨ idle ∧ rx' = rx

/-- Phase 1 makes progress when the header is incomplete. -/
theorem pollHeader_progress (cb : Callbacks U) (cut : ℕ → ℕ) (e : Endpoint U) (rx : Rx)
    (frames : ℕ) (hcut : ∀ k, 0 < cut k) :
    Progress rx (pollHeader cb cut e rx frames = .ok (e, rx) ∧
      ¬ e.conn.headerBuf.length < paiProtoHeaderSize) (pollHeader cb cut e rx frames) := by
  by_cases hheader : e.conn.headerBuf.length < paiProtoHeaderSize
  · rw [pollHeader, if_pos hheader]
    simp only
    obtain hlt | ⟨hrest, hgot, heof, hst⟩ := transportRecv_progress cut rx
      (paiProtoHeaderSize - e.conn.headerBuf.length) hcut (by omega)
    · split_ifs
      · exact Or.inr hlt
      · exact Or.inr hlt
      · exact Or.inr hlt
      · split
        · exact Or.inr hlt
        · exact Or.inl hlt
    · rw [hgot, List.append_nil, if_pos hheader]
      cases hrx : rx.eof with
      | true =>
        rw [hrx, if_pos rfl] at hst
        rw [if_pos ⟨hst, rfl⟩]
        exact Or.inl (Or.inl (connSetClosed_state cb _ _))
      | false =>
        rw [hrx, if_neg (by decide)] at hst
        rw [if_neg (fun h => absurd (hst.symm.trans h.1) (by decide)), if_neg (not_not.mpr hst)]
        exact Or.inl (Or.inr ⟨hrest, heof.trans hrx⟩)
  · have hok : pollHeader cb cut e rx frames = .ok (e, rx) := by rw [pollHeader, if_neg hheader]
    rw [hok]
    exact Or.inr ⟨⟨rfl, hheader⟩, rfl⟩

/-- Phase 2 makes progress when the payload is incomplete. -/
theorem pollPayload_progress (cb : Callbacks U) (cut : ℕ → ℕ) (e : Endpoint U) (rx : Rx)
    (frames : ℕ) (hcut : ∀ k, 0 < cut k) :
    Progress rx (¬ e.conn.payloadBuf.length < e.conn.pending.payloadLen)
      (pollPayload cb cut e rx frames) := by
  by_cases hpay : e.conn.payloadBuf.length < e.conn.pending.payloadLen
  · rw [pollPayload, if_pos hpay]
    simp only
    obtain hlt | ⟨hrest, hgot, heof, hst⟩ := transportRecv_progress cut rx
      (e.conn.pending.payloadLen - e.conn.payloadBuf.length) hcut (by omega)
    · split_ifs
      · exact Or.inr hlt
      · exact Or.inr hlt
      · exact Or.inr hlt
      · exact Or.inl hlt
    · rw [hgot, List.append_nil, if_pos hpay]
      cases hrx : rx.eof with
      | true =>
        rw [hrx, if_pos rfl] at hst
        rw [if_pos hst]
        exact Or.inl (Or.inl (connSetClosed_state cb _ _))
      | false =>
        rw [hrx, if_neg (by decide)] at hst
        rw [if_neg (fun h => absurd (hst.symm.trans h) (by decide)), if_neg (not_not.mpr hst)]
        exact Or.inl (Or.inr ⟨hrest, heof.trans hrx⟩)
  · rw [pollPayload, if_neg hpay]
    exact Or.inr ⟨hpay, rfl⟩

/-- An iteration on a connection that awaits bytes makes progress. -/
theorem pollIteration_progress (cb : Callbacks U) (cut : ℕ → ℕ) (e : Endpoint U) (rx : Rx)
    (frames : ℕ) (hcut : ∀ k, 0 < cut k) (hstate : e.conn.state ≠ .closed) (hwait : e.Awaiting) :
    Progress rx False (pollIteration cb cut e rx frames) := by
  have hheader := pollHeader_progress cb cut e rx frames hcut
  unfold pollIteration
  cases hph : pollHeader cb cut e rx frames with
  | error r =>
    rw [hph] at hheader
    exact hheader
  | ok s =>
    obtain ⟨e₁, rx₁⟩ := s
    rw [hph] at hheader
    have hpayload := pollPayload_progress cb cut e₁ rx₁ frames hcut
    -- a complete header means that the payload is the incomplete part
    have hread : rx₁.rest.length < rx.rest.length ∨
        rx₁ = rx ∧ e₁.conn.payloadBuf.length < e₁.conn.pending.payloadLen := by
      obtain hlt | ⟨⟨hok, hfull⟩, hrx⟩ := hheader
      · exact Or.inl hlt
      · have he : e₁ = e := congrArg Prod.fst (Except.ok.inj hok)
        obtain h | ⟨-, h⟩ := hwait hstate
        · exact absurd h hfull
        · exact Or.inr ⟨hrx, he ▸ h⟩
    simp only
    cases hpp : pollPayload cb cut e₁ rx₁ frames with
    | error r =>
      rw [hpp] at hpayload
      obtain hdrained | hlt := hpayload
      · exact Or.inl hdrained
      · obtain h | ⟨h, -⟩ := hread
        · exact Or.inr (hlt.trans h)
        · exact Or.inr (h ▸ hlt)
    | ok s =>
      obtain ⟨e₂, rx₂⟩ := s
      rw [hpp] at hpayload
      have hlt : rx₂.rest.length < rx.rest.length := by
        obtain hlt₂ | ⟨hidle, hrx₂⟩ := hpayload
        · obtain h | ⟨h, -⟩ := hread
          · exact hlt₂.trans h
          · exact h ▸ hlt₂
        · obtain h | ⟨-, h⟩ := hread
          · exact hrx₂ ▸ h
          · exact absurd h hidle
      simp only
      split_ifs
      · exact Or.inr hlt
      · exact Or.inl hlt

/-- A poll with room for a frame drains the stream or reads a byte. -/
theorem pollLoop_progress (cb : Callbacks U) (cut : ℕ → ℕ) (batch : ℕ) (e : Endpoint U) (rx : Rx)
    (frames : ℕ) (hcut : ∀ k, 0 < cut k) (hwait : e.Awaiting) :
    Drained ((pollLoop cb cut batch e rx frames).endpoint, (pollLoop cb cut batch e rx frames).rx) ∨
      (pollLoop cb cut batch e rx frames).rx.rest.length < rx.rest.length ∨
      batch = 0 ∧ (pollLoop cb cut batch e rx frames).rx = rx := by
  induction batch generalizing e rx frames with
  | zero => exact Or.inr (Or.inr ⟨rfl, rfl⟩)
  | succ batch ih =>
    unfold pollLoop
    by_cases hclosed : e.conn.state = .closed
    · rw [if_pos hclosed]
      exact Or.inl (Or.inl hclosed)
    rw [if_neg hclosed]
    have hiter := pollIteration_progress cb cut e rx frames hcut hclosed hwait
    have hreads := pollIteration_reads cb cut e rx frames hclosed hwait
    cases hpi : pollIteration cb cut e rx frames with
    | error r =>
      rw [hpi] at hiter
      exact hiter.imp_right Or.inl
    | ok s =>
      obtain ⟨e₁, rx₁⟩ := s
      rw [hpi] at hiter hreads
      have hlt : rx₁.rest.length < rx.rest.length := hiter.resolve_right fun h => h.1
      obtain hd | h | ⟨-, h⟩ := ih e₁ rx₁ (frames + 1) hreads.1
      · exact Or.inl hd
      · exact Or.inr (Or.inl (h.trans hlt))
      · exact Or.inr (Or.inl (by rwa [h]))

/-- A schedule whose reads may always return bytes drains the stream in finitely many polls. -/
theorem exists_drained (cb : Callbacks U) (cut : ℕ → ℕ) (e : Endpoint U) (rx : Rx)
    (hcut : ∀ k, 0 < cut k) (hwait : e.Awaiting) : ∃ m, Drained (pollMany cb cut m e rx) := by
  -- induction on the number of bytes left to read
  induction hn : rx.rest.length using Nat.strong_induction_on generalizing e rx with
  | _ n ih =>
    have hwait' := (pollLoop_reads cb cut paiProtoPollBatch e rx 0 hwait).1
    obtain hd | hlt | ⟨h, -⟩ := pollLoop_progress cb cut paiProtoPollBatch e rx 0 hcut hwait
    · exact ⟨1, hd⟩
    · obtain ⟨m, hm⟩ := ih _ (hn ▸ hlt) _ _ hwait' rfl
      exact ⟨m + 1, hm⟩
    · exact absurd h (by decide)

/-! ## Reachable connections -/

/-- A connection that has just been initialised over a transport. -/
def freshEndpoint (role : Role) (caps : UInt32) (user : U) : Endpoint U where
  conn := paiProtoConnInit role caps
  user := user
  tx := []
  txClosed := false
  rxClosed := false
  events := []

/-- The connections an application can have between two calls into the library. -/
inductive Reachable (cb : Callbacks U) : Endpoint U → Prop
  /-- `pai_proto_conn_init`. -/
  | init (role : Role) (caps : UInt32) (user : U) : Reachable cb (freshEndpoint role caps user)
  /-- `pai_proto_conn_start`. -/
  | start {e : Endpoint U} : Reachable cb e → Reachable cb (paiProtoConnStart e).1
  /-- Any other public call. -/
  | call {e : Endpoint U} (c : ApiCall) : Reachable cb e → Reachable cb (runApiCall e c)
  /-- `pai_proto_conn_poll`, whatever the transport delivers. -/
  | poll {e : Endpoint U} (cut : ℕ → ℕ) (rx : Rx) :
      Reachable cb e → Reachable cb (paiProtoConnPoll cb cut e rx).endpoint

/-- Sending does not touch the connection. -/
@[simp] theorem connSendUnchecked_conn (e : Endpoint U) (frame : Frame) :
    (connSendUnchecked e frame).1.conn = e.conn := by
  have hsend (e : Endpoint U) (data : List UInt8) : (transportSend e data).1.conn = e.conn := by
    unfold transportSend
    split_ifs <;> rfl
  unfold connSendUnchecked
  simp only
  split_ifs <;> simp [hsend]

/-- The id search of a session open only moves the allocator. -/
theorem sessionNextId_conn {fuel : ℕ} {conn conn' : Conn} {id : UInt64}
    (h : sessionNextId fuel conn = some (conn', id)) :
    conn' = { conn with nextSessionId := conn'.nextSessionId } := by
  induction fuel generalizing conn with
  | zero => simp [sessionNextId] at h
  | succ fuel ih =>
    unfold sessionNextId at h
    simp only at h
    split_ifs at h
    · simpa using ih h
    · simpa using ih h
    · obtain ⟨rfl, rfl⟩ := Prod.mk.inj (Option.some.inj h)
      rfl

/-- Public calls do not touch the state or the receive pump. -/
theorem runApiCall_pump (e : Endpoint U) (c : ApiCall) :
    (runApiCall e c).conn.state = e.conn.state ∧ (runApiCall e c).conn.headerBuf = e.conn.headerBuf ∧
      (runApiCall e c).conn.payloadBuf = e.conn.payloadBuf ∧
      (runApiCall e c).conn.pending = e.conn.pending := by
  cases c with
  | send frame =>
    unfold runApiCall paiProtoConnSend
    simp only
    split_ifs <;> simp
  | newRequestId => simp [runApiCall, paiProtoConnNewRequestId]
  | sessionOpen =>
    unfold runApiCall paiProtoConnSessionOpen
    simp only
    cases h : sessionNextId (paiProtoMaxSessions + 2) e.conn with
    | none => simp
    | some r =>
      obtain ⟨conn', id⟩ := r
      have hconn := sessionNextId_conn h
      simp only
      split <;> (rw [hconn]; simp)
  | sessionClose id =>
    unfold runApiCall paiProtoConnSessionClose
    simp only
    split <;> simp

/-- Starting a negotiation leaves the receive pump alone. -/
theorem paiProtoConnStart_pump (e : Endpoint U) :
    ((paiProtoConnStart e).1.conn.state = .closed ↔ e.conn.state = .closed) ∧
      (paiProtoConnStart e).1.conn.headerBuf = e.conn.headerBuf ∧
      (paiProtoConnStart e).1.conn.payloadBuf = e.conn.payloadBuf ∧
      (paiProtoConnStart e).1.conn.pending = e.conn.pending := by
  unfold paiProtoConnStart
  split_ifs with hguard
  · simp
  · push Not at hguard
    simp only
    split_ifs <;> simp [hguard.2]

/-- Between two calls every connection awaits bytes. -/
theorem Reachable.awaiting {cb : Callbacks U} {e : Endpoint U} (h : Reachable cb e) :
    e.Awaiting := by
  induction h with
  | init role caps user => exact fun _ => Or.inl (by simp [freshEndpoint, paiProtoConnInit])
  | @start e _ ih =>
    obtain ⟨hstate, hheader, hpayload, hpending⟩ := paiProtoConnStart_pump e
    intro hopen
    rw [hheader, hpayload, hpending]
    exact ih fun hc => hopen (hstate.mpr hc)
  | @call e c _ ih =>
    obtain ⟨hstate, hheader, hpayload, hpending⟩ := runApiCall_pump e c
    intro hopen
    rw [hheader, hpayload, hpending]
    exact ih (hstate ▸ hopen)
  | poll cut rx _ ih => exact (pollLoop_reads cb cut paiProtoPollBatch _ rx 0 ih).1

/-- The pump is independent of read boundaries.  For every connection, every delivered stream, with
or without its end, and every way of cutting it into reads and polls that drains it, the endpoint
reached (callbacks invoked, bytes sent, connection state and tables, application state) is the one
reached when the whole stream is available from the first poll on; and that schedule does drain
it. -/
theorem paiProtoConnPoll_cut_independent (cb : Callbacks U) (e : Endpoint U)
    (hreach : Reachable cb e) (stream : List UInt8) (eof : Bool) :
    ∃ m, Drained (pollMany cb wholeCut m e ⟨stream, eof, 0⟩) ∧
      ∀ (cut : ℕ → ℕ) (n : ℕ), Drained (pollMany cb cut n e ⟨stream, eof, 0⟩) →
        (pollMany cb cut n e ⟨stream, eof, 0⟩).1 =
          (pollMany cb wholeCut m e ⟨stream, eof, 0⟩).1 := by
  have hwait := hreach.awaiting
  obtain ⟨m, hm⟩ := exists_drained cb wholeCut e ⟨stream, eof, 0⟩ wholeCut_pos hwait
  refine ⟨m, hm, fun cut n hn => ?_⟩
  have houtcome (cut : ℕ → ℕ) (n : ℕ) (hd : Drained (pollMany cb cut n e ⟨stream, eof, 0⟩)) :
      (pollMany cb cut n e ⟨stream, eof, 0⟩).1 = deliver cb e stream eof := by
    rw [← deliver_of_drained cb hd]
    exact (pollMany_deliver cb cut n e ⟨stream, eof, 0⟩ hwait).2
  rw [houtcome cut n hn, houtcome wholeCut m hm]

/-- A fresh server with no callbacks that receives one stray byte and the end of the stream. -/
theorem paiProtoConnPoll_cut_independent_fresh :
    ∃ m, Drained (pollMany Callbacks.null wholeCut m (freshEndpoint .server 1 ()) ⟨[0x50], true, 0⟩) ∧
      ∀ (cut : ℕ → ℕ) (n : ℕ),
        Drained (pollMany Callbacks.null cut n (freshEndpoint .server 1 ()) ⟨[0x50], true, 0⟩) →
        (pollMany Callbacks.null cut n (freshEndpoint .server 1 ()) ⟨[0x50], true, 0⟩).1 =
          (pollMany Callbacks.null wholeCut m (freshEndpoint .server 1 ()) ⟨[0x50], true, 0⟩).1 :=
  paiProtoConnPoll_cut_independent Callbacks.null _ (Reachable.init .server 1 ()) [0x50] true

end Prospero
