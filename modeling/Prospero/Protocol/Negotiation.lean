import Mathlib
import Prospero.Protocol.Streams

/-!
# Negotiation between a client and a server

One client and one server connection joined by a pipe pair (`protocol/transport_pipe.c`), under any
interleaving of `pai_proto_conn_start` and `pai_proto_conn_poll` calls and any cutting of the reads.

`Link` is the two endpoints and how much each has read of what the other sent.  Every reachable
link is in one of three phases (`LinkPhase`): nothing sent, HELLO in flight, answer in flight or
delivered.  In each phase both endpoints are given by the reference machine of `Protocol/Poll` on
the bytes read so far, so the agreement of the two sides is read off the last phase.
-/

namespace Prospero

variable {U V : Type}

/-! ## Rejections are reported to the application -/

@[simp] theorem streamEnd_state (conn : Conn) (requestId : UInt64) :
    (streamEnd conn requestId).state = conn.state := by
  unfold streamEnd
  split <;> rfl

@[simp] theorem streamBegin_state (conn : Conn) (requestId : UInt64) :
    (streamBegin conn requestId).1.state = conn.state := by
  unfold streamBegin
  split_ifs
  · rfl
  · split <;> rfl

@[simp] theorem connStreamMessage_state (cb : Callbacks U) (e : Endpoint U) (frame : Frame) :
    (connStreamMessage cb e frame).conn.state = e.conn.state := by
  unfold connStreamMessage invokeMessage
  simp only
  split_ifs <;> simp

/-- A stream frame never closes the connection by itself. -/
@[simp] theorem connHandleStream_state (cb : Callbacks U) (e : Endpoint U) (frame : Frame) :
    (connHandleStream cb e frame).1.conn.state = e.conn.state := by
  have hstart : (connStreamStart cb e frame).1.conn.state = e.conn.state := by
    unfold connStreamStart
    simp only
    split_ifs <;> simp
  have hcontent (e₁ e₂ : Endpoint U) (idx : Fin paiProtoMaxStreams)
      (h : connStreamContent cb e₁ frame idx = some e₂) : e₂.conn.state = e₁.conn.state := by
    unfold connStreamContent invokeStreamData at h
    split_ifs at h
    · obtain ⟨c, -, rfl⟩ := Option.map_eq_some_iff.mp h
      simp
    · obtain ⟨c, -, rfl⟩ := Option.map_eq_some_iff.mp h
      simp
    · obtain rfl := Option.some.inj h
      simp
    · obtain rfl := Option.some.inj h
      rfl
  have hfinish (e₁ : Endpoint U) (idx : Fin paiProtoMaxStreams) :
      (connStreamFinish cb e₁ frame idx).conn.state = e₁.conn.state := by
    unfold connStreamFinish
    simp only
    split_ifs <;> simp
  unfold connHandleStream
  simp only
  split_ifs
  · exact hstart
  · cases streamIndex (connStreamStart cb e frame).1.conn frame.requestId with
    | none => exact hstart
    | some idx =>
      simp only
      cases h : connStreamContent cb (connStreamStart cb e frame).1 frame idx with
      | none => exact hstart
      | some e₂ => exact (hfinish e₂ idx).trans ((hcontent _ _ _ h).trans hstart)

/-- A handler that rejects a frame leaves the connection live. -/
theorem connHandle_live_of_rejected (cb : Callbacks U) {e : Endpoint U} {frame : Frame}
    (hlive : e.conn.state ≠ .closed) (hrej : (connHandle cb e frame).2 ≠ paiOk) :
    (connHandle cb e frame).1.conn.state ≠ .closed := by
  unfold connHandle at hrej ⊢
  split_ifs at hrej ⊢
  · unfold connHandleOpen at hrej ⊢
    split_ifs at hrej ⊢ <;> first | simpa using hlive | exact absurd rfl hrej
  · unfold connHandlePreopen at hrej ⊢
    cases hrole : e.conn.role with
    | server =>
      simp only [hrole] at hrej ⊢
      split_ifs at hrej ⊢
      · exact hlive
      · unfold connHandleHelloServer at hrej ⊢
        cases hdec : paiProtoMsgDecodeCaps frame.payload with
        | none => exact hlive
        | some remote =>
          simp only [hdec] at hrej ⊢
          split_ifs at hrej ⊢
          · exact absurd rfl hrej
          · exact absurd rfl hrej
          · simp [connSendNegotiation]
    | client =>
      simp only [hrole] at hrej ⊢
      split_ifs at hrej ⊢
      · unfold connHandleAckClient at hrej ⊢
        split_ifs at hrej ⊢
        · exact hlive
        · cases hdec : paiProtoMsgDecodeCaps frame.payload with
          | none => exact hlive
          | some negotiated => simp
      · exact absurd rfl hrej
      · exact hlive

/-- Closing a live connection reports the reason. -/
theorem close_mem_connSetClosed (cb : Callbacks U) {e : Endpoint U} (hlive : e.conn.state ≠ .closed)
    (reason : UInt32) : Event.close reason ∈ (connSetClosed cb e reason).events := by
  simp [connSetClosed, hlive]

/-- What a failed part of a poll has done: the application was told of a protocol error. -/
def FailsLoudly (r : PollResult U) : Prop :=
  r.status ≠ paiOk → Event.close paiProtoCloseProtocol ∈ r.endpoint.events

/-- A rejected frame is reported as a protocol error. -/
theorem pollFrame_loud (cb : Callbacks U) {e : Endpoint U} (hlive : e.conn.state ≠ .closed)
    (hrej : (pollFrame cb e).2 ≠ paiOk) :
    Event.close paiProtoCloseProtocol ∈ (pollFrame cb e).1.events := by
  unfold pollFrame at hrej ⊢
  split_ifs at hrej ⊢
  · exact close_mem_connSetClosed cb hlive _
  · unfold connDispatch at hrej ⊢
    simp only at hrej ⊢
    split_ifs at hrej ⊢ with hbad
    · exact close_mem_connSetClosed cb (connHandle_live_of_rejected cb hlive hbad) _
    · exact absurd rfl hrej

/-- A `recv` call reports no status besides the end of the stream. -/
theorem transportRecv_status (cut : ℕ → ℕ) (rx : Rx) (n : ℕ) :
    (transportRecv cut rx n).status = paiOk ∨
      (transportRecv cut rx n).status = paiErrIo ∧ (transportRecv cut rx n).got = [] := by
  obtain ⟨-, ⟨hst, -⟩ | ⟨hst, hgot, -⟩⟩ := transportRecv_cases cut rx n
  · exact Or.inl hst
  · exact Or.inr ⟨hst, hgot⟩

/-- Phase 1 fails loudly, and goes on with a live connection. -/
theorem pollHeader_loud (cb : Callbacks U) (cut : ℕ → ℕ) {e : Endpoint U} (rx : Rx) (frames : ℕ)
    (hlive : e.conn.state ≠ .closed) :
    match pollHeader cb cut e rx frames with
    | .error r => FailsLoudly r
    | .ok (e', _) => e'.conn.state ≠ .closed := by
  unfold pollHeader
  split_ifs with hheader
  · simp only
    obtain hst | ⟨hst, hgot⟩ :=
      transportRecv_status cut rx (paiProtoHeaderSize - e.conn.headerBuf.length)
    · rw [if_neg (fun h => absurd (hst.symm.trans h.1) (by decide)), if_neg (not_not.mpr hst)]
      split_ifs
      · exact fun h => absurd rfl h
      · cases paiProtoFrameDecode (e.conn.headerBuf ++
            (transportRecv cut rx (paiProtoHeaderSize - e.conn.headerBuf.length)).got) with
        | none => exact fun _ => close_mem_connSetClosed cb (by exact hlive) _
        | some h => exact hlive
    · rw [if_pos ⟨hst, hgot⟩]
      exact fun h => absurd rfl h
  · exact hlive

/-- Phase 2 fails loudly, and goes on with a live connection. -/
theorem pollPayload_loud (cb : Callbacks U) (cut : ℕ → ℕ) {e : Endpoint U} (rx : Rx) (frames : ℕ)
    (hlive : e.conn.state ≠ .closed) :
    match pollPayload cb cut e rx frames with
    | .error r => FailsLoudly r
    | .ok (e', _) => e'.conn.state ≠ .closed := by
  unfold pollPayload
  split_ifs with hpay
  · simp only
    obtain hst | ⟨hst, -⟩ :=
      transportRecv_status cut rx (e.conn.pending.payloadLen - e.conn.payloadBuf.length)
    · rw [if_neg (fun h => absurd (hst.symm.trans h) (by decide)), if_neg (not_not.mpr hst)]
      split_ifs
      · exact fun h => absurd rfl h
      · exact hlive
    · rw [if_pos hst]
      exact fun _ => close_mem_connSetClosed cb hlive _
  · exact hlive

/-- An iteration that leaves the loop fails loudly. -/
theorem pollIteration_loud (cb : Callbacks U) (cut : ℕ → ℕ) {e : Endpoint U} (rx : Rx)
    (frames : ℕ) (hlive : e.conn.state ≠ .closed) {r : PollResult U}
    (hr : pollIteration cb cut e rx frames = .error r) : FailsLoudly r := by
  have hheader := pollHeader_loud cb cut rx frames hlive
  unfold pollIteration at hr
  cases hph : pollHeader cb cut e rx frames with
  | error r₁ =>
    rw [hph] at hheader hr
    exact Except.error.inj hr ▸ hheader
  | ok s =>
    obtain ⟨e₁, rx₁⟩ := s
    rw [hph] at hheader hr
    have hpayload := pollPayload_loud cb cut rx₁ frames hheader
    simp only at hr
    cases hpp : pollPayload cb cut e₁ rx₁ frames with
    | error r₂ =>
      rw [hpp] at hpayload hr
      exact Except.error.inj hr ▸ hpayload
    | ok s₂ =>
      rw [hpp] at hpayload hr
      simp only at hr
      split_ifs at hr with hrej
      obtain rfl := Except.error.inj hr
      exact fun _ => pollFrame_loud cb hpayload hrej

/-- A failed poll was reported to the application as a protocol error. -/
theorem pollLoop_loud (cb : Callbacks U) (cut : ℕ → ℕ) (batch : ℕ) (e : Endpoint U) (rx : Rx)
    (frames : ℕ) (hwait : e.Awaiting) : FailsLoudly (pollLoop cb cut batch e rx frames) := by
  induction batch generalizing e rx frames with
  | zero => exact fun h => absurd rfl h
  | succ batch ih =>
    unfold pollLoop
    by_cases hclosed : e.conn.state = .closed
    · rw [if_pos hclosed]
      exact fun h => absurd rfl h
    rw [if_neg hclosed]
    have hiter := pollIteration_reads cb cut e rx frames hclosed hwait
    cases hpi : pollIteration cb cut e rx frames with
    | error r => exact pollIteration_loud cb cut rx frames hclosed hpi
    | ok s =>
      rw [hpi] at hiter
      exact ih s.1 s.2 (frames + 1) hiter.1

/-! ## One frame of the reference machine -/

/-- The bytes a frame is sent as. -/
@[irreducible] def frameBytes (frame : Frame) : List UInt8 := frameHeader frame ++ frame.payload

@[simp] theorem length_frameBytes (frame : Frame) :
    (frameBytes frame).length = paiProtoHeaderSize + frame.payload.length := by
  simp [frameBytes]

/-- A connection between two frames. -/
def Endpoint.AtRest (e : Endpoint U) : Prop :=
  e.conn.state ≠ .closed ∧ e.conn.headerBuf = []

/-- A fresh endpoint is between two frames. -/
theorem freshEndpoint_atRest (role : Role) (caps : UInt32) (user : U) :
    (freshEndpoint role caps user).AtRest :=
  ⟨(by decide : ConnState.new ≠ .closed), rfl⟩

/-- The endpoint with other receive buffers. -/
def Endpoint.withPump (e : Endpoint U) (header payload : List UInt8) (pending : FrameHeader) :
    Endpoint U :=
  { e with conn :=
    { e.conn with headerBuf := header, payloadBuf := payload, pending := pending } }

/-- `e'` differs from `e` at most in the receive buffers. -/
def SameButPump (e e' : Endpoint U) : Prop :=
  ∃ header payload pending, e' = e.withPump header payload pending

/-- The header the peer of a sent frame decodes. -/
def Frame.announced (frame : Frame) : FrameHeader :=
  ⟨{ frame.received with payload := [] }, frame.payload.length⟩

/-- Reading the header of a frame with content. -/
theorem feed_frameHeader (cb : Callbacks U) {e : Endpoint U} (hrest : e.AtRest) {frame : Frame}
    (hframe : frame.Sendable) (hpay : frame.payload ≠ []) :
    feed cb e (frameHeader frame) = e.withPump (frameHeader frame) [] frame.announced := by
  have hne : frameHeader frame ≠ [] := by
    intro h
    have := length_frameHeader frame
    rw [h] at this
    exact absurd this (by simp)
  have hpos : 0 < frame.payload.length := List.length_pos_iff.mpr hpay
  rw [feed_header_complete cb e _ hrest.1 hne (by rw [hrest.2]; simp), hrest.2, List.nil_append,
    paiProtoFrameDecode_frameHeader hframe]
  simp only
  rw [settle, if_pos (by simpa using hpos)]
  rfl

/-- A proper part of a frame only fills the receive buffers. -/
theorem feed_take_frameBytes (cb : Callbacks U) {e : Endpoint U} (hrest : e.AtRest) {frame : Frame}
    (hframe : frame.Sendable) (hpay : frame.payload ≠ []) {k : ℕ}
    (hk : k < (frameBytes frame).length) :
    SameButPump e (feed cb e ((frameBytes frame).take k)) := by
  rw [length_frameBytes] at hk
  by_cases hheader : k < paiProtoHeaderSize
  · have htake : (frameBytes frame).take k = (frameHeader frame).take k := by
      rw [frameBytes]
      exact List.take_append_of_le_length (by rw [length_frameHeader]; exact hheader.le)
    rw [htake, feed_header cb e _ hrest.1 (by rw [hrest.2]; simpa using hheader)]
    exact ⟨_, _, _, rfl⟩
  · have htake : (frameBytes frame).take k =
        frameHeader frame ++ frame.payload.take (k - paiProtoHeaderSize) := by
      rw [frameBytes, List.take_append, length_frameHeader,
        List.take_of_length_le (by rw [length_frameHeader]; omega)]
    rw [htake, feed_append, feed_frameHeader cb hrest hframe hpay,
      feed_payload cb (e.withPump (frameHeader frame) [] frame.announced) _ hrest.1 (by simp [Endpoint.withPump])
        (by simp [Endpoint.withPump, Frame.announced]; omega)]
    exact ⟨_, _, _, rfl⟩

/-- A complete frame is dispatched. -/
theorem feed_frameBytes (cb : Callbacks U) {e : Endpoint U} (hrest : e.AtRest) {frame : Frame}
    (hframe : frame.Sendable) (hpay : frame.payload ≠ []) :
    feed cb e (frameBytes frame) =
      (connDispatch cb (e.withPump (frameHeader frame) frame.payload frame.announced)
        frame.received).1 := by
  have hvalid := paiProtoFrameValidate_frameHeader hframe
  have hframe' : pollFrame cb (e.withPump (frameHeader frame) frame.payload frame.announced) =
      connDispatch cb (e.withPump (frameHeader frame) frame.payload frame.announced)
        frame.received :=
    if_neg (not_not.mpr hvalid)
  rw [frameBytes, feed_append, feed_frameHeader cb hrest hframe hpay,
    feed_payload_complete cb (e.withPump (frameHeader frame) [] frame.announced) _ hrest.1 hpay
      (by simp [Endpoint.withPump]) (by simp [Endpoint.withPump, Frame.announced]), ← hframe']
  rfl

/-- Sending a frame with content over an open transport. -/
theorem connSendUnchecked_of_open {e : Endpoint U} (hopen : e.txClosed = false) {frame : Frame}
    (hframe : frame.Sendable) (hpay : frame.payload ≠ []) :
    connSendUnchecked e frame = ({ e with tx := e.tx ++ frameBytes frame }, paiOk) := by
  have hpos : 0 < frame.payload.length := List.length_pos_iff.mpr hpay
  rw [connSendUnchecked, if_neg (not_lt.mpr hframe.payload_le),
    if_neg (not_not.mpr hframe.not_compressed)]
  simp [transportSend, hopen, hpos, frameBytes]

/-! ## The two negotiation frames -/

/-- Both sides speak the same major version. -/
theorem received_major (frame : Frame) : frame.received.major = paiProtoVersionMajor.toUInt16 :=
  (by decide : (1 : UInt16) >>> 8 = paiProtoVersionMajor.toUInt16)

/-- The HELLO sent by `pai_proto_conn_start` on a fresh client. -/
def helloFrame (clientCaps : UInt32) : Frame :=
  ⟨0, paiProtoMsgHello, 0, 1, 0, paiProtoMsgEncodeCaps (clientCaps &&& paiProtoCapKnown)⟩

/-- The frame sent by `conn_send_negotiation` in answer to that HELLO. -/
def answerFrame (msgType value : UInt32) : Frame :=
  ⟨0, msgType, paiProtoFlagReply, 1, 0, paiProtoMsgEncodeU32 value⟩

@[simp] theorem paiProtoMsgEncodeU32_ne_nil (value : UInt32) : paiProtoMsgEncodeU32 value ≠ [] := by
  intro h
  have hlen := congrArg List.length h
  simp [paiProtoMsgEncodeU32] at hlen

/-- The HELLO has content. -/
theorem helloFrame_payload_ne (clientCaps : UInt32) : (helloFrame clientCaps).payload ≠ [] :=
  paiProtoMsgEncodeU32_ne_nil (clientCaps &&& paiProtoCapKnown)

/-- The answers have content. -/
theorem answerFrame_payload_ne (msgType value : UInt32) :
    (answerFrame msgType value).payload ≠ [] := paiProtoMsgEncodeU32_ne_nil value

/-- The HELLO can be sent. -/
theorem helloFrame_sendable (clientCaps : UInt32) : (helloFrame clientCaps).Sendable where
  payload_le := by
    have hlen : (helloFrame clientCaps).payload.length = 8 := by
      simp [helloFrame, paiProtoMsgEncodeCaps, paiProtoMsgEncodeU32]
    rw [hlen]
    decide
  flags_fit := (by decide : (0 : UInt32).toUInt16.toUInt32 = 0)
  not_compressed := (by decide : (0 : UInt32) &&& paiProtoFlagCompressed = 0)

/-- The answers can be sent. -/
theorem answerFrame_sendable (msgType value : UInt32) : (answerFrame msgType value).Sendable where
  payload_le := by
    have hlen : (answerFrame msgType value).payload.length = 8 := by
      simp [answerFrame, paiProtoMsgEncodeU32]
    rw [hlen]
    decide
  flags_fit := (by decide : paiProtoFlagReply.toUInt16.toUInt32 = paiProtoFlagReply)
  not_compressed := (by decide : paiProtoFlagReply &&& paiProtoFlagCompressed = 0)

/-- The client once it has started. -/
def startedClient (clientCaps : UInt32) (user : U) : Endpoint U :=
  let e := freshEndpoint .client clientCaps user
  { e with
    conn := { e.conn with nextRequestId := e.conn.nextRequestId + 1, state := .negotiating }
    tx := frameBytes (helloFrame clientCaps) }

/-- Starting a fresh client sends HELLO. -/
theorem paiProtoConnStart_fresh (clientCaps : UInt32) (user : U) :
    paiProtoConnStart (freshEndpoint .client clientCaps user) =
      (startedClient clientCaps user, paiOk) := by
  let e : Endpoint U :=
    { freshEndpoint .client clientCaps user with
      conn :=
        { paiProtoConnInit .client clientCaps with
          nextRequestId := (paiProtoConnInit .client clientCaps).nextRequestId + 1 } }
  have hguard : ¬ ((freshEndpoint .client clientCaps user).conn.role ≠ .client ∨
      (freshEndpoint .client clientCaps user).conn.state ≠ .new) := by
    simp [freshEndpoint, paiProtoConnInit]
  have hsend : connSendUnchecked e (helloFrame clientCaps) =
      ({ e with tx := [] ++ frameBytes (helloFrame clientCaps) }, paiOk) :=
    connSendUnchecked_of_open rfl (helloFrame_sendable clientCaps)
      (helloFrame_payload_ne clientCaps)
  rw [paiProtoConnStart, if_neg hguard]
  change (let r := connSendUnchecked e (helloFrame clientCaps)
    if r.2 = paiOk then ({ r.1 with conn := { r.1.conn with state := .negotiating } }, r.2) else r) =
      _
  rw [hsend, List.nil_append]
  rfl

/-- The server's answer to the HELLO of a client that offers `clientCaps`: what `on_hello` returns
when installed, the server's capabilities otherwise. -/
def serverAnswer (scb : Callbacks V) (serverCaps : UInt32) (user : V) (clientCaps : UInt32) :
    UInt32 :=
  (helloAnswer scb (freshEndpoint .server serverCaps user) (clientCaps &&& paiProtoCapKnown)).2

/-- The server once it has read HELLO. -/
def answeredServer (scb : Callbacks V) (serverCaps : UInt32) (user : V) (clientCaps : UInt32) :
    Endpoint V :=
  feed scb (freshEndpoint .server serverCaps user) (frameBytes (helloFrame clientCaps))

/-- The capabilities both sides should agree on. -/
def agreedCaps (clientCaps answer : UInt32) : UInt32 :=
  answer &&& (clientCaps &&& paiProtoCapKnown) &&& paiProtoCapKnown

/-- Asking the application leaves the connection and the transport alone and closes nothing. -/
theorem helloAnswer_frame (scb : Callbacks V) (e : Endpoint V) (remote : UInt32) :
    (helloAnswer scb e remote).1.conn = e.conn ∧ (helloAnswer scb e remote).1.tx = e.tx ∧
      (helloAnswer scb e remote).1.txClosed = e.txClosed ∧
      (helloAnswer scb e remote).1.rxClosed = e.rxClosed ∧
      ∀ reason, Event.close reason ∈ (helloAnswer scb e remote).1.events →
        Event.close reason ∈ e.events := by
  unfold helloAnswer
  cases scb.onHello with
  | none => exact ⟨rfl, rfl, rfl, rfl, fun _ h => h⟩
  | some f => exact ⟨rfl, rfl, rfl, rfl, fun _ h => by simpa using h⟩

/-- The answer does not depend on the receive buffers. -/
theorem helloAnswer_withPump (scb : Callbacks V) (e : Endpoint V) (header payload : List UInt8)
    (pending : FrameHeader) (remote : UInt32) :
    (helloAnswer scb (e.withPump header payload pending) remote).2 =
      (helloAnswer scb e remote).2 := by
  unfold helloAnswer
  cases scb.onHello <;> rfl

/-- The answer frames go out while the transport is open. -/
theorem connSendNegotiation_hello {e : Endpoint V} (hopen : e.txClosed = false)
    (clientCaps msgType value : UInt32) :
    connSendNegotiation e msgType value (helloFrame clientCaps).received.requestId =
      ({ e with tx := e.tx ++ frameBytes (answerFrame msgType value) }, paiOk) :=
  connSendUnchecked_of_open hopen (answerFrame_sendable msgType value)
    (answerFrame_payload_ne msgType value)

section Answer

variable (scb : Callbacks V) (serverCaps : UInt32) (user : V) (clientCaps : UInt32)

/-- The server when HELLO is dispatched. -/
def helloReader : Endpoint V :=
  (freshEndpoint .server serverCaps user).withPump (frameHeader (helloFrame clientCaps))
    (helloFrame clientCaps).payload (helloFrame clientCaps).announced

/-- The server once the application has answered, before the answer is sent. -/
def helloAnswered : Endpoint V :=
  (helloAnswer scb (helloReader serverCaps user clientCaps) (clientCaps &&& paiProtoCapKnown)).1

/-- What the application's answer leaves alone. -/
theorem helloAnswered_frame :
    (helloAnswered scb serverCaps user clientCaps).conn =
        (helloReader serverCaps user clientCaps).conn ∧
      (helloAnswered scb serverCaps user clientCaps).tx = [] ∧
      (helloAnswered scb serverCaps user clientCaps).txClosed = false ∧
      (helloAnswered scb serverCaps user clientCaps).rxClosed = false ∧
      Event.close paiProtoCloseProtocol ∉ (helloAnswered scb serverCaps user clientCaps).events := by
  obtain ⟨hconn, htx, htxc, hrxc, hevents⟩ := helloAnswer_frame scb
    (helloReader serverCaps user clientCaps) (clientCaps &&& paiProtoCapKnown)
  exact ⟨hconn, htx, htxc, hrxc, mt (hevents paiProtoCloseProtocol) List.not_mem_nil⟩

/-- The negotiation of a fresh server that has read HELLO. -/
theorem connHandle_hello :
    connHandle scb (helloReader serverCaps user clientCaps) (helloFrame clientCaps).received =
      connHandleHelloServer scb (helloReader serverCaps user clientCaps)
        (helloFrame clientCaps).received := by
  rw [connHandle, if_neg (by exact (by decide : ConnState.new ≠ .opened)), connHandlePreopen]
  exact if_neg (not_not.mpr (by rfl))

/-- Reading HELLO dispatches it to the negotiation. -/
theorem answeredServer_eq {e : Endpoint V}
    (h : connHandleHelloServer scb (helloReader serverCaps user clientCaps)
      (helloFrame clientCaps).received = (e, paiOk)) :
    answeredServer scb serverCaps user clientCaps = { e with conn := connResetPhase e.conn } := by
  rw [answeredServer, feed_frameBytes scb (freshEndpoint_atRest _ _ _)
    (helloFrame_sendable clientCaps) (helloFrame_payload_ne clientCaps), connDispatch,
    ← helloReader, connHandle_hello, h]
  simp

/-- HELLO decodes to the client's capabilities. -/
theorem decode_helloFrame :
    paiProtoMsgDecodeCaps (helloFrame clientCaps).received.payload =
      some (clientCaps &&& paiProtoCapKnown) :=
  paiProtoMsgDecodeU32_encode (clientCaps &&& paiProtoCapKnown)

/-- The answer seen by the negotiation. -/
theorem helloAnswer_reader :
    helloAnswer scb (helloReader serverCaps user clientCaps) (clientCaps &&& paiProtoCapKnown) =
      (helloAnswered scb serverCaps user clientCaps,
        serverAnswer scb serverCaps user clientCaps) :=
  Prod.ext rfl (helloAnswer_withPump scb _ _ _ _ _)

/-- A refusing server sends NACK and closes. -/
theorem answeredServer_refused (hrefuse : serverAnswer scb serverCaps user clientCaps = 0) :
    let s := answeredServer scb serverCaps user clientCaps
    s.conn.state = .closed ∧ s.conn.role = .server ∧
      s.tx = frameBytes (answerFrame paiProtoMsgHelloNack paiProtoNackCaps) ∧
      s.txClosed = true ∧ s.rxClosed = true ∧
      Event.close paiProtoCloseProtocol ∉ s.events := by
  obtain ⟨hconn, htx, htxc, hrxc, hquiet⟩ := helloAnswered_frame scb serverCaps user clientCaps
  have hhandle : connHandleHelloServer scb (helloReader serverCaps user clientCaps)
      (helloFrame clientCaps).received =
      (connSetClosed scb
        { helloAnswered scb serverCaps user clientCaps with
          tx := (helloAnswered scb serverCaps user clientCaps).tx ++
            frameBytes (answerFrame paiProtoMsgHelloNack paiProtoNackCaps) }
        paiProtoCloseNormal, paiOk) := by
    rw [connHandleHelloServer, decode_helloFrame]
    simp only
    rw [if_neg (not_not.mpr (received_major _)), helloAnswer_reader]
    simp only
    rw [if_pos hrefuse, connSendNegotiation_hello htxc]
  have hlive : (helloAnswered scb serverCaps user clientCaps).conn.state ≠ .closed := by
    rw [hconn]
    exact (by decide : ConnState.new ≠ .closed)
  intro s
  have hs := answeredServer_eq scb serverCaps user clientCaps hhandle
  rw [connSetClosed, if_neg hlive, htx, List.nil_append] at hs
  rw [show s = _ from hs]
  refine ⟨rfl, congrArg Conn.role hconn, rfl, rfl, rfl, ?_⟩
  rw [List.mem_append, List.mem_singleton, not_or]
  exact ⟨hquiet, by decide⟩

/-- An accepting server opens and sends ACK. -/
theorem answeredServer_accepted (haccept : serverAnswer scb serverCaps user clientCaps ≠ 0) :
    let s := answeredServer scb serverCaps user clientCaps
    let agreed := agreedCaps clientCaps (serverAnswer scb serverCaps user clientCaps)
    s.conn.state = .opened ∧ s.conn.role = .server ∧ s.conn.negotiatedCaps = agreed ∧
      s.tx = frameBytes (answerFrame paiProtoMsgHelloAck agreed) ∧
      s.txClosed = false ∧ s.rxClosed = false ∧
      Event.close paiProtoCloseProtocol ∉ s.events := by
  obtain ⟨hconn, htx, htxc, hrxc, hquiet⟩ := helloAnswered_frame scb serverCaps user clientCaps
  intro s agreed
  have hhandle : connHandleHelloServer scb (helloReader serverCaps user clientCaps)
      (helloFrame clientCaps).received =
      ({ helloAnswered scb serverCaps user clientCaps with
          conn :=
            { (helloAnswered scb serverCaps user clientCaps).conn with
              localCaps := serverAnswer scb serverCaps user clientCaps &&& paiProtoCapKnown
              remoteCaps := clientCaps &&& paiProtoCapKnown &&& paiProtoCapKnown
              negotiatedCaps := agreed
              state := .opened }
          tx := (helloAnswered scb serverCaps user clientCaps).tx ++
            frameBytes (answerFrame paiProtoMsgHelloAck agreed) }, paiOk) := by
    rw [connHandleHelloServer, decode_helloFrame]
    simp only
    rw [if_neg (not_not.mpr (received_major _)), helloAnswer_reader]
    simp only
    rw [if_neg haccept]
    exact connSendNegotiation_hello (by exact htxc) clientCaps paiProtoMsgHelloAck agreed
  have hs := answeredServer_eq scb serverCaps user clientCaps hhandle
  rw [htx, List.nil_append] at hs
  rw [show s = _ from hs]
  exact ⟨rfl, congrArg Conn.role hconn, rfl, rfl, htxc, hrxc, hquiet⟩

end Answer

/-! ## The client and the answer -/

/-- The endpoint with its pipes closed or open. -/
def Endpoint.setPipes (e : Endpoint U) (closed : Bool) : Endpoint U :=
  { e with txClosed := closed, rxClosed := closed }

/-- Setting the pipes to what they are changes nothing. -/
theorem Endpoint.setPipes_eq {e : Endpoint U} {closed : Bool} (htx : e.txClosed = closed)
    (hrx : e.rxClosed = closed) : e.setPipes closed = e := by
  obtain ⟨conn, user, tx, txClosed, rxClosed, events⟩ := e
  obtain rfl : txClosed = closed := htx
  obtain rfl : rxClosed = txClosed := hrx
  rfl

/-- A started client is between two frames. -/
theorem startedClient_atRest (clientCaps : UInt32) (user : U) (closed : Bool) :
    ((startedClient clientCaps user).setPipes closed).AtRest :=
  ⟨(by decide : ConnState.negotiating ≠ .closed), rfl⟩

/-- The started client when the answer is dispatched. -/
def answerReader (clientCaps : UInt32) (user : U) (closed : Bool) (frame : Frame) : Endpoint U :=
  ((startedClient clientCaps user).setPipes closed).withPump (frameHeader frame) frame.payload
    frame.announced

/-- Reading an answer dispatches it to the client's negotiation. -/
theorem startedClient_answer (ccb : Callbacks U) (clientCaps : UInt32) (user : U) (closed : Bool)
    {msgType value : UInt32} {e : Endpoint U}
    (h : connHandlePreopen ccb (answerReader clientCaps user closed (answerFrame msgType value))
      (answerFrame msgType value).received = (e, paiOk)) :
    feed ccb ((startedClient clientCaps user).setPipes closed)
        (frameBytes (answerFrame msgType value)) = { e with conn := connResetPhase e.conn } := by
  have hstate : (answerReader clientCaps user closed (answerFrame msgType value)).conn.state ≠
      .opened := (by decide : ConnState.negotiating ≠ .opened)
  have hhandle : connHandle ccb (answerReader clientCaps user closed (answerFrame msgType value))
      (answerFrame msgType value).received = (e, paiOk) := by
    rw [connHandle, if_neg hstate, h]
  rw [feed_frameBytes ccb (startedClient_atRest clientCaps user closed)
    (answerFrame_sendable _ _) (answerFrame_payload_ne _ _), connDispatch, ← answerReader, hhandle]
  simp

/-- ACK opens the client with the capabilities it carries. -/
theorem startedClient_ack (ccb : Callbacks U) (clientCaps : UInt32) (user : U) (agreed : UInt32) :
    let c := feed ccb ((startedClient clientCaps user).setPipes false)
      (frameBytes (answerFrame paiProtoMsgHelloAck agreed))
    c.conn.state = .opened ∧ c.conn.negotiatedCaps = agreed &&& paiProtoCapKnown ∧
      c.txClosed = false ∧ c.rxClosed = false ∧ c.tx = frameBytes (helloFrame clientCaps) ∧
      c.events = [] := by
  set frame := answerFrame paiProtoMsgHelloAck agreed with hframe
  have hdec : paiProtoMsgDecodeCaps frame.received.payload = some agreed :=
    paiProtoMsgDecodeU32_encode agreed
  have hhandle : connHandlePreopen ccb (answerReader clientCaps user false frame) frame.received =
      ({ answerReader clientCaps user false frame with
          conn :=
            { (answerReader clientCaps user false frame).conn with
              remoteCaps := agreed
              negotiatedCaps := agreed &&& paiProtoCapKnown
              state := .opened } }, paiOk) := by
    have htype : frame.received.msgType = paiProtoMsgHelloAck := rfl
    have hrole : (answerReader clientCaps user false frame).conn.role = .client := rfl
    rw [connHandlePreopen, hrole]
    simp only
    rw [if_pos htype, connHandleAckClient, if_neg (not_not.mpr (received_major _)), hdec]
  intro c
  have hc := startedClient_answer ccb clientCaps user false hhandle
  rw [show c = _ from hc]
  exact ⟨rfl, rfl, rfl, rfl, rfl, rfl⟩

/-- NACK closes the client and records its reason. -/
theorem startedClient_nack (ccb : Callbacks U) (clientCaps : UInt32) (user : U) (reason : UInt32) :
    let c := feed ccb ((startedClient clientCaps user).setPipes true)
      (frameBytes (answerFrame paiProtoMsgHelloNack reason))
    c.conn.state = .closed ∧ c.conn.nackReason = reason ∧ c.txClosed = true ∧ c.rxClosed = true ∧
      c.tx = frameBytes (helloFrame clientCaps) ∧
      Event.close paiProtoCloseProtocol ∉ c.events := by
  set frame := answerFrame paiProtoMsgHelloNack reason with hframe
  have hdec : paiProtoMsgDecodeU32 frame.received.payload = some reason :=
    paiProtoMsgDecodeU32_encode reason
  have hhandle : connHandlePreopen ccb (answerReader clientCaps user true frame) frame.received =
      (connSetClosed ccb
        { answerReader clientCaps user true frame with
          conn := { (answerReader clientCaps user true frame).conn with nackReason := reason } }
        paiProtoCloseNormal, paiOk) := by
    have htype : frame.received.msgType = paiProtoMsgHelloNack := rfl
    have hnot : frame.received.msgType ≠ paiProtoMsgHelloAck := by
      rw [htype]
      decide
    have hrole : (answerReader clientCaps user true frame).conn.role = .client := rfl
    rw [connHandlePreopen, hrole]
    simp only
    rw [if_neg hnot, if_pos htype, connHandleNackClient, hdec]
    rfl
  intro c
  have hc := startedClient_answer ccb clientCaps user true hhandle
  rw [connSetClosed, if_neg (by exact (by decide : ConnState.negotiating ≠ .closed))] at hc
  rw [show c = _ from hc]
  refine ⟨rfl, rfl, rfl, rfl, rfl, ?_⟩
  change Event.close paiProtoCloseProtocol ∉ [Event.close paiProtoCloseNormal]
  decide

/-! ## The link -/

/-- A client and a server joined by a pipe pair.  What one side has sent and the other has not read
is in flight. -/
structure Link (U V : Type) where
  /-- The client side. -/
  client : Endpoint U
  /-- The server side. -/
  server : Endpoint V
  /-- Bytes sent by the server and read by the client. -/
  clientRead : ℕ
  /-- Bytes sent by the client and read by the server. -/
  serverRead : ℕ

/-- A call made on one of the two connections. -/
inductive LinkCall where
  /-- `pai_proto_conn_start` on the client. -/
  | clientStart
  /-- `pai_proto_conn_start` on the server. -/
  | serverStart
  /-- `pai_proto_conn_poll` on the client, its reads cut by a schedule. -/
  | clientPoll (cut : ℕ → ℕ)
  /-- `pai_proto_conn_poll` on the server, its reads cut by a schedule. -/
  | serverPoll (cut : ℕ → ℕ)

/-- `endpoint_close` closes both pipes, so each side sees what the other has closed. -/
def Link.share (l : Link U V) : Link U V :=
  { l with
    client := l.client.setPipes (l.client.txClosed || l.server.txClosed)
    server := l.server.setPipes (l.client.txClosed || l.server.txClosed) }

/-- Make one call; the status is the one it returns. -/
def Link.step (ccb : Callbacks U) (scb : Callbacks V) (l : Link U V) :
    LinkCall → Link U V × PaiStatus
  | .clientStart =>
    let r := paiProtoConnStart l.client
    (Link.share { l with client := r.1 }, r.2)
  | .serverStart =>
    let r := paiProtoConnStart l.server
    (Link.share { l with server := r.1 }, r.2)
  | .clientPoll cut =>
    let r := paiProtoConnPoll ccb cut l.client
      ⟨l.server.tx.drop l.clientRead, l.client.rxClosed, 0⟩
    (Link.share { l with
      client := r.endpoint, clientRead := l.server.tx.length - r.rx.rest.length }, r.status)
  | .serverPoll cut =>
    let r := paiProtoConnPoll scb cut l.server
      ⟨l.client.tx.drop l.serverRead, l.server.rxClosed, 0⟩
    (Link.share { l with
      server := r.endpoint, serverRead := l.client.tx.length - r.rx.rest.length }, r.status)

/-- Make a sequence of calls. -/
def Link.run (ccb : Callbacks U) (scb : Callbacks V) (l : Link U V) (calls : List LinkCall) :
    Link U V :=
  calls.foldl (fun l call => (l.step ccb scb call).1) l

/-- Two fresh connections over a fresh pipe pair. -/
def freshLink (clientCaps serverCaps : UInt32) (u : U) (v : V) : Link U V :=
  ⟨freshEndpoint .client clientCaps u, freshEndpoint .server serverCaps v, 0, 0⟩

/-- Nothing is in flight. -/
def Link.Drained (l : Link U V) : Prop :=
  l.client.tx.drop l.serverRead = [] ∧ l.server.tx.drop l.clientRead = []

/-! ## One call -/

/-- Between two bytes a live connection awaits more of them. -/
theorem feedByte_awaiting (cb : Callbacks U) {e : Endpoint U} (hwait : e.Awaiting) (b : UInt8) :
    (feedByte cb e b).Awaiting := by
  unfold feedByte
  by_cases hclosed : e.conn.state = .closed
  · rw [if_pos hclosed]
    exact hwait
  rw [if_neg hclosed]
  by_cases hheader : e.conn.headerBuf.length < paiProtoHeaderSize
  · rw [if_pos hheader]
    simp only
    split_ifs with hshort
    · exact fun _ => Or.inl hshort
    · cases paiProtoFrameDecode (e.conn.headerBuf ++ [b]) with
      | none => exact fun h => absurd (connSetClosed_state cb _ _) h
      | some header =>
        simp only
        split_ifs with hpay
        · refine fun _ => Or.inr ⟨?_, hpay⟩
          simp only [List.length_append, List.length_singleton] at hshort ⊢
          omega
        · exact pollFrame_awaiting cb _
  · rw [if_neg hheader]
    obtain h | ⟨hfull, -⟩ := hwait hclosed
    · exact absurd h hheader
    · simp only
      split_ifs with hshort
      · exact fun _ => Or.inr ⟨hfull, hshort⟩
      · exact pollFrame_awaiting cb _

/-- Between two stretches of bytes a live connection awaits more of them. -/
theorem feed_awaiting (cb : Callbacks U) {e : Endpoint U} (hwait : e.Awaiting)
    (bytes : List UInt8) : (feed cb e bytes).Awaiting := by
  induction bytes generalizing e with
  | nil => exact hwait
  | cons b bytes ih => exact ih (feedByte_awaiting cb hwait b)

/-- A poll on a connection that has read the first `k` bytes of a stream reads on to some `k'`; the
end of the stream changes nothing when the stream itself closes the connection. -/
theorem paiProtoConnPoll_readsOn (cb : Callbacks U) (cut : ℕ → ℕ) {e : Endpoint U}
    (hwait : e.Awaiting) (bytes : List UInt8) {k : ℕ} (hk : k ≤ bytes.length) (eof : Bool)
    (heof : eof = true → (feed cb e bytes).conn.state = .closed) :
    let r := paiProtoConnPoll cb cut (feed cb e (bytes.take k)) ⟨bytes.drop k, eof, 0⟩
    let k' := bytes.length - r.rx.rest.length
    k ≤ k' ∧ k' ≤ bytes.length ∧ r.endpoint = feed cb e (bytes.take k') ∧ FailsLoudly r := by
  intro r k'
  have hwait' := feed_awaiting cb hwait (bytes.take k)
  have hloud : FailsLoudly r := pollLoop_loud cb cut paiProtoPollBatch _ _ 0 hwait'
  obtain ⟨got, hrest, -, hend⟩ | ⟨htrue, -, hrest, hend⟩ :=
    (pollLoop_reads cb cut paiProtoPollBatch _ ⟨bytes.drop k, eof, 0⟩ 0 hwait').2
  · have hbytes : bytes = bytes.take k ++ got ++ r.rx.rest := by
      rw [List.append_assoc]
      conv_lhs => rw [← List.take_append_drop k bytes]
      exact congrArg _ hrest
    have hlen := congrArg List.length hbytes
    simp only [List.length_append, List.length_take, min_eq_left hk] at hlen
    have htake : bytes.take k' = bytes.take k ++ got := by
      conv_lhs => rw [hbytes]
      refine List.take_left' ?_
      simp only [List.length_append, List.length_take, min_eq_left hk, k']
      omega
    refine ⟨by omega, by omega, ?_, hloud⟩
    rw [htake, feed_append]
    exact hend
  · have hk' : k' = bytes.length := by
      change bytes.length - r.rx.rest.length = bytes.length
      rw [show r.rx.rest = [] from hrest, List.length_nil, Nat.sub_zero]
    have hfull : feed cb (feed cb e (bytes.take k)) (bytes.drop k) = feed cb e bytes := by
      rw [← feed_append, List.take_append_drop]
    refine ⟨by omega, by omega, ?_, hloud⟩
    rw [hk', List.take_length]
    have hend' : r.endpoint = feedEof cb (feed cb (feed cb e (bytes.take k)) (bytes.drop k)) := hend
    rw [hend', hfull, feedEof_of_closed cb (heof htrue)]

/-- A poll that reports no protocol error to the application returns `PAI_OK`. -/
theorem FailsLoudly.status_ne {r : PollResult U} (h : FailsLoudly r)
    (hquiet : Event.close paiProtoCloseProtocol ∉ r.endpoint.events) :
    r.status ≠ paiErrProtocol := by
  intro hst
  exact hquiet (h (by rw [hst]; decide))

/-- `pai_proto_conn_start` refuses a server and a client that has started. -/
theorem paiProtoConnStart_refused {e : Endpoint U}
    (h : e.conn.role ≠ .client ∨ e.conn.state ≠ .new) :
    paiProtoConnStart e = (e, paiErrInvalidArg) := if_pos h

/-- Sharing changes nothing when the two sides agree. -/
theorem Link.share_of_eq {l : Link U V} (closed : Bool) (hc : l.client.setPipes closed = l.client)
    (hs : l.server.setPipes closed = l.server) : l.share = l := by
  have hcc : l.client.txClosed = closed := by rw [← hc]; rfl
  have hsc : l.server.txClosed = closed := by rw [← hs]; rfl
  rw [Link.share, hcc, hsc, Bool.or_self, hc, hs]

/-! ## The phases of the handshake -/

section Handshake

variable (ccb : Callbacks U) (scb : Callbacks V) (clientCaps serverCaps : UInt32) (u : U) (v : V)

/-- The client after the first `j` bytes of the answer. -/
def answeredClient (j : ℕ) : Endpoint U :=
  let s := answeredServer scb serverCaps v clientCaps
  feed ccb ((startedClient clientCaps u).setPipes s.txClosed) (s.tx.take j)

/-- The phases of the handshake; the flag says whether the client has started. -/
inductive LinkPhase : Bool → Link U V → Prop
  /-- Nothing was sent. -/
  | idle : LinkPhase false (freshLink clientCaps serverCaps u v)
  /-- The server has read the first `k` bytes of HELLO. -/
  | hello (k : ℕ) (hk : k < (frameBytes (helloFrame clientCaps)).length) :
      LinkPhase true
        ⟨startedClient clientCaps u,
          feed scb (freshEndpoint .server serverCaps v)
            ((frameBytes (helloFrame clientCaps)).take k), 0, k⟩
  /-- The server has answered, and the client has read the first `j` bytes of the answer. -/
  | answered (j : ℕ) (hj : j ≤ (answeredServer scb serverCaps v clientCaps).tx.length) :
      LinkPhase true
        ⟨answeredClient ccb scb clientCaps serverCaps u v j,
          answeredServer scb serverCaps v clientCaps, j,
          (frameBytes (helloFrame clientCaps)).length⟩

/-- What holds of the client while the answer arrives. -/
structure ClientFacts (j : ℕ) : Prop where
  /-- HELLO is all it has sent. -/
  tx_eq : (answeredClient ccb scb clientCaps serverCaps u v j).tx =
    frameBytes (helloFrame clientCaps)
  /-- Its pipes are those of the server. -/
  pipes : (answeredClient ccb scb clientCaps serverCaps u v j).setPipes
    (answeredServer scb serverCaps v clientCaps).txClosed =
      answeredClient ccb scb clientCaps serverCaps u v j
  /-- It has started. -/
  started : (answeredClient ccb scb clientCaps serverCaps u v j).conn.state ≠ .new
  /-- It has reported no protocol error. -/
  quiet : Event.close paiProtoCloseProtocol ∉
    (answeredClient ccb scb clientCaps serverCaps u v j).events

/-- The client's state once the answer is complete. -/
theorem answeredClient_full :
    let s := answeredServer scb serverCaps v clientCaps
    let answer := serverAnswer scb serverCaps v clientCaps
    let c := answeredClient ccb scb clientCaps serverCaps u v s.tx.length
    (answer = 0 ∧ c.conn.state = .closed ∧ c.conn.nackReason = paiProtoNackCaps ∨
        answer ≠ 0 ∧ c.conn.state = .opened ∧
          c.conn.negotiatedCaps = agreedCaps clientCaps answer) ∧
      ClientFacts ccb scb clientCaps serverCaps u v s.tx.length := by
  intro s answer c
  by_cases hans : answer = 0
  · obtain ⟨-, -, htx, htxc, -⟩ := answeredServer_refused scb serverCaps v clientCaps hans
    have hc : c = feed ccb ((startedClient clientCaps u).setPipes true)
        (frameBytes (answerFrame paiProtoMsgHelloNack paiProtoNackCaps)) := by
      change feed ccb ((startedClient clientCaps u).setPipes s.txClosed) (s.tx.take s.tx.length) = _
      rw [List.take_length, htxc, htx]
    obtain ⟨hstate, hreason, hctx, hcrx, hcsent, hquiet⟩ :=
      startedClient_nack ccb clientCaps u paiProtoNackCaps
    rw [← hc] at hstate hreason hctx hcrx hcsent hquiet
    refine ⟨Or.inl ⟨hans, hstate, hreason⟩, hcsent, ?_, by rw [hstate]; decide, hquiet⟩
    rw [htxc]
    exact Endpoint.setPipes_eq hctx hcrx
  · obtain ⟨-, -, -, htx, htxc, -⟩ := answeredServer_accepted scb serverCaps v clientCaps hans
    have hc : c = feed ccb ((startedClient clientCaps u).setPipes false)
        (frameBytes (answerFrame paiProtoMsgHelloAck (agreedCaps clientCaps answer))) := by
      change feed ccb ((startedClient clientCaps u).setPipes s.txClosed) (s.tx.take s.tx.length) = _
      rw [List.take_length, htxc, htx]
    obtain ⟨hstate, hcaps, hctx, hcrx, hcsent, hevents⟩ :=
      startedClient_ack ccb clientCaps u (agreedCaps clientCaps answer)
    rw [← hc] at hstate hcaps hctx hcrx hcsent hevents
    refine ⟨Or.inr ⟨hans, hstate, ?_⟩, hcsent, ?_, by rw [hstate]; decide, ?_⟩
    · rw [hcaps, agreedCaps, UInt32.and_assoc, UInt32.and_self]
    · rw [htxc]
      exact Endpoint.setPipes_eq hctx hcrx
    · change Event.close paiProtoCloseProtocol ∉ c.events
      rw [hevents]
      exact List.not_mem_nil

/-- The answer is one frame with content. -/
theorem answeredServer_tx :
    ∃ msgType value, (answeredServer scb serverCaps v clientCaps).tx =
      frameBytes (answerFrame msgType value) := by
  by_cases hans : serverAnswer scb serverCaps v clientCaps = 0
  · exact ⟨_, _, (answeredServer_refused scb serverCaps v clientCaps hans).2.2.1⟩
  · exact ⟨_, _, (answeredServer_accepted scb serverCaps v clientCaps hans).2.2.2.1⟩

/-- While part of the answer is missing the client only fills its receive buffers. -/
theorem answeredClient_partial {j : ℕ}
    (hj : j < (answeredServer scb serverCaps v clientCaps).tx.length) :
    SameButPump ((startedClient clientCaps u).setPipes
        (answeredServer scb serverCaps v clientCaps).txClosed)
      (answeredClient ccb scb clientCaps serverCaps u v j) := by
  obtain ⟨msgType, value, htx⟩ := answeredServer_tx scb clientCaps serverCaps v
  rw [htx] at hj
  rw [answeredClient, htx]
  exact feed_take_frameBytes ccb (startedClient_atRest clientCaps u _)
    (answerFrame_sendable msgType value)
      (answerFrame_payload_ne msgType value) hj

/-- The facts about the client hold throughout. -/
theorem clientFacts {j : ℕ} (hj : j ≤ (answeredServer scb serverCaps v clientCaps).tx.length) :
    ClientFacts ccb scb clientCaps serverCaps u v j := by
  obtain hlt | rfl := hj.lt_or_eq
  · obtain ⟨header, payload, pending, hc⟩ :=
      answeredClient_partial ccb scb clientCaps serverCaps u v hlt
    constructor
    · rw [hc]
      rfl
    · rw [hc]
      rfl
    · rw [hc]
      exact (by decide : ConnState.negotiating ≠ ConnState.new)
    · rw [hc]
      exact List.not_mem_nil
  · exact (answeredClient_full ccb scb clientCaps serverCaps u v).2

/-- What holds of the server once it has answered. -/
theorem serverFacts :
    let s := answeredServer scb serverCaps v clientCaps
    s.conn.role = .server ∧ s.setPipes s.txClosed = s ∧
      (s.txClosed = true → s.conn.state = .closed ∧
        serverAnswer scb serverCaps v clientCaps = 0) ∧
      Event.close paiProtoCloseProtocol ∉ s.events := by
  intro s
  by_cases hans : serverAnswer scb serverCaps v clientCaps = 0
  · obtain ⟨hstate, hrole, -, htxc, hrxc, hquiet⟩ :=
      answeredServer_refused scb serverCaps v clientCaps hans
    exact ⟨hrole, Endpoint.setPipes_eq rfl (hrxc.trans htxc.symm), fun _ => ⟨hstate, hans⟩, hquiet⟩
  · obtain ⟨-, hrole, -, -, htxc, hrxc, hquiet⟩ :=
      answeredServer_accepted scb serverCaps v clientCaps hans
    exact ⟨hrole, Endpoint.setPipes_eq rfl (hrxc.trans htxc.symm),
      fun h => absurd (htxc.symm.trans h) (by decide), hquiet⟩

theorem paiOk_ne_protocol : paiOk ≠ paiErrProtocol := by decide

theorem invalidArg_ne_protocol : paiErrInvalidArg ≠ paiErrProtocol := by decide

theorem server_ne_client : Role.server ≠ Role.client := by decide

theorem negotiating_ne_new : ConnState.negotiating ≠ ConnState.new := by decide

theorem negotiating_ne_opened : ConnState.negotiating ≠ ConnState.opened := by decide

theorem new_ne_opened : ConnState.new ≠ ConnState.opened := by decide

/-- A fresh endpoint awaits bytes. -/
theorem freshEndpoint_awaiting {W : Type} (role : Role) (caps : UInt32) (w : W) :
    (freshEndpoint role caps w).Awaiting := fun _ => Or.inl (by decide : 0 < paiProtoHeaderSize)

/-- A started client awaits bytes. -/
theorem startedClient_awaiting (closed : Bool) :
    ((startedClient clientCaps u).setPipes closed).Awaiting := fun _ => Or.inl (by decide : 0 < paiProtoHeaderSize)

/-- A server that has read part of HELLO only has its receive buffers filled. -/
theorem helloServer_partial {k : ℕ} (hk : k < (frameBytes (helloFrame clientCaps)).length) :
    SameButPump (freshEndpoint .server serverCaps v)
      (feed scb (freshEndpoint .server serverCaps v)
        ((frameBytes (helloFrame clientCaps)).take k)) :=
  feed_take_frameBytes scb (freshEndpoint_atRest _ _ _) (helloFrame_sendable clientCaps)
    (helloFrame_payload_ne clientCaps) hk

/-- A client poll: the client reads on in what the server has sent. -/
theorem clientPoll_step (cut : ℕ → ℕ) {l : Link U V} {e : Endpoint U} (hwait : e.Awaiting)
    (hclient : l.client = feed ccb e (l.server.tx.take l.clientRead))
    (hread : l.clientRead ≤ l.server.tx.length)
    (heof : l.client.rxClosed = true → (feed ccb e l.server.tx).conn.state = .closed) :
    ∃ j, j ≤ l.server.tx.length ∧
      (l.step ccb scb (.clientPoll cut)).1 =
        Link.share { l with client := feed ccb e (l.server.tx.take j), clientRead := j } ∧
      (Event.close paiProtoCloseProtocol ∉ (feed ccb e (l.server.tx.take j)).events →
        (l.step ccb scb (.clientPoll cut)).2 ≠ paiErrProtocol) := by
  obtain ⟨-, hle, hend, hloud⟩ :=
    paiProtoConnPoll_readsOn ccb cut hwait l.server.tx hread l.client.rxClosed heof
  rw [← hclient] at hle hend hloud
  refine ⟨_, hle, ?_, fun hquiet => hloud.status_ne (by rwa [hend])⟩
  rw [← hend]
  rfl

/-- A server poll: the server reads on in what the client has sent. -/
theorem serverPoll_step (cut : ℕ → ℕ) {l : Link U V} {e : Endpoint V} (hwait : e.Awaiting)
    (hserver : l.server = feed scb e (l.client.tx.take l.serverRead))
    (hread : l.serverRead ≤ l.client.tx.length)
    (heof : l.server.rxClosed = true → (feed scb e l.client.tx).conn.state = .closed) :
    ∃ k, l.serverRead ≤ k ∧ k ≤ l.client.tx.length ∧
      (l.step ccb scb (.serverPoll cut)).1 =
        Link.share { l with server := feed scb e (l.client.tx.take k), serverRead := k } ∧
      (Event.close paiProtoCloseProtocol ∉ (feed scb e (l.client.tx.take k)).events →
        (l.step ccb scb (.serverPoll cut)).2 ≠ paiErrProtocol) := by
  obtain ⟨hge, hle, hend, hloud⟩ :=
    paiProtoConnPoll_readsOn scb cut hwait l.client.tx hread l.server.rxClosed heof
  rw [← hserver] at hge hle hend hloud
  refine ⟨_, hge, hle, ?_, fun hquiet => hloud.status_ne (by rwa [hend])⟩
  rw [← hend]
  rfl

/-- The call starts the client. -/
def LinkCall.isStart : LinkCall → Bool
  | .clientStart => true
  | _ => false

/-- What one call does to a link in a phase of the handshake. -/
def StepsTo (started : Bool) (r : Link U V × PaiStatus) : Prop :=
  LinkPhase ccb scb clientCaps serverCaps u v started r.1 ∧ r.2 ≠ paiErrProtocol

/-- One call before anything was sent. -/
theorem idle_step (call : LinkCall) :
    StepsTo ccb scb clientCaps serverCaps u v call.isStart
      ((freshLink clientCaps serverCaps u v).step ccb scb call) := by
  cases call with
  | clientStart =>
    rw [Link.step]
    simp only [freshLink, paiProtoConnStart_fresh]
    exact ⟨LinkPhase.hello 0 (by simp), paiOk_ne_protocol⟩
  | serverStart =>
    rw [Link.step, paiProtoConnStart_refused (Or.inl (by exact server_ne_client))]
    exact ⟨LinkPhase.idle, invalidArg_ne_protocol⟩
  | clientPoll cut =>
    obtain ⟨j, hj, hlink, hst⟩ := clientPoll_step ccb scb cut
      (l := freshLink clientCaps serverCaps u v) (freshEndpoint_awaiting .client clientCaps u) rfl
      (Nat.zero_le 0) (fun h => absurd h Bool.false_ne_true)
    obtain rfl : j = 0 := Nat.le_zero.mp hj
    refine ⟨?_, hst List.not_mem_nil⟩
    rw [hlink]
    exact LinkPhase.idle
  | serverPoll cut =>
    obtain ⟨k, -, hk, hlink, hst⟩ := serverPoll_step ccb scb cut
      (l := freshLink clientCaps serverCaps u v) (freshEndpoint_awaiting .server serverCaps v) rfl
      (Nat.zero_le 0) (fun h => absurd h Bool.false_ne_true)
    obtain rfl : k = 0 := Nat.le_zero.mp hk
    refine ⟨?_, hst List.not_mem_nil⟩
    rw [hlink]
    exact LinkPhase.idle

/-- One call while HELLO is in flight. -/
theorem hello_step {k : ℕ} (hk : k < (frameBytes (helloFrame clientCaps)).length)
    (call : LinkCall) :
    StepsTo ccb scb clientCaps serverCaps u v true
      (Link.step ccb scb ⟨startedClient clientCaps u,
        feed scb (freshEndpoint .server serverCaps v)
          ((frameBytes (helloFrame clientCaps)).take k), 0, k⟩ call) := by
  obtain ⟨header, payload, pending, hserver⟩ := helloServer_partial scb clientCaps serverCaps v hk
  set l : Link U V := ⟨startedClient clientCaps u, feed scb (freshEndpoint .server serverCaps v)
    ((frameBytes (helloFrame clientCaps)).take k), 0, k⟩ with hl
  have hphase : LinkPhase ccb scb clientCaps serverCaps u v true l := LinkPhase.hello k hk
  have hshare : l.share = l :=
    Link.share_of_eq false rfl (by rw [hl]; simp only [hserver]; rfl)
  have htx : l.server.tx = [] := by
    rw [hl]
    simp only [hserver]
    rfl
  cases call with
  | clientStart =>
    rw [Link.step, paiProtoConnStart_refused (Or.inr (by exact negotiating_ne_new))]
    exact ⟨by rw [show Link.share _ = l from hshare]; exact hphase, invalidArg_ne_protocol⟩
  | serverStart =>
    have hrole : l.server.conn.role ≠ .client := by
      rw [hl]
      simp only [hserver]
      exact server_ne_client
    rw [Link.step, paiProtoConnStart_refused (Or.inl hrole)]
    exact ⟨by rw [show Link.share _ = l from hshare]; exact hphase, invalidArg_ne_protocol⟩
  | clientPoll cut =>
    obtain ⟨j, hj, hlink, hst⟩ := clientPoll_step ccb scb cut (l := l)
      (startedClient_awaiting clientCaps u false) (by rw [htx]; rfl) (Nat.zero_le _)
      (fun h => absurd h Bool.false_ne_true)
    rw [htx] at hj hlink hst
    obtain rfl : j = 0 := Nat.le_zero.mp hj
    refine ⟨?_, hst List.not_mem_nil⟩
    have hsame : Link.share { l with
        client := feed ccb ((startedClient clientCaps u).setPipes false) (List.take 0 [])
        clientRead := 0 } = l := hshare
    rw [hlink, hsame]
    exact hphase
  | serverPoll cut =>
    obtain ⟨k', hge, hk', hlink, hst⟩ := serverPoll_step ccb scb cut (l := l)
      (freshEndpoint_awaiting .server serverCaps v) rfl hk.le
      (fun h => by
        rw [hl] at h
        simp only [hserver] at h
        exact absurd h Bool.false_ne_true)
    obtain hlt | hfull := (show k' ≤ (frameBytes (helloFrame clientCaps)).length from hk').lt_or_eq
    · obtain ⟨header', payload', pending', hserver'⟩ :=
        helloServer_partial scb clientCaps serverCaps v hlt
      have hread : feed scb (freshEndpoint .server serverCaps v) (l.client.tx.take k') =
          (freshEndpoint .server serverCaps v).withPump header' payload' pending' := hserver'
      refine ⟨?_, hst (by rw [hread]; exact List.not_mem_nil)⟩
      rw [hlink, Link.share_of_eq false rfl (by rw [hread]; rfl)]
      exact LinkPhase.hello k' hlt
    · obtain ⟨-, hpipes, -, hquiet⟩ := serverFacts scb clientCaps serverCaps v
      have hread : feed scb (freshEndpoint .server serverCaps v) (l.client.tx.take k') =
          answeredServer scb serverCaps v clientCaps := by
        rw [hfull]
        exact congrArg _ List.take_length
      rw [hread] at hlink hst
      refine ⟨?_, hst hquiet⟩
      have hshare' : Link.share
          { l with server := answeredServer scb serverCaps v clientCaps, serverRead := k' } =
          ⟨answeredClient ccb scb clientCaps serverCaps u v 0,
            (answeredServer scb serverCaps v clientCaps).setPipes
              (answeredServer scb serverCaps v clientCaps).txClosed, 0, k'⟩ := rfl
      rw [hlink, hshare', hpipes, hfull]
      exact LinkPhase.answered 0 (Nat.zero_le _)

/-- One call once the server has answered. -/
theorem answered_step {j : ℕ} (hj : j ≤ (answeredServer scb serverCaps v clientCaps).tx.length)
    (call : LinkCall) :
    StepsTo ccb scb clientCaps serverCaps u v true
      (Link.step ccb scb ⟨answeredClient ccb scb clientCaps serverCaps u v j,
        answeredServer scb serverCaps v clientCaps, j,
        (frameBytes (helloFrame clientCaps)).length⟩ call) := by
  obtain ⟨hrole, hpipes, hclosed, hquiet⟩ := serverFacts scb clientCaps serverCaps v
  have hclient {j : ℕ} (hj : j ≤ (answeredServer scb serverCaps v clientCaps).tx.length) :=
    clientFacts ccb scb clientCaps serverCaps u v hj
  have hphase {j : ℕ} (hj : j ≤ (answeredServer scb serverCaps v clientCaps).tx.length) :
      LinkPhase ccb scb clientCaps serverCaps u v true
        (Link.share ⟨answeredClient ccb scb clientCaps serverCaps u v j,
          answeredServer scb serverCaps v clientCaps, j,
          (frameBytes (helloFrame clientCaps)).length⟩) := by
    rw [Link.share_of_eq (answeredServer scb serverCaps v clientCaps).txClosed
      (hclient hj).pipes hpipes]
    exact LinkPhase.answered j hj
  have hrx : (answeredServer scb serverCaps v clientCaps).rxClosed =
      (answeredServer scb serverCaps v clientCaps).txClosed :=
    (congrArg Endpoint.rxClosed hpipes).symm
  cases call with
  | clientStart =>
    rw [Link.step, paiProtoConnStart_refused (Or.inr (hclient hj).started)]
    exact ⟨hphase hj, invalidArg_ne_protocol⟩
  | serverStart =>
    rw [Link.step, paiProtoConnStart_refused (Or.inl (by rw [hrole]; exact server_ne_client))]
    exact ⟨hphase hj, invalidArg_ne_protocol⟩
  | clientPoll cut =>
    -- the pipe is closed only after a refusal, and then the answer closes the client
    obtain ⟨j', hj', hlink, hst⟩ := clientPoll_step ccb scb cut
      (l := ⟨answeredClient ccb scb clientCaps serverCaps u v j,
        answeredServer scb serverCaps v clientCaps, j,
        (frameBytes (helloFrame clientCaps)).length⟩)
      (startedClient_awaiting clientCaps u
        (answeredServer scb serverCaps v clientCaps).txClosed) rfl hj (by
        intro h
        have hcrx : (answeredClient ccb scb clientCaps serverCaps u v j).rxClosed =
            (answeredServer scb serverCaps v clientCaps).txClosed :=
          (congrArg Endpoint.rxClosed (hclient hj).pipes).symm
        obtain ⟨-, hrefused⟩ := hclosed (hcrx.symm.trans h)
        obtain ⟨⟨-, hstate, -⟩ | ⟨haccept, -⟩, -⟩ :=
          answeredClient_full ccb scb clientCaps serverCaps u v
        · rwa [answeredClient, List.take_length] at hstate
        · exact absurd hrefused haccept)
    exact ⟨hlink ▸ hphase hj', hst (hclient hj').quiet⟩
  | serverPoll cut =>
    have htx := (hclient hj).tx_eq
    obtain ⟨k, hge, hk, hlink, hst⟩ := serverPoll_step ccb scb cut
      (l := ⟨answeredClient ccb scb clientCaps serverCaps u v j,
        answeredServer scb serverCaps v clientCaps, j,
        (frameBytes (helloFrame clientCaps)).length⟩)
      (freshEndpoint_awaiting .server serverCaps v)
      (by simp only [htx, List.take_length]; rfl) (by simp only [htx, le_refl])
      (fun h => by simp only [htx]; exact (hclosed (hrx.symm.trans h)).1)
    simp only [htx] at hge hk hlink hst
    obtain rfl : k = (frameBytes (helloFrame clientCaps)).length := le_antisymm hk hge
    rw [List.take_length] at hlink hst
    exact ⟨hlink ▸ hphase hj, hst hquiet⟩

/-- One call keeps the handshake in its phases and reports no protocol error. -/
theorem LinkPhase.step {started : Bool} {l : Link U V}
    (h : LinkPhase ccb scb clientCaps serverCaps u v started l) (call : LinkCall) :
    StepsTo ccb scb clientCaps serverCaps u v (started || call.isStart)
      (l.step ccb scb call) := by
  cases h with
  | idle => exact idle_step ccb scb clientCaps serverCaps u v call
  | hello k hk => exact hello_step ccb scb clientCaps serverCaps u v hk call
  | answered j hj => exact answered_step ccb scb clientCaps serverCaps u v hj call

/-- Any sequence of calls keeps the handshake in its phases. -/
theorem LinkPhase.run {started : Bool} {l : Link U V}
    (h : LinkPhase ccb scb clientCaps serverCaps u v started l) (calls : List LinkCall) :
    LinkPhase ccb scb clientCaps serverCaps u v (started || calls.any LinkCall.isStart)
      (l.run ccb scb calls) := by
  induction calls generalizing started l with
  | nil =>
    rw [List.any_nil, Bool.or_false]
    exact h
  | cons call calls ih =>
    have hnext := ih (h.step ccb scb clientCaps serverCaps u v call).1
    rwa [Bool.or_assoc, ← List.any_cons] at hnext

/-- In every phase in which the client has started and nothing is in flight, it has read the whole
answer. -/
theorem LinkPhase.of_drained {l : Link U V}
    (h : LinkPhase ccb scb clientCaps serverCaps u v true l) (hdrained : l.Drained) :
    l.client = answeredClient ccb scb clientCaps serverCaps u v
        (answeredServer scb serverCaps v clientCaps).tx.length ∧
      l.server = answeredServer scb serverCaps v clientCaps := by
  cases h with
  | hello k hk =>
    have hle := List.drop_eq_nil_iff.mp hdrained.1
    exact absurd hk (not_lt.mpr hle)
  | answered j hj =>
    have hle := List.drop_eq_nil_iff.mp hdrained.2
    obtain rfl := le_antisymm hj hle
    exact ⟨rfl, rfl⟩

/-- The capabilities agreed on are those both sides offer. -/
theorem agreedCaps_eq (answer : UInt32) :
    agreedCaps clientCaps answer = clientCaps &&& answer &&& paiProtoCapKnown := by
  rw [agreedCaps, UInt32.and_assoc, UInt32.and_assoc, UInt32.and_self, ← UInt32.and_assoc,
    UInt32.and_comm answer]

/-- An open client has read an ACK, so the server is open with the same capabilities. -/
theorem LinkPhase.of_client_opened {started : Bool} {l : Link U V}
    (h : LinkPhase ccb scb clientCaps serverCaps u v started l)
    (hopen : l.client.conn.state = .opened) :
    serverAnswer scb serverCaps v clientCaps ≠ 0 ∧ l.server.conn.state = .opened ∧
      l.client.conn.negotiatedCaps =
        agreedCaps clientCaps (serverAnswer scb serverCaps v clientCaps) ∧
      l.server.conn.negotiatedCaps =
        agreedCaps clientCaps (serverAnswer scb serverCaps v clientCaps) := by
  cases h with
  | idle => exact absurd hopen (by exact new_ne_opened)
  | hello k hk => exact absurd hopen (by exact negotiating_ne_opened)
  | answered j hj =>
    obtain hlt | rfl := hj.lt_or_eq
    · obtain ⟨header, payload, pending, hc⟩ :=
        answeredClient_partial ccb scb clientCaps serverCaps u v hlt
      rw [hc] at hopen
      exact absurd hopen (by exact negotiating_ne_opened)
    · obtain ⟨⟨-, hclosed, -⟩ | ⟨haccept, -, hcaps⟩, -⟩ :=
        answeredClient_full ccb scb clientCaps serverCaps u v
      · exact absurd (hclosed.symm.trans hopen) (by decide)
      · obtain ⟨hstate, -, hscaps, -⟩ := answeredServer_accepted scb serverCaps v clientCaps haccept
        exact ⟨haccept, hstate, hcaps, hscaps⟩

/-- A refusing server is never open. -/
theorem LinkPhase.server_not_opened {started : Bool} {l : Link U V}
    (h : LinkPhase ccb scb clientCaps serverCaps u v started l)
    (hrefuse : serverAnswer scb serverCaps v clientCaps = 0) : l.server.conn.state ≠ .opened := by
  cases h with
  | idle => exact new_ne_opened
  | hello k hk =>
    obtain ⟨header, payload, pending, hs⟩ := helloServer_partial scb clientCaps serverCaps v hk
    rw [hs]
    exact new_ne_opened
  | answered j hj =>
    rw [(answeredServer_refused scb serverCaps v clientCaps hrefuse).1]
    decide

end Handshake

/-! ## Agreement -/

/-- For one client and one server over a pipe pair, any capabilities, any `on_hello` answer and any
interleaving of starts and polls: an open client has an open server, and both hold the capabilities
offered by both; after a refusal neither side is ever open, and once a started handshake is drained
both are closed and the client knows why; no call returns `PAI_ERR_PROTOCOL`. -/
theorem negotiation_agreement (ccb : Callbacks U) (scb : Callbacks V)
    (clientCaps serverCaps : UInt32) (u : U) (v : V) (calls : List LinkCall) :
    let l := (freshLink clientCaps serverCaps u v).run ccb scb calls
    let answer := serverAnswer scb serverCaps v clientCaps
    (l.client.conn.state = .opened → l.server.conn.state = .opened ∧
        l.client.conn.negotiatedCaps = l.server.conn.negotiatedCaps ∧
        l.client.conn.negotiatedCaps = clientCaps &&& answer &&& paiProtoCapKnown) ∧
      (answer = 0 → l.client.conn.state ≠ .opened ∧ l.server.conn.state ≠ .opened ∧
        (.clientStart ∈ calls → l.Drained → l.client.conn.state = .closed ∧
          l.server.conn.state = .closed ∧ l.client.conn.nackReason = paiProtoNackCaps)) ∧
      ∀ call, (l.step ccb scb call).2 ≠ paiErrProtocol := by
  intro l answer
  have hidle : LinkPhase ccb scb clientCaps serverCaps u v false
      (freshLink clientCaps serverCaps u v) := LinkPhase.idle
  have hphase := hidle.run ccb scb clientCaps serverCaps u v calls
  refine ⟨fun hopen => ?_, fun hrefuse => ⟨fun hopen => ?_, ?_, fun hstart hdrained => ?_⟩,
    fun call => (hphase.step ccb scb clientCaps serverCaps u v call).2⟩
  · obtain ⟨-, hserver, hcaps, hscaps⟩ :=
      hphase.of_client_opened ccb scb clientCaps serverCaps u v hopen
    exact ⟨hserver, hcaps.trans hscaps.symm, hcaps.trans (agreedCaps_eq clientCaps answer)⟩
  · exact (hphase.of_client_opened ccb scb clientCaps serverCaps u v hopen).1 hrefuse
  · exact hphase.server_not_opened ccb scb clientCaps serverCaps u v hrefuse
  · have hstarted : calls.any LinkCall.isStart = true := List.any_eq_true.mpr ⟨_, hstart, rfl⟩
    rw [hstarted] at hphase
    obtain ⟨hclient, hserver⟩ := hphase.of_drained ccb scb clientCaps serverCaps u v hdrained
    obtain ⟨⟨-, hclosed, hreason⟩ | ⟨haccept, -⟩, -⟩ :=
      answeredClient_full ccb scb clientCaps serverCaps u v
    · rw [← hclient] at hclosed hreason
      refine ⟨hclosed, ?_, hreason⟩
      rw [show l.server = _ from hserver]
      exact (answeredServer_refused scb serverCaps v clientCaps hrefuse).1
    · exact absurd hrefuse haccept

end Prospero
