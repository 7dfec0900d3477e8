import Mathlib
import Prospero.Protocol.Wire

/-!
# Connection state machine

The core of a Prospero Protocol connection (`protocol/connection.c`): sending, the session and
stream tables, negotiation and the dispatch of received frames.  The receive pump that feeds the
dispatcher is in `Protocol/Poll`.

An `Endpoint` is one side of a connection together with what it has done to its surroundings: the
bytes pushed into its transport, the callbacks invoked, and the application's own state.
Application callbacks are arbitrary: they see the connection, change the application state, and may
call the public API (`ApiCall`).  A `NULL` callback is the callback that does nothing.
-/

namespace Prospero

/-- `pai_proto_role_t`. -/
inductive Role where
  | client
  | server
deriving DecidableEq

/-- `pai_proto_state_t`. -/
inductive ConnState where
  | new
  | negotiating
  | opened
  | closed
deriving DecidableEq

/-- `PAI_PROTO_MAX_STREAMS`. -/
abbrev paiProtoMaxStreams : ℕ := 16
/-- `PAI_PROTO_MAX_SESSIONS`. -/
abbrev paiProtoMaxSessions : ℕ := 16

/-- The zeroed `pending` header left by `conn_reset_phase`. -/
def FrameHeader.zero : FrameHeader := ⟨⟨0, 0, 0, 0, 0, []⟩, 0⟩

/-- `pai_proto_conn_t` without its transport, callbacks and user pointer. -/
structure Conn where
  /-- Connection role. -/
  role : Role
  /-- Capabilities offered by this side. -/
  localCaps : UInt32
  /-- Capabilities announced by the peer. -/
  remoteCaps : UInt32
  /-- Capabilities agreed on. -/
  negotiatedCaps : UInt32
  /-- Lifecycle state. -/
  state : ConnState
  /-- Reason of a refusal. -/
  nackReason : UInt32
  /-- Client-side request id allocator. -/
  nextRequestId : UInt64
  /-- Server-side session id allocator. -/
  nextSessionId : UInt64
  /-- The first `header_filled` bytes of `header_buf`. -/
  headerBuf : List UInt8
  /-- The first `payload_filled` bytes of `payload_buf`. -/
  payloadBuf : List UInt8
  /-- Header awaiting its payload. -/
  pending : FrameHeader
  /-- Open request ids; `0` marks a free slot. -/
  streams : Fin paiProtoMaxStreams → UInt64
  /-- Per-stream ordinals. -/
  streamSeqs : Fin paiProtoMaxStreams → UInt32
  /-- Open session ids; `0` marks a free slot. -/
  sessions : Fin paiProtoMaxSessions → UInt64

/-- A callback invocation. -/
inductive Event where
  /-- `on_hello(remote_caps)`. -/
  | hello (remote : UInt32)
  /-- `on_message(frame)`. -/
  | message (frame : Frame)
  /-- `on_stream_begin(request_id, session_id)`. -/
  | streamBegin (requestId sessionId : UInt64)
  /-- `on_stream_data`; `token` records that a TOKEN frame delivered it. -/
  | streamData (requestId sessionId : UInt64) (kind : UInt8) (seq : UInt32) (data : List UInt8)
      (token : Bool)
  /-- `on_stream_end(request_id, session_id)`. -/
  | streamEnd (requestId sessionId : UInt64)
  /-- `on_close(reason)`. -/
  | close (reason : UInt32)
deriving DecidableEq

/-- The public API calls a callback may make on its connection. -/
inductive ApiCall where
  /-- `pai_proto_conn_send`. -/
  | send (frame : Frame)
  /-- `pai_proto_conn_new_request_id`. -/
  | newRequestId
  /-- `pai_proto_conn_session_open`. -/
  | sessionOpen
  /-- `pai_proto_conn_session_close`. -/
  | sessionClose (id : UInt64)

/-- What a callback does: the application state after it and the API calls it makes. -/
structure Reaction (U : Type) where
  /-- New application state. -/
  user : U
  /-- API calls, in order. -/
  calls : List ApiCall

/-- `pai_proto_callbacks_t`. -/
structure Callbacks (U : Type) where
  /-- `on_hello`; `none` is a `NULL` entry. -/
  onHello : Option (U → UInt32 → U × UInt32)
  /-- `on_message`, with its returned status. -/
  onMessage : Conn → U → Frame → Reaction U × PaiStatus
  /-- `on_stream_begin`. -/
  onStreamBegin : Conn → U → UInt64 → UInt64 → Reaction U
  /-- `on_stream_data`. -/
  onStreamData : Conn → U → UInt64 → UInt64 → UInt8 → UInt32 → List UInt8 → Reaction U
  /-- `on_stream_end`. -/
  onStreamEnd : Conn → U → UInt64 → UInt64 → Reaction U
  /-- `on_close`. -/
  onClose : U → UInt32 → U

/-- The callback table with every entry `NULL`. -/
def Callbacks.null {U : Type} : Callbacks U where
  onHello := none
  onMessage := fun _ u _ => (⟨u, []⟩, paiOk)
  onStreamBegin := fun _ u _ _ => ⟨u, []⟩
  onStreamData := fun _ u _ _ _ _ _ => ⟨u, []⟩
  onStreamEnd := fun _ u _ _ => ⟨u, []⟩
  onClose := fun u _ => u

/-- One side of a connection and what it has done to its surroundings. -/
structure Endpoint (U : Type) where
  /-- The connection. -/
  conn : Conn
  /-- The application state behind the `user` pointer. -/
  user : U
  /-- Bytes pushed into the transport. -/
  tx : List UInt8
  /-- The sending direction is closed. -/
  txClosed : Bool
  /-- The receiving direction is closed. -/
  rxClosed : Bool
  /-- Callbacks invoked, oldest first. -/
  events : List Event

variable {U : Type}

/-- `pai_proto_conn_init`. -/
def paiProtoConnInit (role : Role) (caps : UInt32) : Conn where
  role := role
  localCaps := caps &&& paiProtoCapKnown
  remoteCaps := 0
  negotiatedCaps := 0
  state := .new
  nackReason := 0
  nextRequestId := 1
  nextSessionId := 1
  headerBuf := []
  payloadBuf := []
  pending := .zero
  streams := fun _ => 0
  streamSeqs := fun _ => 0
  sessions := fun _ => 0

/-! ## Lifecycle -/

/-- `conn_reset_phase`: drop any half-received frame. -/
def connResetPhase (conn : Conn) : Conn :=
  { conn with payloadBuf := [], headerBuf := [], pending := .zero }

/-- `conn_set_closed`. -/
def connSetClosed (cb : Callbacks U) (e : Endpoint U) (reason : UInt32) : Endpoint U :=
  if e.conn.state = .closed then e
  else
    { e with
      conn := connResetPhase { e.conn with state := .closed }
      txClosed := true
      rxClosed := true
      user := cb.onClose e.user reason
      events := e.events ++ [.close reason] }

/-! ## Sending -/

/-- `transport.send`: push bytes, `PAI_ERR_IO` when the direction is closed. -/
def transportSend (e : Endpoint U) (data : List UInt8) : Endpoint U × PaiStatus :=
  if e.txClosed then (e, paiErrIo) else ({ e with tx := e.tx ++ data }, paiOk)

/-- `conn_send_unchecked`. -/
def connSendUnchecked (e : Endpoint U) (frame : Frame) : Endpoint U × PaiStatus :=
  if paiProtoMaxPayload < frame.payload.length then (e, paiErrInvalidArg)
  else if frame.flags &&& paiProtoFlagCompressed ≠ 0 then (e, paiErrInvalidArg)
  else
    let r := transportSend e (frameHeader frame)
    if r.2 ≠ paiOk then r
    else if 0 < frame.payload.length then transportSend r.1 frame.payload
    else (r.1, paiOk)

/-- `pai_proto_conn_send`. -/
def paiProtoConnSend (e : Endpoint U) (frame : Frame) : Endpoint U × PaiStatus :=
  if e.conn.state ≠ .opened then (e, paiErrInvalidArg) else connSendUnchecked e frame

/-- `pai_proto_conn_new_request_id`. -/
def paiProtoConnNewRequestId (conn : Conn) : Conn × UInt64 :=
  let next := conn.nextRequestId + 1
  ({ conn with nextRequestId := if next = 0 then 1 else next }, conn.nextRequestId)

/-- `conn_send_error_reply`: best effort, the send status is only logged. -/
def connSendErrorReply (e : Endpoint U) (orig : Frame) (status : PaiStatus) : Endpoint U :=
  (connSendUnchecked e
    { version := 0
      msgType := paiProtoMsgError
      flags := paiProtoFlagReply
      requestId := orig.requestId
      sessionId := orig.sessionId
      payload := paiProtoMsgEncodeError status (paiStatusStr status) }).1

/-! ## Sessions -/

/-- `pai_proto_conn_session_active`. -/
def paiProtoConnSessionActive (conn : Conn) (id : UInt64) : Bool :=
  decide (id ≠ 0) && (List.finRange paiProtoMaxSessions).any fun i => conn.sessions i == id

/-- The id search of `pai_proto_conn_session_open`: take the next id, skipping `0` and active ids.
The fuel bounds the iterations; `PAI_PROTO_MAX_SESSIONS + 2` always suffices. -/
def sessionNextId : ℕ → Conn → Option (Conn × UInt64)
  | 0, _ => none
  | fuel + 1, conn =>
    let id := conn.nextSessionId
    let conn := { conn with nextSessionId := id + 1 }
    if id = 0 then sessionNextId fuel conn
    else if paiProtoConnSessionActive conn id then sessionNextId fuel conn
    else some (conn, id)

/-- `pai_proto_conn_session_open`. -/
def paiProtoConnSessionOpen (conn : Conn) : Conn × Option UInt64 :=
  match sessionNextId (paiProtoMaxSessions + 2) conn with
  | none => (conn, none)
  | some (conn, id) =>
    match (List.finRange paiProtoMaxSessions).find? fun i => conn.sessions i == 0 with
    | some i => ({ conn with sessions := Function.update conn.sessions i id }, some id)
    | none => (conn, none)

/-- `pai_proto_conn_session_close`. -/
def paiProtoConnSessionClose (conn : Conn) (id : UInt64) : Conn :=
  match (List.finRange paiProtoMaxSessions).find? fun i => conn.sessions i == id with
  | some i => { conn with sessions := Function.update conn.sessions i 0 }
  | none => conn

/-! ## Callbacks -/

/-- Run one API call made by a callback. -/
def runApiCall (e : Endpoint U) : ApiCall → Endpoint U
  | .send frame => (paiProtoConnSend e frame).1
  | .newRequestId => { e with conn := (paiProtoConnNewRequestId e.conn).1 }
  | .sessionOpen => { e with conn := (paiProtoConnSessionOpen e.conn).1 }
  | .sessionClose id => { e with conn := paiProtoConnSessionClose e.conn id }

/-- Invoke a callback: record it and run its reaction. -/
def invoke (e : Endpoint U) (event : Event) (r : Reaction U) : Endpoint U :=
  r.calls.foldl runApiCall { e with user := r.user, events := e.events ++ [event] }

/-- Invoke `on_message` and return its status. -/
def invokeMessage (cb : Callbacks U) (e : Endpoint U) (frame : Frame) : Endpoint U × PaiStatus :=
  let r := cb.onMessage e.conn e.user frame
  (invoke e (.message frame) r.1, r.2)

/-! ## Inbound streams -/

/-- `stream_index`: the first slot that holds `requestId`. -/
def streamIndex (conn : Conn) (requestId : UInt64) : Option (Fin paiProtoMaxStreams) :=
  (List.finRange paiProtoMaxStreams).find? fun i => conn.streams i == requestId

/-- Write slot `i` of the two stream tables. -/
def Conn.setStream (conn : Conn) (i : Fin paiProtoMaxStreams) (id : UInt64) (seq : UInt32) :
    Conn :=
  { conn with
    streams := Function.update conn.streams i id
    streamSeqs := Function.update conn.streamSeqs i seq }

/-- `stream_begin`. -/
def streamBegin (conn : Conn) (requestId : UInt64) : Conn × PaiStatus :=
  if (streamIndex conn requestId).isSome then (conn, paiErrProtocol)
  else
    match streamIndex conn 0 with
    | some i => (conn.setStream i requestId 0, paiOk)
    | none => (conn, paiErrNomem)

/-- `stream_end`. -/
def streamEnd (conn : Conn) (requestId : UInt64) : Conn :=
  match streamIndex conn requestId with
  | some i => conn.setStream i 0 0
  | none => conn

/-- The STREAM_START part of `conn_handle_stream`. -/
def connStreamStart (cb : Callbacks U) (e : Endpoint U) (frame : Frame) :
    Endpoint U × PaiStatus :=
  if frame.flags &&& paiProtoFlagStreamStart = 0 then (e, paiOk)
  else if frame.requestId = 0 then (e, paiErrProtocol)
  else
    let r := streamBegin e.conn frame.requestId
    if r.2 ≠ paiOk then (e, r.2)
    else
      let e := { e with conn := r.1 }
      (invoke e (.streamBegin frame.requestId frame.sessionId)
        (cb.onStreamBegin e.conn e.user frame.requestId frame.sessionId), paiOk)

/-- Deliver one chunk to `on_stream_data`. -/
def invokeStreamData (cb : Callbacks U) (e : Endpoint U) (frame : Frame) (kind : UInt8)
    (seq : UInt32) (data : List UInt8) (token : Bool) : Endpoint U :=
  invoke e (.streamData frame.requestId frame.sessionId kind seq data token)
    (cb.onStreamData e.conn e.user frame.requestId frame.sessionId kind seq data)

/-- `on_message` with the unconditional error reply of `conn_handle_stream`. -/
def connStreamMessage (cb : Callbacks U) (e : Endpoint U) (frame : Frame) : Endpoint U :=
  let r := invokeMessage cb e frame
  if r.2 ≠ paiOk then connSendErrorReply r.1 frame r.2 else r.1

/-- The `switch` of `conn_handle_stream` on an open stream in slot `idx`; `none` stands for
`PAI_ERR_PROTOCOL`. -/
def connStreamContent (cb : Callbacks U) (e : Endpoint U) (frame : Frame)
    (idx : Fin paiProtoMaxStreams) : Option (Endpoint U) :=
  if frame.msgType = paiProtoMsgStreamData then
    (paiProtoMsgDecodeStreamData frame.payload).map fun c =>
      invokeStreamData cb e frame c.kind c.seq c.data false
  else if frame.msgType = paiProtoMsgToken then
    (paiProtoMsgDecodeToken frame.payload).map fun token =>
      connStreamMessage cb
        (invokeStreamData cb e frame paiProtoStreamGenerate (e.conn.streamSeqs idx) token true) frame
  else if frame.msgType = paiProtoMsgStreamClose then some (connStreamMessage cb e frame)
  else some e

/-- A stream frame is terminal when it carries STREAM_END or is a STREAM_CLOSE. -/
def Frame.terminal (frame : Frame) : Prop :=
  frame.flags &&& paiProtoFlagStreamEnd ≠ 0 ∨ frame.msgType = paiProtoMsgStreamClose

instance (frame : Frame) : Decidable frame.terminal :=
  inferInstanceAs (Decidable (_ ∨ _))

/-- The end of `conn_handle_stream`: close the stream, or synthesize the next TOKEN ordinal. -/
def connStreamFinish (cb : Callbacks U) (e : Endpoint U) (frame : Frame)
    (idx : Fin paiProtoMaxStreams) : Endpoint U :=
  if frame.terminal then
    let e := { e with conn := streamEnd e.conn frame.requestId }
    invoke e (.streamEnd frame.requestId frame.sessionId)
      (cb.onStreamEnd e.conn e.user frame.requestId frame.sessionId)
  else if frame.msgType = paiProtoMsgToken then
    { e with
      conn :=
        { e.conn with
          streamSeqs := Function.update e.conn.streamSeqs idx (e.conn.streamSeqs idx + 1) } }
  else e

/-- `conn_handle_stream`. -/
def connHandleStream (cb : Callbacks U) (e : Endpoint U) (frame : Frame) :
    Endpoint U × PaiStatus :=
  let r := connStreamStart cb e frame
  if r.2 ≠ paiOk then r
  else
    match streamIndex r.1.conn frame.requestId with
    | none => (r.1, paiErrProtocol)
    | some idx =>
      match connStreamContent cb r.1 frame idx with
      | none => (r.1, paiErrProtocol)
      | some e => (connStreamFinish cb e frame idx, paiOk)

/-! ## Negotiation -/

/-- `pai_proto_conn_start`. -/
def paiProtoConnStart (e : Endpoint U) : Endpoint U × PaiStatus :=
  if e.conn.role ≠ .client ∨ e.conn.state ≠ .new then (e, paiErrInvalidArg)
  else
    let id := e.conn.nextRequestId
    let e := { e with conn := { e.conn with nextRequestId := id + 1 } }
    let r := connSendUnchecked e
      { version := 0
        msgType := paiProtoMsgHello
        flags := 0
        requestId := id
        sessionId := 0
        payload := paiProtoMsgEncodeCaps e.conn.localCaps }
    if r.2 = paiOk then
      ({ r.1 with conn := { r.1.conn with state := .negotiating } }, r.2)
    else r

/-- `conn_send_negotiation`. -/
def connSendNegotiation (e : Endpoint U) (msgType value : UInt32) (requestId : UInt64) :
    Endpoint U × PaiStatus :=
  connSendUnchecked e
    { version := 0
      msgType := msgType
      flags := paiProtoFlagReply
      requestId := requestId
      sessionId := 0
      payload := paiProtoMsgEncodeU32 value }

/-- The major version of a received frame. -/
def Frame.major (frame : Frame) : UInt16 := frame.version >>> 8

/-- The server's answer to a HELLO: `on_hello` when installed, its local capabilities otherwise. -/
def helloAnswer (cb : Callbacks U) (e : Endpoint U) (remote : UInt32) : Endpoint U × UInt32 :=
  match cb.onHello with
  | some f =>
    let r := f e.user remote
    ({ e with user := r.1, events := e.events ++ [.hello remote] }, r.2)
  | none => (e, e.conn.localCaps)

/-- `conn_handle_hello_server`. -/
def connHandleHelloServer (cb : Callbacks U) (e : Endpoint U) (frame : Frame) :
    Endpoint U × PaiStatus :=
  match paiProtoMsgDecodeCaps frame.payload with
  | none => (e, paiErrProtocol)
  | some remote =>
    if frame.major ≠ paiProtoVersionMajor.toUInt16 then
      let e := (connSendNegotiation e paiProtoMsgHelloNack paiProtoNackVersion frame.requestId).1
      (connSetClosed cb e paiProtoCloseProtocol, paiOk)
    else
      let (e, serverCaps) := helloAnswer cb e remote
      if serverCaps = 0 then
        let e := (connSendNegotiation e paiProtoMsgHelloNack paiProtoNackCaps frame.requestId).1
        (connSetClosed cb e paiProtoCloseNormal, paiOk)
      else
        let negotiated := serverCaps &&& remote &&& paiProtoCapKnown
        let conn :=
          { e.conn with
            localCaps := serverCaps &&& paiProtoCapKnown
            remoteCaps := remote &&& paiProtoCapKnown
            negotiatedCaps := negotiated
            state := .opened }
        connSendNegotiation { e with conn := conn } paiProtoMsgHelloAck negotiated frame.requestId

/-- `conn_handle_ack_client`. -/
def connHandleAckClient (e : Endpoint U) (frame : Frame) : Endpoint U × PaiStatus :=
  if frame.major ≠ paiProtoVersionMajor.toUInt16 then (e, paiErrProtocol)
  else
    match paiProtoMsgDecodeCaps frame.payload with
    | none => (e, paiErrProtocol)
    | some negotiated =>
      let conn :=
        { e.conn with
          remoteCaps := negotiated
          negotiatedCaps := negotiated &&& paiProtoCapKnown
          state := .opened }
      ({ e with conn := conn }, paiOk)

/-- `conn_handle_nack_client`. -/
def connHandleNackClient (cb : Callbacks U) (e : Endpoint U) (frame : Frame) :
    Endpoint U × PaiStatus :=
  let reason := (paiProtoMsgDecodeU32 frame.payload).getD 0
  let e := { e with conn := { e.conn with nackReason := reason } }
  (connSetClosed cb e paiProtoCloseNormal, paiOk)

/-- `conn_handle_preopen`. -/
def connHandlePreopen (cb : Callbacks U) (e : Endpoint U) (frame : Frame) :
    Endpoint U × PaiStatus :=
  match e.conn.role with
  | .server =>
    if frame.msgType ≠ paiProtoMsgHello then (e, paiErrProtocol)
    else connHandleHelloServer cb e frame
  | .client =>
    if frame.msgType = paiProtoMsgHelloAck then connHandleAckClient e frame
    else if frame.msgType = paiProtoMsgHelloNack then connHandleNackClient cb e frame
    else (e, paiErrProtocol)

/-! ## Dispatch -/

/-- The frame types routed to `conn_handle_stream`. -/
def Frame.isStream (frame : Frame) : Prop :=
  frame.msgType = paiProtoMsgStreamData ∨ frame.msgType = paiProtoMsgToken ∨
    frame.msgType = paiProtoMsgStreamClose

instance (frame : Frame) : Decidable frame.isStream :=
  inferInstanceAs (Decidable (_ ∨ _ ∨ _))

/-- The tail of `conn_handle_open`: every other message reaches `on_message`. -/
def connHandleMessage (cb : Callbacks U) (e : Endpoint U) (frame : Frame) : Endpoint U :=
  let r := invokeMessage cb e frame
  if r.2 ≠ paiOk ∧ frame.requestId ≠ 0 ∧ frame.msgType ≠ paiProtoMsgError ∧
      frame.msgType ≠ paiProtoMsgPong then
    connSendErrorReply r.1 frame r.2
  else r.1

/-- `conn_handle_open`. -/
def connHandleOpen (cb : Callbacks U) (e : Endpoint U) (frame : Frame) :
    Endpoint U × PaiStatus :=
  if frame.major ≠ paiProtoVersionMajor.toUInt16 then (e, paiErrProtocol)
  else if frame.msgType = paiProtoMsgHello ∨ frame.msgType = paiProtoMsgHelloAck ∨
      frame.msgType = paiProtoMsgHelloNack then (e, paiErrProtocol)
  else if frame.msgType = paiProtoMsgPing then
    connSendUnchecked e
      { version := 0
        msgType := paiProtoMsgPong
        flags := paiProtoFlagReply
        requestId := frame.requestId
        sessionId := frame.sessionId
        payload := [] }
  else if frame.msgType = paiProtoMsgClose then
    -- a CLOSE payload that does not decode leaves the default reason
    let reason := (paiProtoMsgDecodeU32 frame.payload).getD paiProtoCloseNormal
    (connSetClosed cb e reason, paiOk)
  else if frame.isStream then connHandleStream cb e frame
  else
    let e :=
      if frame.msgType = paiProtoMsgComplete then
        { e with conn := streamEnd e.conn frame.requestId }
      else e
    (connHandleMessage cb e frame, paiOk)

/-- Dispatch a complete frame by connection state. -/
def connHandle (cb : Callbacks U) (e : Endpoint U) (frame : Frame) : Endpoint U × PaiStatus :=
  if e.conn.state = .opened then connHandleOpen cb e frame else connHandlePreopen cb e frame

/-- Phase 3 of the receive pump after the integrity check: dispatch the frame, and close the
connection when it is rejected.  The status is the one `pai_proto_conn_poll` returns. -/
def connDispatch (cb : Callbacks U) (e : Endpoint U) (frame : Frame) : Endpoint U × PaiStatus :=
  let r := connHandle cb e frame
  if r.2 ≠ paiOk then (connSetClosed cb r.1 paiProtoCloseProtocol, paiErrProtocol)
  else ({ r.1 with conn := connResetPhase r.1.conn }, paiOk)

end Prospero
