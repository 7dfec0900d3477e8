import Prospero.Protocol.Desktop

/-!
# The desktop's protocol client

The receiving half of `ProtoClient` (`desktop/src/main/proto/client.ts`): `pump` cuts the received bytes
into frames and `dispatch` acts on them.  An exception thrown there leaves the handler of the socket's
`data` event.

`wireFrames` and `expectedConn` say what the client is for: the frames of a byte sequence in order,
each acted on once, and the connection closed by the first thing that is malformed.  `clientRobust_iff`
says when the client does that for every chunking of the bytes.  It goes wrong in two places: the reason
of a CLOSE is decoded outside `decodeOrClose`, so that 1 to 7 bytes of payload throw, and a frame with
the reserved COMPRESSED flag is acted on.

### Outline

* The client: connection state, `dispatch`, `pump`, and the chunks of a socket.
* What is expected: frames of a byte sequence, the answer to each.
* Cutting: frames of a concatenation.
* One pump, then all chunks.
-/

namespace Prospero

open ByteString

/-! ## The client -/

/-- `ClientState`. -/
inductive ClientState
  /-- Not connected. -/
  | new
  /-- HELLO sent. -/
  | negotiating
  /-- Negotiated. -/
  | opened
  /-- Torn down. -/
  | closed
deriving DecidableEq

/-- `ProtoFrame`. -/
structure TsFrame where
  /-- Packed version. -/
  version : ℕ
  /-- Message type. -/
  msgType : ℕ
  /-- Flag bits. -/
  flags : ℕ
  /-- Correlation id. -/
  requestId : ℕ
  /-- Session id. -/
  sessionId : ℕ
  /-- Content bytes. -/
  payload : List UInt8
deriving DecidableEq

/-- `MSG.HELLO_ACK`. -/
def tsMsgHelloAck : ℕ := 0x0002
/-- `MSG.HELLO_NACK`. -/
def tsMsgHelloNack : ℕ := 0x0003
/-- `MSG.PONG`. -/
def tsMsgPong : ℕ := 0x0005
/-- `MSG.CLOSE`. -/
def tsMsgClose : ℕ := 0x0007
/-- `CLOSE_REASON.NORMAL`. -/
def tsCloseNormal : ℕ := 0
/-- `CLOSE_REASON.PROTOCOL`. -/
def tsCloseProtocol : ℕ := 1
/-- `CAP_KNOWN`. -/
def tsCapKnown : ℕ := 0x7F
/-- `FLAG_COMPRESSED`. -/
def tsFlagCompressed : ℕ := 8

/-- `decodeCapsPayload`. -/
def decodeCapsPayload (payload : List UInt8) : Except TsError ℕ :=
  if payload.length < 8 then .error (.protocol "short caps payload")
  else .ok (readUIntLE payload 0 4)

/-- `decodeU32Payload`. -/
def decodeU32Payload (payload : List UInt8) : Except TsError ℕ :=
  if payload.length < 8 then .error (.protocol "short u32 payload")
  else .ok (readUIntLE payload 0 4)

/-- The fields of a `ProtoClient` other than its read buffer, and what it has done so far. -/
structure ClientConn (σ : Type) where
  /-- `state`. -/
  state : ClientState
  /-- `negotiatedCaps`. -/
  negotiatedCaps : ℕ
  /-- `nackReason`. -/
  nackReason : ℕ
  /-- `closeReason`. -/
  closeReason : ℕ
  /-- `nextRequestId`. -/
  nextRequestId : ℕ
  /-- The request ids of `pendingPongs`. -/
  pendingPongs : List ℕ
  /-- Pings resolved, oldest first. -/
  answered : List ℕ
  /-- Pings rejected, oldest first. -/
  failed : List ℕ
  /-- Frames dispatched before the connection closed, oldest first. -/
  dispatched : List TsFrame
  /-- Calls of `onClose`, oldest first. -/
  closes : List ℕ
  /-- What the `onFrame` handler keeps. -/
  user : σ

/-- A `ProtoClient`. -/
structure ProtoClient (σ : Type) where
  /-- `readBuf`. -/
  readBuf : List UInt8
  /-- The other fields. -/
  conn : ClientConn σ

/-- What an `onFrame` handler may do with the client. -/
inductive ClientCall
  /-- `close()`. -/
  | close
  /-- `ping()`. -/
  | ping

/-- An `onFrame` handler that does not throw. -/
abbrev OnFrame (σ : Type) : Type := σ → TsFrame → σ × List ClientCall

variable {σ : Type}

/-- `failPendingPings`. -/
def failPendingPings (conn : ClientConn σ) : ClientConn σ :=
  { conn with failed := conn.failed ++ conn.pendingPongs, pendingPongs := [] }

/-- `setClosed`. -/
def setClosed (conn : ClientConn σ) (reason : ℕ) : ClientConn σ :=
  if conn.state = .closed then conn
  else
    let conn := failPendingPings { conn with state := .closed, closeReason := reason }
    { conn with closes := conn.closes ++ [reason] }

/-- `close` and `ping` as called from a handler. -/
def runClientCall (conn : ClientConn σ) : ClientCall → ClientConn σ
  | .close => failPendingPings { conn with state := .closed }
  | .ping =>
    if conn.state ≠ .opened then conn
    else
      { conn with
        nextRequestId := conn.nextRequestId + 1
        pendingPongs := conn.pendingPongs ++ [conn.nextRequestId] }

/-- `this.onFrame?.(frame)`. -/
def runOnFrame (onFrame : OnFrame σ) (conn : ClientConn σ) (frame : TsFrame) : ClientConn σ :=
  let r := onFrame conn.user frame
  r.2.foldl runClientCall { conn with user := r.1 }

/-- The PONG case of `dispatch`. -/
def answerPong (conn : ClientConn σ) (frame : TsFrame) : ClientConn σ :=
  if frame.requestId ∈ conn.pendingPongs then
    { conn with
      pendingPongs := conn.pendingPongs.filter (· ≠ frame.requestId)
      answered := conn.answered ++ [frame.requestId] }
  else conn

/-- `decodeOrClose`. -/
def decodeOrClose (conn : ClientConn σ) (decoded : Except TsError ℕ) :
    ClientConn σ × Option ℕ :=
  match decoded with
  | .ok value => (conn, some value)
  | .error _ => (setClosed conn tsCloseProtocol, none)

/-- Record a frame dispatched before the connection closed. -/
def logFrame (conn : ClientConn σ) (frame : TsFrame) : ClientConn σ :=
  if conn.state = .closed then conn else { conn with dispatched := conn.dispatched ++ [frame] }

/-- `dispatch`: the connection afterwards, and what was thrown. -/
def dispatch (onFrame : OnFrame σ) (conn : ClientConn σ) (frame : TsFrame) :
    ClientConn σ × Option TsError :=
  let conn := logFrame conn frame
  if frame.version / 256 ≠ 0 then (setClosed conn tsCloseProtocol, none)
  else if conn.state = .negotiating then
    if frame.msgType = tsMsgHelloAck then
      let r := decodeOrClose conn (decodeCapsPayload frame.payload)
      match r.2 with
      | none => (r.1, none)
      | some negotiated =>
        ({ r.1 with negotiatedCaps := negotiated &&& tsCapKnown, state := .opened }, none)
    else if frame.msgType = tsMsgHelloNack then
      let r := decodeOrClose conn (decodeU32Payload frame.payload)
      match r.2 with
      | none => (r.1, none)
      | some reason => (setClosed { r.1 with nackReason := reason } tsCloseNormal, none)
    else (setClosed conn tsCloseProtocol, none)
  else if conn.state ≠ .opened then (conn, none)
  else if frame.msgType = tsMsgPong then (answerPong conn frame, none)
  else if frame.msgType = tsMsgClose then
    if 0 < frame.payload.length then
      -- not inside `decodeOrClose`
      match decodeU32Payload frame.payload with
      | .ok reason => (setClosed conn reason, none)
      | .error e => (conn, some e)
    else (setClosed conn tsCloseNormal, none)
  else (runOnFrame onFrame conn frame, none)

/-- The frame `pump` builds from a header and its payload. -/
def TsHeader.frame (header : TsHeader) (payload : List UInt8) : TsFrame :=
  { version := header.version
    msgType := header.msgType
    flags := header.flags
    requestId := header.requestId
    sessionId := header.sessionId
    payload := payload }

/-- `pump`: the client afterwards, and what was thrown. -/
def pump (onFrame : OnFrame σ) (c : ProtoClient σ) : ProtoClient σ × Option TsError :=
  if c.readBuf.length < 40 then (c, none)
  else
    match decodeHeader (c.readBuf.take 40) with
    | .error _ => ({ c with conn := setClosed c.conn tsCloseProtocol }, none)
    | .ok header =>
      if c.readBuf.length < 40 + header.payloadLen then (c, none)
      else
        let payload := (c.readBuf.drop 40).take header.payloadLen
        if validateFrame (c.readBuf.take 40) payload = false then
          ({ c with conn := setClosed c.conn tsCloseProtocol }, none)
        else
          let r := dispatch onFrame c.conn (header.frame payload)
          let c' : ProtoClient σ :=
            { readBuf := c.readBuf.drop (40 + header.payloadLen), conn := r.1 }
          if r.2.isSome then (c', r.2)
          else if r.1.state = .closed then (c', none)
          else pump onFrame c'
termination_by c.readBuf.length
decreasing_by
  simp only [List.length_drop]
  omega

/-- The `data` event of the socket. -/
def onData (onFrame : OnFrame σ) (c : ProtoClient σ) (chunk : List UInt8) :
    ProtoClient σ × Option TsError :=
  pump onFrame { c with readBuf := c.readBuf ++ chunk }

/-- The chunks a socket delivers, up to the first exception. -/
def receive (onFrame : OnFrame σ) (c : ProtoClient σ) :
    List (List UInt8) → ProtoClient σ × Option TsError
  | [] => (c, none)
  | chunk :: chunks =>
    let r := onData onFrame c chunk
    if r.2.isSome then r else receive onFrame r.1 chunks

/-! ## What is expected -/

/-- What a byte sequence starts with. -/
inductive NextFrame
  /-- The frame has not arrived in full. -/
  | incomplete
  /-- Not a frame. -/
  | malformed
  /-- A frame, and the bytes behind it. -/
  | frame (frame : TsFrame) (rest : List UInt8)
deriving DecidableEq

/-- The first frame of a byte sequence: magic, zero reserved field, a payload within the cap, and the
right CRC. -/
def nextFrame (bytes : List UInt8) : NextFrame :=
  let payloadLen := readUIntLE (bytes.take 40) 12 4
  let payload := (bytes.drop 40).take payloadLen
  if bytes.length < 40 then .incomplete
  else if readUIntLE (bytes.take 40) 0 4 ≠ 0x50494150 ∨ readUIntLE (bytes.take 40) 36 4 ≠ 0 ∨
      tsMaxPayload < payloadLen then .malformed
  else if bytes.length < 40 + payloadLen then .incomplete
  else if (crc32Frame ((bytes.take 40).take 32) payload).toNat ≠
      readUIntLE (bytes.take 40) 32 4 then .malformed
  else .frame
    { version := ((bytes.take 40).getD 4 0).toNat * 256 + ((bytes.take 40).getD 5 0).toNat
      msgType := readUIntLE (bytes.take 40) 8 4
      flags := readUIntLE (bytes.take 40) 6 2
      requestId := jsNumber (readUIntLE (bytes.take 40) 16 8)
      sessionId := jsNumber (readUIntLE (bytes.take 40) 24 8)
      payload := payload } (bytes.drop (40 + payloadLen))

/-- A frame takes up at least its header. -/
lemma length_rest_lt {bytes rest : List UInt8} {frame : TsFrame}
    (h : nextFrame bytes = .frame frame rest) : rest.length < bytes.length := by
  unfold nextFrame at h
  simp only at h
  split_ifs at h with h1 h2 h3 h4
  cases h
  rw [List.length_drop]
  omega

/-- The frames of a byte sequence, and the unfinished bytes behind them, `none` when what follows the
frames is malformed. -/
def wireFrames (bytes : List UInt8) : List TsFrame × Option (List UInt8) :=
  match h : nextFrame bytes with
  | .incomplete => ([], some bytes)
  | .malformed => ([], none)
  | .frame frame rest =>
    have := length_rest_lt h
    let r := wireFrames rest
    (frame :: r.1, r.2)
termination_by bytes.length

/-- The COMPRESSED flag, which no v0 receiver accepts. -/
def TsFrame.compressed (frame : TsFrame) : Prop := frame.flags &&& tsFlagCompressed ≠ 0

instance (frame : TsFrame) : Decidable frame.compressed := inferInstanceAs (Decidable (_ ≠ _))

/-- What a frame has to do to the connection: a malformed frame or payload closes it, a well-formed one
is dispatched. -/
def meetFrame (onFrame : OnFrame σ) (conn : ClientConn σ) (frame : TsFrame) : ClientConn σ :=
  if frame.compressed then setClosed conn tsCloseProtocol
  else
    let conn := logFrame conn frame
    if frame.version / 256 ≠ 0 then setClosed conn tsCloseProtocol
    else if conn.state = .negotiating then
      if frame.payload.length < 8 then setClosed conn tsCloseProtocol
      else if frame.msgType = tsMsgHelloAck then
        { conn with
          negotiatedCaps := readUIntLE frame.payload 0 4 &&& tsCapKnown
          state := .opened }
      else if frame.msgType = tsMsgHelloNack then
        setClosed { conn with nackReason := readUIntLE frame.payload 0 4 } tsCloseNormal
      else setClosed conn tsCloseProtocol
    else if conn.state = .opened then
      if frame.msgType = tsMsgPong then answerPong conn frame
      else if frame.msgType = tsMsgClose then
        if frame.payload.length = 0 then setClosed conn tsCloseNormal
        else if frame.payload.length < 8 then setClosed conn tsCloseProtocol
        else setClosed conn (readUIntLE frame.payload 0 4)
      else runOnFrame onFrame conn frame
    else conn

/-- The connection after a byte sequence given by its frames and what follows them. -/
def expectedConn (onFrame : OnFrame σ) (conn : ClientConn σ) :
    List TsFrame → Option (List UInt8) → ClientConn σ
  | [], none => setClosed conn tsCloseProtocol
  | [], some _ => conn
  | frame :: frames, tail =>
    let conn := meetFrame onFrame conn frame
    if conn.state = .closed then conn else expectedConn onFrame conn frames tail

/-- The client keeps its promise on a byte sequence: in whatever chunks the bytes come, nothing is
thrown, and the connection is what the frames of the sequence make of it. -/
def ClientRobust (onFrame : OnFrame σ) (c : ProtoClient σ) (bytes : List UInt8) : Prop :=
  ∀ chunks : List (List UInt8), chunks.flatten = bytes →
    (receive onFrame c chunks).2 = none ∧
      (receive onFrame c chunks).1.conn =
        expectedConn onFrame c.conn (wireFrames (c.readBuf ++ bytes)).1
          (wireFrames (c.readBuf ++ bytes)).2

/-- The frames the client does not deal with: those marked COMPRESSED, and a CLOSE that reaches the open
connection with 1 to 7 bytes of payload. -/
def Mishandled (conn : ClientConn σ) (frame : TsFrame) : Prop :=
  frame.compressed ∨ (conn.state = .opened ∧ frame.version / 256 = 0 ∧ frame.msgType = tsMsgClose ∧
    0 < frame.payload.length ∧ frame.payload.length < 8)

/-- No frame that reaches the connection before it closes is mishandled. -/
def Harmless (onFrame : OnFrame σ) (conn : ClientConn σ) : List TsFrame → Prop
  | [] => True
  | frame :: frames => ¬ Mishandled conn frame ∧
      ((meetFrame onFrame conn frame).state ≠ .closed →
        Harmless onFrame (meetFrame onFrame conn frame) frames)

/-! ## Cutting -/

/-- A complete header does not change when more bytes arrive. -/
lemma take_header_append {bytes : List UInt8} (h : 40 ≤ bytes.length) (more : List UInt8) :
    (bytes ++ more).take 40 = bytes.take 40 := List.take_append_of_le_length h

/-- What is malformed stays malformed. -/
lemma nextFrame_malformed_append {bytes : List UInt8} (h : nextFrame bytes = .malformed)
    (more : List UInt8) : nextFrame (bytes ++ more) = .malformed := by
  unfold nextFrame at h
  simp only at h
  split_ifs at h with h1 h2 h3 h4
  · unfold nextFrame
    simp only
    rw [take_header_append (not_lt.mp h1), if_neg (by rw [List.length_append]; omega), if_pos h2]
  · have hpayload : ((bytes ++ more).drop 40).take (readUIntLE (bytes.take 40) 12 4) =
        (bytes.drop 40).take (readUIntLE (bytes.take 40) 12 4) := by
      rw [List.drop_append_of_le_length (not_lt.mp h1)]
      exact List.take_append_of_le_length (by rw [List.length_drop]; omega)
    unfold nextFrame
    simp only
    rw [take_header_append (not_lt.mp h1), if_neg (by rw [List.length_append]; omega), if_neg h2,
      if_neg (by rw [List.length_append]; omega), hpayload, if_pos h4]

/-- A frame that is there stays the first frame. -/
lemma nextFrame_frame_append {bytes rest : List UInt8} {frame : TsFrame}
    (h : nextFrame bytes = .frame frame rest) (more : List UInt8) :
    nextFrame (bytes ++ more) = .frame frame (rest ++ more) := by
  unfold nextFrame at h
  simp only at h
  split_ifs at h with h1 h2 h3 h4
  cases h
  have hpayload : ((bytes ++ more).drop 40).take (readUIntLE (bytes.take 40) 12 4) =
      (bytes.drop 40).take (readUIntLE (bytes.take 40) 12 4) := by
    rw [List.drop_append_of_le_length (not_lt.mp h1)]
    exact List.take_append_of_le_length (by rw [List.length_drop]; omega)
  unfold nextFrame
  simp only
  rw [take_header_append (not_lt.mp h1), if_neg (by rw [List.length_append]; omega), if_neg h2,
    if_neg (by rw [List.length_append]; omega), hpayload, if_neg h4,
    List.drop_append_of_le_length (not_lt.mp h3)]

/-- Unfolding `wireFrames` at an unfinished frame. -/
lemma wireFrames_incomplete {bytes : List UInt8} (h : nextFrame bytes = .incomplete) :
    wireFrames bytes = ([], some bytes) := by
  rw [wireFrames]
  split
  · rfl
  · rename_i h'
    rw [h] at h'
    cases h'
  · rename_i h'
    rw [h] at h'
    cases h'

/-- Unfolding `wireFrames` at something malformed. -/
lemma wireFrames_malformed {bytes : List UInt8} (h : nextFrame bytes = .malformed) :
    wireFrames bytes = ([], none) := by
  rw [wireFrames]
  split
  · rename_i h'
    rw [h] at h'
    cases h'
  · rfl
  · rename_i h'
    rw [h] at h'
    cases h'

/-- Unfolding `wireFrames` at a frame. -/
lemma wireFrames_frame {bytes rest : List UInt8} {frame : TsFrame}
    (h : nextFrame bytes = .frame frame rest) :
    wireFrames bytes = (frame :: (wireFrames rest).1, (wireFrames rest).2) := by
  rw [wireFrames]
  split
  · rename_i h'
    rw [h] at h'
    cases h'
  · rename_i h'
    rw [h] at h'
    cases h'
  · rename_i h'
    rw [h] at h'
    cases h'
    rfl

/-- What is behind the frames is an unfinished frame. -/
lemma nextFrame_rest {bytes : List UInt8} {frames : List TsFrame} {rest : List UInt8}
    (h : wireFrames bytes = (frames, some rest)) : nextFrame rest = .incomplete := by
  induction hlen : bytes.length using Nat.strongRecOn generalizing bytes frames with
  | ind n ih =>
    subst hlen
    cases hnext : nextFrame bytes with
    | incomplete =>
      rw [wireFrames_incomplete hnext] at h
      cases h
      exact hnext
    | malformed =>
      rw [wireFrames_malformed hnext] at h
      cases h
    | frame frame behind =>
      rw [wireFrames_frame hnext] at h
      cases h' : wireFrames behind with
      | mk frames' tail =>
        rw [h'] at h
        cases h
        exact ih _ (length_rest_lt hnext) h' rfl

/-- Cutting at something malformed: nothing behind it is looked at. -/
lemma wireFrames_append_none {bytes : List UInt8} {frames : List TsFrame}
    (h : wireFrames bytes = (frames, none)) (more : List UInt8) :
    wireFrames (bytes ++ more) = (frames, none) := by
  induction hlen : bytes.length using Nat.strongRecOn generalizing bytes frames with
  | ind n ih =>
    subst hlen
    cases hnext : nextFrame bytes with
    | incomplete =>
      rw [wireFrames_incomplete hnext] at h
      cases h
    | malformed =>
      rw [wireFrames_malformed hnext] at h
      cases h
      exact wireFrames_malformed (nextFrame_malformed_append hnext more)
    | frame frame behind =>
      rw [wireFrames_frame hnext] at h
      cases h' : wireFrames behind with
      | mk frames' tail =>
        rw [h'] at h
        cases h
        rw [wireFrames_frame (nextFrame_frame_append hnext more),
          ih _ (length_rest_lt hnext) h' rfl]

/-- Cutting at an unfinished frame: it is finished by the bytes that follow. -/
lemma wireFrames_append_some {bytes rest : List UInt8} {frames : List TsFrame}
    (h : wireFrames bytes = (frames, some rest)) (more : List UInt8) :
    wireFrames (bytes ++ more) =
      (frames ++ (wireFrames (rest ++ more)).1, (wireFrames (rest ++ more)).2) := by
  induction hlen : bytes.length using Nat.strongRecOn generalizing bytes frames with
  | ind n ih =>
    subst hlen
    cases hnext : nextFrame bytes with
    | incomplete =>
      rw [wireFrames_incomplete hnext] at h
      cases h
      rfl
    | malformed =>
      rw [wireFrames_malformed hnext] at h
      cases h
    | frame frame behind =>
      rw [wireFrames_frame hnext] at h
      cases h' : wireFrames behind with
      | mk frames' tail =>
        rw [h'] at h
        cases h
        rw [wireFrames_frame (nextFrame_frame_append hnext more),
          ih _ (length_rest_lt hnext) h' rfl]
        rfl

/-! ## One pump -/

/-- `decodeHeader` on a complete header. -/
lemma decodeHeader_take {bytes : List UInt8} (h : 40 ≤ bytes.length) :
    decodeHeader (bytes.take 40) =
      if readUIntLE (bytes.take 40) 0 4 ≠ 0x50494150 then .error (.protocol "bad magic")
      else if readUIntLE (bytes.take 40) 36 4 ≠ 0 then .error (.protocol "nonzero reserved field")
      else if tsMaxPayload < readUIntLE (bytes.take 40) 12 4 then .error (.protocol "payload too large")
      else .ok
        { version := ((bytes.take 40).getD 4 0).toNat * 256 + ((bytes.take 40).getD 5 0).toNat
          msgType := readUIntLE (bytes.take 40) 8 4
          flags := readUIntLE (bytes.take 40) 6 2
          requestId := jsNumber (readUIntLE (bytes.take 40) 16 8)
          sessionId := jsNumber (readUIntLE (bytes.take 40) 24 8)
          payloadLen := readUIntLE (bytes.take 40) 12 4 } := by
  have hlen : ¬ (bytes.take 40).length < 40 := by
    rw [List.length_take]
    omega
  rw [decodeHeader, if_neg hlen]

/-- `pump` waits for an unfinished frame. -/
lemma pump_incomplete (onFrame : OnFrame σ) {c : ProtoClient σ}
    (h : nextFrame c.readBuf = .incomplete) : pump onFrame c = (c, none) := by
  unfold nextFrame at h
  simp only at h
  rw [pump]
  split_ifs at h with h1 h2 h3 h4
  · rw [if_pos h1]
  · rw [if_neg h1, decodeHeader_take (not_lt.mp h1)]
    push Not at h2
    rw [if_neg (not_not.mpr h2.1), if_neg (not_not.mpr h2.2.1), if_neg (not_lt.mpr h2.2.2)]
    exact if_pos h3

/-- `pump` closes on something malformed. -/
lemma pump_malformed (onFrame : OnFrame σ) {c : ProtoClient σ}
    (h : nextFrame c.readBuf = .malformed) :
    pump onFrame c = ({ c with conn := setClosed c.conn tsCloseProtocol }, none) := by
  unfold nextFrame at h
  simp only at h
  rw [pump]
  split_ifs at h with h1 h2 h3 h4
  · rw [if_neg h1, decodeHeader_take (not_lt.mp h1)]
    split_ifs with hmagic hreserved hlong
    · rfl
    · rfl
    · rfl
    · rcases h2 with h2 | h2 | h2
      · exact absurd h2 hmagic
      · exact absurd h2 hreserved
      · exact absurd h2 hlong
  · rw [if_neg h1, decodeHeader_take (not_lt.mp h1)]
    push Not at h2
    rw [if_neg (not_not.mpr h2.1), if_neg (not_not.mpr h2.2.1), if_neg (not_lt.mpr h2.2.2)]
    simp only
    rw [if_neg h3, if_pos]
    rw [validateFrame, beq_eq_false_iff_ne]
    exact h4

/-- `pump` dispatches a frame and goes on with the bytes behind it. -/
lemma pump_frame (onFrame : OnFrame σ) {c : ProtoClient σ} {frame : TsFrame} {rest : List UInt8}
    (h : nextFrame c.readBuf = .frame frame rest) :
    pump onFrame c =
      let r := dispatch onFrame c.conn frame
      if r.2.isSome then (⟨rest, r.1⟩, r.2)
      else if r.1.state = .closed then (⟨rest, r.1⟩, none)
      else pump onFrame ⟨rest, r.1⟩ := by
  unfold nextFrame at h
  simp only at h
  rw [pump]
  split_ifs at h with h1 h2 h3 h4
  cases h
  rw [if_neg h1, decodeHeader_take (not_lt.mp h1)]
  push Not at h2
  rw [if_neg (not_not.mpr h2.1), if_neg (not_not.mpr h2.2.1), if_neg (not_lt.mpr h2.2.2)]
  simp only
  have hvalid : ¬ validateFrame (c.readBuf.take 40)
      ((c.readBuf.drop 40).take (readUIntLE (c.readBuf.take 40) 12 4)) = false := by
    rw [validateFrame, beq_eq_false_iff_ne]
    exact h4
  rw [if_neg h3, if_neg hvalid]
  rfl

@[simp] lemma setClosed_state (conn : ClientConn σ) (reason : ℕ) :
    (setClosed conn reason).state = .closed := by
  unfold setClosed
  split_ifs with h
  · exact h
  · rfl

/-- Closing a closed connection does nothing. -/
lemma setClosed_of_closed {conn : ClientConn σ} (h : conn.state = .closed) (reason : ℕ) :
    setClosed conn reason = conn := if_pos h

@[simp] lemma logFrame_state (conn : ClientConn σ) (frame : TsFrame) :
    (logFrame conn frame).state = conn.state := by
  unfold logFrame
  split_ifs
  · rfl
  · rfl

/-- A frame that arrives after the connection closed changes nothing. -/
lemma dispatch_of_closed (onFrame : OnFrame σ) {conn : ClientConn σ} (h : conn.state = .closed)
    (frame : TsFrame) : dispatch onFrame conn frame = (conn, none) := by
  have hlog : logFrame conn frame = conn := if_pos h
  unfold dispatch
  simp only
  rw [hlog]
  by_cases hmajor : frame.version / 256 ≠ 0
  · rw [if_pos hmajor, setClosed_of_closed h]
  · have hnegotiating : ¬ conn.state = .negotiating := by
      rw [h]
      decide
    have hopened : conn.state ≠ .opened := by
      rw [h]
      decide
    rw [if_neg hmajor, if_neg hnegotiating, if_pos hopened]

/-- A frame that is not mishandled gets the answer it has to get. -/
lemma dispatch_eq_meetFrame (onFrame : OnFrame σ) {conn : ClientConn σ} {frame : TsFrame}
    (h : ¬ Mishandled conn frame) :
    dispatch onFrame conn frame = (meetFrame onFrame conn frame, none) := by
  unfold Mishandled at h
  push Not at h
  obtain ⟨hplain, hclose⟩ := h
  unfold dispatch meetFrame
  rw [if_neg hplain]
  simp only
  by_cases hmajor : frame.version / 256 ≠ 0
  · rw [if_pos hmajor, if_pos hmajor]
  rw [if_neg hmajor, if_neg hmajor]
  by_cases hnegotiating : (logFrame conn frame).state = .negotiating
  · rw [if_pos hnegotiating, if_pos hnegotiating]
    by_cases hshort : frame.payload.length < 8
    · simp only [decodeCapsPayload, decodeU32Payload, if_pos hshort, decodeOrClose]
      split_ifs
      · rfl
      · rfl
      · rfl
    · simp only [decodeCapsPayload, decodeU32Payload, if_neg hshort, decodeOrClose]
      split_ifs
      · rfl
      · rfl
      · rfl
  rw [if_neg hnegotiating, if_neg hnegotiating]
  by_cases hopened : (logFrame conn frame).state = .opened
  · rw [if_neg (not_not.mpr hopened), if_pos hopened]
    rw [logFrame_state] at hopened
    by_cases hpong : frame.msgType = tsMsgPong
    · rw [if_pos hpong, if_pos hpong]
    rw [if_neg hpong, if_neg hpong]
    by_cases hmsg : frame.msgType = tsMsgClose
    · rw [if_pos hmsg, if_pos hmsg]
      by_cases hempty : frame.payload.length = 0
      · rw [if_neg (by omega), if_pos hempty]
      · have hlong := hclose hopened (not_not.mp hmajor) hmsg (by omega)
        rw [if_pos (by omega), if_neg hempty, if_neg (not_lt.mpr hlong), decodeU32Payload,
          if_neg (not_lt.mpr hlong)]
    · rw [if_neg hmsg, if_neg hmsg]
  · rw [if_pos hopened, if_neg hopened]

/-- **One pump.**  When no frame of the buffer is mishandled, nothing is thrown, the connection is what
the frames make of it, and unless it closed the unfinished bytes stay in the buffer. -/
lemma pump_of_harmless (onFrame : OnFrame σ) {c : ProtoClient σ}
    (h : Harmless onFrame c.conn (wireFrames c.readBuf).1) :
    (pump onFrame c).2 = none ∧
      (pump onFrame c).1.conn =
        expectedConn onFrame c.conn (wireFrames c.readBuf).1 (wireFrames c.readBuf).2 ∧
      ((pump onFrame c).1.conn.state ≠ .closed →
        (wireFrames c.readBuf).2 = some (pump onFrame c).1.readBuf) := by
  induction hlen : c.readBuf.length using Nat.strongRecOn generalizing c with
  | ind n ih =>
    subst hlen
    cases hnext : nextFrame c.readBuf with
    | incomplete =>
      rw [pump_incomplete onFrame hnext, wireFrames_incomplete hnext]
      exact ⟨rfl, rfl, fun _ => rfl⟩
    | malformed =>
      rw [pump_malformed onFrame hnext, wireFrames_malformed hnext]
      exact ⟨rfl, rfl, fun hopen => absurd (setClosed_state _ _) hopen⟩
    | frame frame rest =>
      rw [wireFrames_frame hnext] at h ⊢
      have hanswer := dispatch_eq_meetFrame onFrame h.1
      rw [pump_frame onFrame hnext, hanswer]
      simp only [Option.isSome_none, Bool.false_eq_true, if_false, expectedConn]
      by_cases hclosed : (meetFrame onFrame c.conn frame).state = .closed
      · rw [if_pos hclosed, if_pos hclosed]
        exact ⟨rfl, rfl, fun hopen => absurd hclosed hopen⟩
      · rw [if_neg hclosed, if_neg hclosed]
        exact ih _ (length_rest_lt hnext) (c := ⟨rest, meetFrame onFrame c.conn frame⟩)
          (h.2 hclosed) rfl

/-! ## All chunks -/

/-- A pump of a closed client changes nothing but the buffer. -/
lemma pump_of_closed (onFrame : OnFrame σ) {c : ProtoClient σ} (h : c.conn.state = .closed) :
    (pump onFrame c).2 = none ∧ (pump onFrame c).1.conn = c.conn := by
  cases hnext : nextFrame c.readBuf with
  | incomplete =>
    rw [pump_incomplete onFrame hnext]
    exact ⟨rfl, rfl⟩
  | malformed =>
    rw [pump_malformed onFrame hnext]
    exact ⟨rfl, setClosed_of_closed h _⟩
  | frame frame rest =>
    rw [pump_frame onFrame hnext, dispatch_of_closed onFrame h]
    simp only [Option.isSome_none, Bool.false_eq_true, if_false]
    rw [if_pos h]
    exact ⟨rfl, rfl⟩

/-- A chunk that throws nothing, then the others. -/
lemma receive_cons (onFrame : OnFrame σ) {c : ProtoClient σ} {chunk : List UInt8}
    (h : (onData onFrame c chunk).2 = none) (chunks : List (List UInt8)) :
    receive onFrame c (chunk :: chunks) = receive onFrame (onData onFrame c chunk).1 chunks := by
  rw [receive]
  exact if_neg (by rw [h]; decide)

/-- Nor do chunks that arrive after it closed. -/
lemma receive_of_closed (onFrame : OnFrame σ) {c : ProtoClient σ} (h : c.conn.state = .closed)
    (chunks : List (List UInt8)) :
    (receive onFrame c chunks).2 = none ∧ (receive onFrame c chunks).1.conn = c.conn := by
  induction chunks generalizing c with
  | nil => exact ⟨rfl, rfl⟩
  | cons chunk chunks ih =>
    have hpump := pump_of_closed onFrame (c := { c with readBuf := c.readBuf ++ chunk }) h
    have hclosed : (onData onFrame c chunk).1.conn.state = .closed := by
      rw [onData, hpump.2]
      exact h
    rw [receive_cons onFrame hpump.1]
    refine ⟨(ih hclosed).1, (ih hclosed).2.trans ?_⟩
    rw [onData, hpump.2]

/-- Something malformed closes the connection, unless a frame before it did. -/
lemma expectedConn_none_state (onFrame : OnFrame σ) (conn : ClientConn σ) (frames : List TsFrame) :
    (expectedConn onFrame conn frames none).state = .closed := by
  induction frames generalizing conn with
  | nil => exact setClosed_state _ _
  | cons frame frames ih =>
    rw [expectedConn]
    split_ifs with hclosed
    · exact hclosed
    · exact ih _

/-- The frames of a concatenation, one part after the other. -/
lemma expectedConn_append (onFrame : OnFrame σ) {conn : ClientConn σ} (hopen : conn.state ≠ .closed)
    (frames frames' : List TsFrame) (rest : List UInt8) (tail : Option (List UInt8)) :
    expectedConn onFrame conn (frames ++ frames') tail =
      if (expectedConn onFrame conn frames (some rest)).state = .closed then
        expectedConn onFrame conn frames (some rest)
      else expectedConn onFrame (expectedConn onFrame conn frames (some rest)) frames' tail := by
  induction frames generalizing conn with
  | nil =>
    change expectedConn onFrame conn frames' tail = if conn.state = .closed then _ else _
    rw [if_neg hopen]
    rfl
  | cons frame frames ih =>
    rw [List.cons_append, expectedConn, expectedConn]
    by_cases hclosed : (meetFrame onFrame conn frame).state = .closed
    · rw [if_pos hclosed, if_pos hclosed, if_pos hclosed]
    · rw [if_neg hclosed, if_neg hclosed, ih hclosed]

/-- Harmless frames in two parts. -/
lemma Harmless.append {onFrame : OnFrame σ} {conn : ClientConn σ} (hopen : conn.state ≠ .closed)
    {frames frames' : List TsFrame} (h : Harmless onFrame conn (frames ++ frames'))
    (rest : List UInt8) :
    Harmless onFrame conn frames ∧
      ((expectedConn onFrame conn frames (some rest)).state ≠ .closed →
        Harmless onFrame (expectedConn onFrame conn frames (some rest)) frames') := by
  induction frames generalizing conn with
  | nil => exact ⟨trivial, fun _ => h⟩
  | cons frame frames ih =>
    obtain ⟨hframe, hrest⟩ := h
    constructor
    · exact ⟨hframe, fun hstill => (ih hstill (hrest hstill)).1⟩
    · rw [expectedConn]
      by_cases hclosed : (meetFrame onFrame conn frame).state = .closed
      · rw [if_pos hclosed]
        exact fun hne => absurd hclosed hne
      · rw [if_neg hclosed]
        exact (ih hclosed (hrest hclosed)).2

/-- When no frame is mishandled, every chunking of the bytes gives what is expected. -/
lemma receive_of_harmless (onFrame : OnFrame σ) {c : ProtoClient σ} (hopen : c.conn.state ≠ .closed)
    (hbuf : nextFrame c.readBuf = .incomplete) {chunks : List (List UInt8)}
    (h : Harmless onFrame c.conn (wireFrames (c.readBuf ++ chunks.flatten)).1) :
    (receive onFrame c chunks).2 = none ∧
      (receive onFrame c chunks).1.conn =
        expectedConn onFrame c.conn (wireFrames (c.readBuf ++ chunks.flatten)).1
          (wireFrames (c.readBuf ++ chunks.flatten)).2 := by
  induction chunks generalizing c with
  | nil =>
    rw [List.flatten_nil, List.append_nil, wireFrames_incomplete hbuf]
    exact ⟨rfl, rfl⟩
  | cons chunk chunks ih =>
    set c' : ProtoClient σ := { c with readBuf := c.readBuf ++ chunk } with hc'
    have hjoin : c.readBuf ++ (chunk :: chunks).flatten = c'.readBuf ++ chunks.flatten := by
      rw [hc', List.flatten_cons, List.append_assoc]
    have hstep (hnone : (pump onFrame c').2 = none) : receive onFrame c (chunk :: chunks) =
        receive onFrame (pump onFrame c').1 chunks := receive_cons onFrame hnone chunks
    rw [hjoin] at h ⊢
    cases hparse : wireFrames c'.readBuf with
    | mk frames tail =>
      cases tail with
      | none =>
        -- the buffer holds something malformed: what follows is not looked at
        rw [wireFrames_append_none hparse] at h ⊢
        have hpump := pump_of_harmless onFrame (c := c') (by rwa [hparse])
        rw [hparse] at hpump
        have hclosed : (pump onFrame c').1.conn.state = .closed := by
          rw [hpump.2.1]
          exact expectedConn_none_state onFrame _ _
        rw [hstep hpump.1]
        have hrest := receive_of_closed onFrame hclosed chunks
        exact ⟨hrest.1, hrest.2.trans hpump.2.1⟩
      | some rest =>
        rw [wireFrames_append_some hparse] at h ⊢
        obtain ⟨hfirst, hsecond⟩ := h.append hopen rest
        have hpump := pump_of_harmless onFrame (c := c') (by rwa [hparse])
        rw [hparse] at hpump
        rw [hstep hpump.1, expectedConn_append onFrame hopen frames _ rest]
        by_cases hclosed : (expectedConn onFrame c.conn frames (some rest)).state = .closed
        · rw [if_pos hclosed]
          have hdone : (pump onFrame c').1.conn.state = .closed := by
            rw [hpump.2.1]
            exact hclosed
          have hrest := receive_of_closed onFrame hdone chunks
          exact ⟨hrest.1, hrest.2.trans hpump.2.1⟩
        · rw [if_neg hclosed]
          have hstill : (pump onFrame c').1.conn.state ≠ .closed := by
            rw [hpump.2.1]
            exact hclosed
          have hleft : rest = (pump onFrame c').1.readBuf := Option.some.inj (hpump.2.2 hstill)
          have hwait : nextFrame (pump onFrame c').1.readBuf = .incomplete := by
            rw [← hleft]
            exact nextFrame_rest hparse
          have hnext := ih hstill hwait (by
            rw [← hleft, hpump.2.1]
            exact hsecond hclosed)
          rw [← hleft, hpump.2.1] at hnext
          exact hnext

/-! ## Where it goes wrong -/

lemma setClosed_dispatched (conn : ClientConn σ) (reason : ℕ) :
    (setClosed conn reason).dispatched = conn.dispatched := by
  unfold setClosed
  split_ifs
  · rfl
  · rfl

lemma decodeOrClose_dispatched (conn : ClientConn σ) (decoded : Except TsError ℕ) :
    (decodeOrClose conn decoded).1.dispatched = conn.dispatched := by
  cases decoded with
  | ok value => rfl
  | error e => exact setClosed_dispatched _ _

lemma runOnFrame_dispatched (onFrame : OnFrame σ) (conn : ClientConn σ) (frame : TsFrame) :
    (runOnFrame onFrame conn frame).dispatched = conn.dispatched := by
  have hcalls (calls : List ClientCall) (d : ClientConn σ) :
      (calls.foldl runClientCall d).dispatched = d.dispatched := by
    induction calls generalizing d with
    | nil => rfl
    | cons call calls ih =>
      rw [List.foldl_cons, ih]
      cases call with
      | close => rfl
      | ping =>
        unfold runClientCall
        split_ifs
        · rfl
        · rfl
  exact hcalls _ _

/-- `dispatch` acts on the one frame it is given. -/
lemma dispatch_dispatched (onFrame : OnFrame σ) (conn : ClientConn σ) (frame : TsFrame) :
    (dispatch onFrame conn frame).1.dispatched = (logFrame conn frame).dispatched := by
  unfold dispatch
  simp only
  split_ifs
  · exact setClosed_dispatched _ _
  · cases decodeCapsPayload frame.payload with
    | ok value => rfl
    | error e => exact setClosed_dispatched _ _
  · cases decodeU32Payload frame.payload with
    | ok value => exact setClosed_dispatched _ _
    | error e => exact setClosed_dispatched _ _
  · exact setClosed_dispatched _ _
  · rfl
  · unfold answerPong
    split_ifs
    · rfl
    · rfl
  · cases decodeU32Payload frame.payload with
    | ok value => exact setClosed_dispatched _ _
    | error e => rfl
  · exact setClosed_dispatched _ _
  · exact runOnFrame_dispatched _ _ _

/-- A pump forgets no dispatched frame. -/
lemma length_dispatched_le_pump (onFrame : OnFrame σ) (c : ProtoClient σ) :
    c.conn.dispatched.length ≤ (pump onFrame c).1.conn.dispatched.length := by
  induction hlen : c.readBuf.length using Nat.strongRecOn generalizing c with
  | ind n ih =>
    subst hlen
    cases hnext : nextFrame c.readBuf with
    | incomplete => rw [pump_incomplete onFrame hnext]
    | malformed =>
      rw [pump_malformed onFrame hnext]
      exact le_of_eq (congrArg List.length (setClosed_dispatched _ _).symm)
    | frame frame rest =>
      have hlog : c.conn.dispatched.length ≤ (dispatch onFrame c.conn frame).1.dispatched.length := by
        rw [dispatch_dispatched]
        unfold logFrame
        split_ifs
        · exact le_rfl
        · simp
      rw [pump_frame onFrame hnext]
      simp only
      split_ifs
      · exact hlog
      · exact hlog
      · exact hlog.trans (ih _ (length_rest_lt hnext) ⟨rest, _⟩ rfl)

/-- A pump over a mishandled frame throws, or dispatches a frame that has to close the connection. -/
lemma pump_of_mishandled (onFrame : OnFrame σ) {c : ProtoClient σ} (hopen : c.conn.state ≠ .closed)
    (h : ¬ Harmless onFrame c.conn (wireFrames c.readBuf).1) :
    (pump onFrame c).2.isSome ∨
      (expectedConn onFrame c.conn (wireFrames c.readBuf).1 (wireFrames c.readBuf).2).dispatched.length
        < (pump onFrame c).1.conn.dispatched.length := by
  induction hlen : c.readBuf.length using Nat.strongRecOn generalizing c with
  | ind n ih =>
    subst hlen
    cases hnext : nextFrame c.readBuf with
    | incomplete =>
      rw [wireFrames_incomplete hnext] at h
      exact absurd trivial h
    | malformed =>
      rw [wireFrames_malformed hnext] at h
      exact absurd trivial h
    | frame frame rest =>
      rw [wireFrames_frame hnext] at h ⊢
      rw [pump_frame onFrame hnext]
      by_cases hbad : Mishandled c.conn frame
      · by_cases hplain : frame.compressed
        · right
          have hexpected : (expectedConn onFrame c.conn (frame :: (wireFrames rest).1)
              (wireFrames rest).2).dispatched = c.conn.dispatched := by
            rw [expectedConn, meetFrame, if_pos hplain]
            simp only [setClosed_state, if_true]
            exact setClosed_dispatched _ _
          have hlog : c.conn.dispatched.length <
              (dispatch onFrame c.conn frame).1.dispatched.length := by
            rw [dispatch_dispatched, logFrame, if_neg hopen]
            simp
          rw [hexpected]
          simp only
          split_ifs
          · exact hlog
          · exact hlog
          · exact hlog.trans_le (length_dispatched_le_pump onFrame ⟨rest, _⟩)
        · left
          obtain ⟨hstate, hmajor, htype, hpos, hshort⟩ := hbad.resolve_left hplain
          have hthrow : (dispatch onFrame c.conn frame).2.isSome := by
            unfold dispatch
            simp only
            rw [if_neg (not_not.mpr hmajor), if_neg (by rw [logFrame_state, hstate]; decide),
              if_neg (by rw [logFrame_state, hstate]; decide), if_neg (by rw [htype]; decide),
              if_pos htype, if_pos hpos, decodeU32Payload, if_pos hshort]
            rfl
          simp only
          rw [if_pos hthrow]
          exact hthrow
      · have hanswer := dispatch_eq_meetFrame onFrame hbad
        have hstill : (meetFrame onFrame c.conn frame).state ≠ .closed := by
          intro hclosed
          exact h ⟨hbad, fun hne => absurd hclosed hne⟩
        have hrest : ¬ Harmless onFrame (meetFrame onFrame c.conn frame) (wireFrames rest).1 :=
          fun hsafe => h ⟨hbad, fun _ => hsafe⟩
        rw [hanswer, expectedConn]
        simp only [Option.isSome_none, Bool.false_eq_true, if_false]
        rw [if_neg hstill, if_neg hstill]
        exact ih _ (length_rest_lt hnext) (c := ⟨rest, meetFrame onFrame c.conn frame⟩) hstill hrest
          rfl

/-- A mishandled frame breaks the promise, already when all bytes come in one chunk. -/
lemma not_robust_of_mishandled (onFrame : OnFrame σ) {c : ProtoClient σ}
    (hopen : c.conn.state ≠ .closed) {bytes : List UInt8}
    (hbad : ¬ Harmless onFrame c.conn (wireFrames (c.readBuf ++ bytes)).1) :
    ¬ ClientRobust onFrame c bytes := by
  intro hrobust
  obtain ⟨hnone, hconn⟩ := hrobust [bytes] (by simp)
  set c' : ProtoClient σ := { c with readBuf := c.readBuf ++ bytes } with hc'
  have hpump := pump_of_mishandled onFrame (c := c') hopen hbad
  by_cases hthrow : (pump onFrame c').2.isSome
  · have hall : receive onFrame c [bytes] = pump onFrame c' := if_pos hthrow
    rw [hall] at hnone
    rw [hnone] at hthrow
    cases hthrow
  · have hall : receive onFrame c [bytes] = ((pump onFrame c').1, none) := if_neg hthrow
    rw [hall] at hconn
    have hlt := hpump.resolve_left hthrow
    rw [hconn] at hlt
    exact lt_irrefl _ hlt

/-! ## Main result -/

/-- **The client keeps its promise exactly on the harmless byte sequences.**  For a client that is
negotiating or open, with an unfinished frame in its buffer, and any `onFrame` handler: in every chunking
of the bytes nothing is thrown, malformed frames and payloads close the connection, and the well-formed
frames are dispatched once each and in order, if and only if no frame that reaches the connection before
it closes has COMPRESSED set or is a CLOSE with 1 to 7 bytes of payload on the open connection. -/
theorem clientRobust_iff (onFrame : OnFrame σ) {c : ProtoClient σ}
    (hstate : c.conn.state = .negotiating ∨ c.conn.state = .opened)
    (hbuf : nextFrame c.readBuf = .incomplete) (bytes : List UInt8) :
    ClientRobust onFrame c bytes ↔
      Harmless onFrame c.conn (wireFrames (c.readBuf ++ bytes)).1 := by
  have hopen : c.conn.state ≠ .closed := by
    rcases hstate with hstate | hstate
    · rw [hstate]
      decide
    · rw [hstate]
      decide
  constructor
  · intro hrobust
    by_contra hbad
    exact not_robust_of_mishandled onFrame hopen hbad hrobust
  · intro hsafe chunks hchunks
    subst hchunks
    exact receive_of_harmless onFrame hopen hbuf hsafe

/-- An open client that has seen nothing yet and waits for the PONG of ping 3. -/
def openClient : ProtoClient Unit where
  readBuf := []
  conn :=
    { state := .opened
      negotiatedCaps := 0
      nackReason := 0
      closeReason := 0
      nextRequestId := 4
      pendingPongs := [3]
      answered := []
      failed := []
      dispatched := []
      closes := []
      user := () }

/-- A CLOSE frame with one byte of payload. -/
def shortCloseBytes : List UInt8 :=
  [80, 65, 73, 80, 0, 1, 0, 0, 7, 0, 0, 0, 1, 0, 0, 0, 0, 0, 0, 0, 0, 0, 0, 0, 0, 0, 0, 0, 0, 0,
    0, 0, 128, 91, 20, 184, 0, 0, 0, 0, 0]

/-- A PONG frame for ping 3. -/
def pongBytes : List UInt8 :=
  [80, 65, 73, 80, 0, 1, 1, 0, 5, 0, 0, 0, 0, 0, 0, 0, 3, 0, 0, 0, 0, 0, 0, 0, 0, 0, 0, 0, 0, 0,
    0, 0, 61, 26, 29, 212, 0, 0, 0, 0]

/-- The answer to ping 3, in any chunks. -/
theorem clientRobust_iff_pong : ClientRobust (fun u _ => (u, [])) openClient pongBytes := by
  have hnext : nextFrame (openClient.readBuf ++ pongBytes) =
      .frame ⟨1, tsMsgPong, 1, 3, 0, []⟩ [] := by decide +kernel
  refine (clientRobust_iff (fun u _ => (u, [])) (Or.inr rfl) (by decide) pongBytes).mpr ?_
  rw [wireFrames_frame hnext, wireFrames_incomplete (by decide)]
  refine ⟨?_, fun _ => trivial⟩
  rintro (hcompressed | ⟨-, -, htype, -⟩)
  · exact hcompressed (by decide)
  · exact absurd htype (by decide)

/-- A CLOSE with one byte of payload throws out of the open client. -/
theorem clientRobust_fails :
    ¬ ClientRobust (fun u _ => (u, [])) openClient shortCloseBytes := by
  have hnext : nextFrame (openClient.readBuf ++ shortCloseBytes) =
      .frame ⟨1, tsMsgClose, 0, 0, 0, [0]⟩ [] := by decide +kernel
  refine not_robust_of_mishandled (fun u _ => (u, [])) (by decide) ?_
  rw [wireFrames_frame hnext]
  exact fun hsafe => hsafe.1 (Or.inr ⟨rfl, by decide, rfl, by decide, by decide⟩)

end Prospero
