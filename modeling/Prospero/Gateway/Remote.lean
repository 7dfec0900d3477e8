import Prospero.Protocol.Poll
import Prospero.Protocol.Message

/-!
# Remote exchanges

The gateway's client of remote models (`gateway/remote.c`): one pooled connection, the callbacks that
route its frames to the exchange in flight, and the generation and embedding exchanges with their single
reconnect.

The peer is arbitrary.  An `AttemptEnv` says what one attempt meets: the outcome of connecting, the bytes
the new connection will deliver and how its reads are cut, and for every turn of the two waiting loops
whether the deadline has passed and whether the sending direction has died.  A run of a loop for which
the script is too short is still waiting, and has no result.

`on_token` and its `user` pointer are the number of the exchange they belong to; a call is recorded with
that number and the bytes of its C string.  Vectors are given by the bytes of their payload.
-/

namespace Prospero

/-- `PAI_PROTO_CAP_GENERATE`. -/
def paiProtoCapGenerate : UInt32 := 4
/-- `PAI_PROTO_CAP_EMBED`. -/
def paiProtoCapEmbed : UInt32 := 8
/-- `PAI_PROTO_MSG_GENERATE`. -/
def paiProtoMsgGenerate : UInt32 := 0x0201
/-- `PAI_PROTO_MSG_EMBED`. -/
def paiProtoMsgEmbed : UInt32 := 0x0205
/-- `PAI_PROTO_MSG_EMBEDDING`. -/
def paiProtoMsgEmbedding : UInt32 := 0x0206
/-- `PAI_PROTO_MAX_EMBED_DIM`. -/
abbrev paiProtoMaxEmbedDim : ℕ := 0x10000
/-- `REMOTE_TOKEN_BUF`. -/
abbrev remoteTokenBuf : ℕ := 2048

/-! ## Exchange state -/

/-- `remote_ctx_t`. -/
structure RemoteCtx where
  /-- The exchange whose `on_token` is installed. -/
  onToken : Option ℕ
  /-- Expected reply correlation. -/
  requestId : UInt64
  /-- Relayed token count. -/
  tokens : UInt32
  /-- COMPLETE seen. -/
  complete : Bool
  /-- ERROR frame seen. -/
  error : Bool
  /-- Status of the ERROR frame. -/
  errorStatus : PaiStatus

/-- `embed_ctx_t`. -/
structure EmbedCtx where
  /-- Bytes of the vector. -/
  vec : Option (List UInt8)
  /-- Expected reply correlation. -/
  requestId : UInt64
  /-- EMBEDDING seen. -/
  got : Bool
  /-- ERROR frame, or a reply that does not decode, seen. -/
  error : Bool
  /-- Status of the error. -/
  errorStatus : PaiStatus

/-- A zeroed `remote_ctx_t`. -/
def RemoteCtx.zero : RemoteCtx := ⟨none, 0, 0, false, false, paiOk⟩

/-- A zeroed `embed_ctx_t`. -/
def EmbedCtx.zero : EmbedCtx := ⟨none, 0, false, false, paiOk⟩

/-- `pai_remote_kind_t`. -/
inductive RemoteKind where
  | generate
  | embed
deriving DecidableEq

/-- What the callbacks of the pooled connection work on, and the calls of `on_token` so far. -/
structure PoolApp where
  /-- Kind of the exchange. -/
  kind : RemoteKind
  /-- State of the generate exchange. -/
  gen : RemoteCtx
  /-- State of the embedding exchange. -/
  emb : EmbedCtx
  /-- Calls of `on_token`: the exchange, and the bytes of the string. -/
  calls : List (ℕ × List UInt8)

/-! ## Callbacks -/

/-- The slices in which a chunk is relayed. -/
def tokenSlices : ℕ → List UInt8 → List (List UInt8)
  | 0, _ => []
  | fuel + 1, data =>
    if data = [] then []
    else data.take (remoteTokenBuf - 1) :: tokenSlices fuel (data.drop (remoteTokenBuf - 1))

/-- One call of `on_token` with a buffer of these bytes and a NUL. -/
def relaySlice (tag : ℕ) (app : PoolApp) (buf : List UInt8) : PoolApp :=
  { app with
    calls := app.calls ++ [(tag, buf.takeWhile (· ≠ 0))]
    gen := { app.gen with tokens := app.gen.tokens + 1 } }

/-- `remote_on_stream_data`. -/
def remoteOnStreamData (app : PoolApp) (requestId : UInt64) (kind : UInt8) (data : List UInt8) :
    PoolApp :=
  if requestId ≠ app.gen.requestId ∨ app.gen.complete ∨ app.gen.error then app
  else
    match app.gen.onToken with
    | none => app
    | some tag =>
      if kind ≠ paiProtoStreamGenerate ∨ data = [] then app
      else (tokenSlices data.length data).foldl (relaySlice tag) app

/-- The status of an ERROR payload, by `pai_proto_msg_decode_error`; never `PAI_OK`. -/
def errorFrameStatus (payload : List UInt8) : PaiStatus :=
  let es := if payload.length < 8 then paiErrIo else (getLe32 payload 0).toInt32
  if es ≠ paiOk then es else paiErrIo

/-- `remote_on_message`. -/
def remoteOnMessage (c : RemoteCtx) (frame : Frame) : RemoteCtx :=
  if frame.requestId ≠ c.requestId ∨ c.complete ∨ c.error then c
  else if frame.msgType = paiProtoMsgComplete then { c with complete := true }
  else if frame.msgType = paiProtoMsgError then
    { c with
      error := true
      errorStatus := errorFrameStatus frame.payload }
  else c

/-- `pai_proto_msg_decode_embedding`: the bytes of the vector. -/
def paiProtoMsgDecodeEmbedding (payload : List UInt8) : Option (List UInt8) :=
  if payload.length < 4 then none
  else
    let dim := (getLe32 payload 0).toNat
    if dim = 0 ∨ paiProtoMaxEmbedDim < dim ∨ payload.length ≠ 4 + dim * 4 then none
    else some (payload.drop 4)

/-- `embed_on_message`. -/
def embedOnMessage (c : EmbedCtx) (frame : Frame) : EmbedCtx :=
  if frame.requestId ≠ c.requestId ∨ c.got ∨ c.error then c
  else if frame.msgType = paiProtoMsgEmbedding then
    match paiProtoMsgDecodeEmbedding frame.payload with
    | none => { c with
        error := true
        errorStatus := paiErrProtocol }
    | some vec => { c with
        vec := some vec
        got := true }
  else if frame.msgType = paiProtoMsgError then
    { c with
      error := true
      errorStatus := errorFrameStatus frame.payload }
  else c

/-- `pool_on_message`. -/
def poolOnMessage (app : PoolApp) (frame : Frame) : PoolApp :=
  match app.kind with
  | .embed => { app with emb := embedOnMessage app.emb frame }
  | .generate => { app with gen := remoteOnMessage app.gen frame }

/-- `pool_on_stream_data`. -/
def poolOnStreamData (app : PoolApp) (requestId : UInt64) (kind : UInt8) (data : List UInt8) :
    PoolApp :=
  match app.kind with
  | .generate => remoteOnStreamData app requestId kind data
  | .embed => app

/-- The callbacks `pool_acquire` installs. -/
def poolCallbacks : Callbacks PoolApp :=
  { Callbacks.null with
    onMessage := fun _ app frame => (⟨poolOnMessage app frame, []⟩, paiOk)
    onStreamData := fun _ app requestId _ kind _ data => ⟨poolOnStreamData app requestId kind data, []⟩ }

/-! ## The pool -/

/-- `struct pai_remote_pool` without the address of the peer. -/
structure RemotePool where
  /-- The connection and what the callbacks work on. -/
  endpoint : Endpoint PoolApp
  /-- What the transport will deliver. -/
  rx : Rx
  /-- How the reads of the transport are cut. -/
  cut : ℕ → ℕ
  /-- Transport and connection are initialized. -/
  valid : Bool
  /-- An exchange is in flight. -/
  busy : Bool

/-- A fresh connection. -/
def freshPoolEndpoint (app : PoolApp) : Endpoint PoolApp where
  conn := paiProtoConnInit .client paiProtoCapKnown
  user := app
  tx := []
  txClosed := false
  rxClosed := false
  events := []

/-- `pai_remote_pool_create`. -/
def paiRemotePoolCreate : RemotePool where
  endpoint := freshPoolEndpoint ⟨.generate, .zero, .zero, []⟩
  rx := ⟨[], false, 0⟩
  cut := fun _ => 0
  valid := false
  busy := false

/-- What a new connection meets. -/
structure Peer where
  /-- Bytes the peer sends. -/
  stream : List UInt8
  /-- The peer closes behind them. -/
  eof : Bool
  /-- How the reads are cut. -/
  cut : ℕ → ℕ

/-- One turn of a waiting loop. -/
structure Tick where
  /-- The deadline has passed. -/
  late : Bool
  /-- The sending direction dies. -/
  broken : Bool

/-- What one attempt meets. -/
structure AttemptEnv where
  /-- Result of `pai_proto_tcp_connect`. -/
  connect : PaiStatus
  /-- The peer of a new connection. -/
  peer : Peer
  /-- The sending direction is dead when HELLO is sent. -/
  helloBroken : Bool
  /-- Turns of the negotiation loop. -/
  negotiation : List Tick
  /-- The sending direction is dead when the request is sent. -/
  requestBroken : Bool
  /-- Turns of the exchange loop. -/
  ticks : List Tick

/-- The sending direction dies when `broken` holds. -/
def breakTx (broken : Bool) (e : Endpoint PoolApp) : Endpoint PoolApp :=
  { e with txClosed := e.txClosed || broken }

/-- The negotiation loop of `remote_connect_and_negotiate`. -/
def negotiateLoop (cut : ℕ → ℕ) :
    List Tick → Endpoint PoolApp → Rx → Option (PaiStatus × Endpoint PoolApp × Rx)
  | [], e, rx => if e.conn.state = .negotiating then none else some (paiOk, e, rx)
  | tick :: ticks, e, rx =>
    if e.conn.state = .negotiating then
      if tick.late then some (paiErrTimeout, e, rx)
      else
        let r := paiProtoConnPoll poolCallbacks cut (breakTx tick.broken e) rx
        if r.status ≠ paiOk then some (r.status, r.endpoint, r.rx)
        else negotiateLoop cut ticks r.endpoint r.rx
    else some (paiOk, e, rx)

/-- `remote_connect_and_negotiate`; on failure the connection is torn down. -/
def remoteConnectAndNegotiate (pool : RemotePool) (neededCap : UInt32) (env : AttemptEnv) :
    Option (RemotePool × PaiStatus) :=
  if env.connect ≠ paiOk then some (pool, env.connect)
  else
    let s := paiProtoConnStart (breakTx env.helloBroken (freshPoolEndpoint pool.endpoint.user))
    let rx : Rx := ⟨env.peer.stream, env.peer.eof, 0⟩
    let result := if s.2 ≠ paiOk then some (s.2, s.1, rx)
      else negotiateLoop env.peer.cut env.negotiation s.1 rx
    match result with
    | none => none
    | some (st, e, rx) =>
      let pool := { pool with
        endpoint := e
        rx := rx
        cut := env.peer.cut }
      if st ≠ paiOk then some (pool, st)
      else if e.conn.state ≠ .opened then
        some (pool, if e.conn.nackReason ≠ 0 then paiErrCapability else paiErrIo)
      else if e.conn.negotiatedCaps &&& neededCap = 0 then some (pool, paiErrUnsupported)
      else some (pool, paiOk)

/-- The capability an exchange needs. -/
def RemoteKind.neededCap : RemoteKind → UInt32
  | .generate => paiProtoCapGenerate
  | .embed => paiProtoCapEmbed

/-- A pool that was acquired, or not. -/
structure Acquired where
  /-- The pool. -/
  pool : RemotePool
  /-- Returned status. -/
  status : PaiStatus
  /-- Callbacks invoked while a new connection was negotiated. -/
  negotiation : List Event

/-- `pool_acquire`. -/
def poolAcquire (pool : RemotePool) (kind : RemoteKind) (env : AttemptEnv) : Option Acquired :=
  let pool := { pool with valid := pool.valid && decide (pool.endpoint.conn.state = ConnState.opened) }
  let take (pool : RemotePool) : RemotePool := { pool with
    endpoint := { pool.endpoint with user := { pool.endpoint.user with kind := kind } }
    busy := true }
  if pool.valid then
    if pool.endpoint.conn.negotiatedCaps &&& kind.neededCap = 0 then
      some ⟨pool, paiErrUnsupported, []⟩
    else some ⟨take pool, paiOk, []⟩
  else
    match remoteConnectAndNegotiate pool kind.neededCap env with
    | none => none
    | some (pool, st) =>
      let events := if env.connect ≠ paiOk then [] else pool.endpoint.events
      if st ≠ paiOk then some ⟨pool, st, events⟩
      else some ⟨take { pool with valid := true }, paiOk, events⟩

/-! ## Exchanges -/

/-- The waiting loop of an exchange; `done` says that a terminal frame was seen. -/
def exchangeLoop (done : PoolApp → Bool) (cut : ℕ → ℕ) :
    List Tick → Endpoint PoolApp → Rx → Option (PaiStatus × Endpoint PoolApp × Rx)
  | [], e, rx => if done e.user then some (paiOk, e, rx) else none
  | tick :: ticks, e, rx =>
    if done e.user then some (paiOk, e, rx)
    else if tick.late then some (paiErrTimeout, e, rx)
    else
      let r := paiProtoConnPoll poolCallbacks cut (breakTx tick.broken e) rx
      if r.status ≠ paiOk then some (r.status, r.endpoint, r.rx)
      else if done r.endpoint.user then some (paiOk, r.endpoint, r.rx)
      else if r.endpoint.conn.state = .closed then some (paiErrIo, r.endpoint, r.rx)
      else exchangeLoop done cut ticks r.endpoint r.rx

/-- One attempt at an exchange, and what was received for it. -/
structure Attempt where
  /-- The state of the callbacks before the attempt. -/
  before : PoolApp
  /-- The pool after the attempt. -/
  pool : RemotePool
  /-- Returned status. -/
  status : PaiStatus
  /-- The connection was acquired. -/
  acquired : Bool
  /-- Callbacks invoked while a new connection was negotiated. -/
  negotiation : List Event
  /-- The request id. -/
  requestId : UInt64
  /-- Callbacks invoked from the request on. -/
  received : List Event

/-- What an exchange sends, and how it waits. -/
structure Exchange where
  /-- Kind of the exchange. -/
  kind : RemoteKind
  /-- State of the callbacks for the exchange. -/
  reset : PoolApp → PoolApp
  /-- Store the request id. -/
  setId : UInt64 → PoolApp → PoolApp
  /-- The encoded request. -/
  request : Except PaiStatus (List UInt8)
  /-- Message type of the request. -/
  msgType : UInt32
  /-- A terminal frame was seen. -/
  done : PoolApp → Bool
  /-- The status once a terminal frame was seen. -/
  answer : PoolApp → PaiStatus
  /-- Nothing was delivered, and no terminal frame was seen. -/
  untouched : PoolApp → Bool

/-- The part of an attempt behind `pool_acquire`, up to the label `fail`. -/
def runExchange (x : Exchange) (pool : RemotePool) (env : AttemptEnv) :
    Option (RemotePool × PaiStatus × UInt64 × List Event) :=
  let e := { pool.endpoint with user := x.reset pool.endpoint.user }
  match x.request with
  | .error st => some ({ pool with endpoint := e }, st, 0, [])
  | .ok payload =>
    let (conn, req) := paiProtoConnNewRequestId e.conn
    let e := breakTx env.requestBroken { e with
      conn := conn
      user := x.setId req e.user }
    let s := paiProtoConnSend e
      { version := 0
        msgType := x.msgType
        flags := 0
        requestId := req
        sessionId := 0
        payload := payload }
    if s.2 ≠ paiOk then some ({ pool with endpoint := s.1 }, s.2, req, [])
    else
      match exchangeLoop x.done pool.cut env.ticks s.1 pool.rx with
      | none => none
      | some (st, e', rx) =>
        let st := if st = paiOk then x.answer e'.user else st
        some ({ pool with
          endpoint := e'
          rx := rx }, st, req, e'.events.drop s.1.events.length)

/-- One attempt of an exchange. -/
def runAttempt (x : Exchange) (pool : RemotePool) (env : AttemptEnv) : Option Attempt :=
  match poolAcquire pool x.kind env with
  | none => none
  | some a =>
    if a.status ≠ paiOk then
      some ⟨pool.endpoint.user, a.pool, a.status, false, a.negotiation, 0, []⟩
    else
      match runExchange x a.pool env with
      | none => none
      | some (pool', st, req, received) =>
        some ⟨pool.endpoint.user, { pool' with busy := false }, st, true, a.negotiation, req,
          received⟩

/-- An attempt that is made again on a fresh connection. -/
def retries (x : Exchange) (a : Attempt) (attempt : ℕ) : Bool :=
  a.acquired && a.status = paiErrIo && decide (attempt < 2) && x.untouched a.pool.endpoint.user

/-- `pool_generate_attempt` and `pool_embed_attempt`: the attempts, in order. -/
def runAttempts (x : Exchange) : List AttemptEnv → ℕ → RemotePool → Option (List Attempt)
  | [], _, _ => none
  | env :: envs, attempt, pool =>
    match runAttempt x pool env with
    | none => none
    | some a =>
      if retries x a attempt then
        (runAttempts x envs (attempt + 1) { a.pool with valid := false }).map (a :: ·)
      else some [a]

/-- The exchange of `pool_generate_attempt`. -/
def generateExchange (prompt : List UInt8) (sampler : Option ProtoSampler) (onToken : Option ℕ) :
    Exchange where
  kind := .generate
  reset app := { app with gen := { RemoteCtx.zero with onToken := onToken } }
  setId req app := { app with gen := { app.gen with requestId := req } }
  request := paiProtoMsgEncodeGenerate2 prompt sampler (65535 + 2 + 4 + samplerSize)
  msgType := paiProtoMsgGenerate
  done app := app.gen.complete || app.gen.error
  answer app := if app.gen.error then app.gen.errorStatus
    else if app.gen.complete then paiOk else paiErrIo
  untouched app := !app.gen.error && !app.gen.complete && app.gen.tokens == 0

/-- The exchange of `pool_embed_attempt`. -/
def embedExchange (text : List UInt8) : Exchange where
  kind := .embed
  reset app := { app with emb := .zero }
  setId req app := { app with emb := { app.emb with requestId := req } }
  request := encodeU16Blob text (65535 + 2)
  msgType := paiProtoMsgEmbed
  done app := app.emb.got || app.emb.error
  answer app := if app.emb.error then app.emb.errorStatus
    else if app.emb.got then paiOk else paiErrIo
  untouched app := !app.emb.error && !app.emb.got

/-- What a call of the pool returns: its attempts, its status, and the pool after it. -/
structure Outcome where
  /-- The attempts. -/
  attempts : List Attempt
  /-- Returned status. -/
  status : PaiStatus
  /-- The pool. -/
  pool : RemotePool

/-- A call of the pool. -/
inductive PoolCall where
  /-- `pai_remote_pool_generate`; `hasCallback` says that `on_token` is not `NULL`. -/
  | generate (prompt : List UInt8) (sampler : Option ProtoSampler) (hasCallback : Bool)
  /-- `pai_remote_pool_embed`. -/
  | embed (text : List UInt8)

/-- The arguments are refused. -/
def PoolCall.refused : PoolCall → Bool
  | .generate prompt _ _ => decide (65535 < prompt.length)
  | .embed text => text.isEmpty || decide (0xFFFF < text.length)

/-- The exchange of the call with number `tag`. -/
def PoolCall.exchange (tag : ℕ) : PoolCall → Exchange
  | .generate prompt sampler hasCallback =>
    generateExchange prompt sampler (if hasCallback then some tag else none)
  | .embed text => embedExchange text

/-- `pai_remote_pool_generate` and `pai_remote_pool_embed`. -/
def runPoolCall (tag : ℕ) (pool : RemotePool) (call : PoolCall) (envs : List AttemptEnv) :
    Option Outcome :=
  if pool.busy ∨ call.refused then some ⟨[], paiErrInvalidArg, pool⟩
  else
    match runAttempts (call.exchange tag) envs 1 pool with
    | none => none
    | some attempts =>
      attempts.getLast?.map fun a => ⟨attempts, a.status, a.pool⟩

/-- Calls of one pool, one behind the other; the first one has the number `tag`. -/
def runPool : ℕ → RemotePool → List (PoolCall × List AttemptEnv) → Option (List Outcome)
  | _, _, [] => some []
  | tag, pool, (call, envs) :: calls =>
    match runPoolCall tag pool call envs with
    | none => none
    | some o => (runPool (tag + 1) o.pool calls).map (o :: ·)

end Prospero
