import Prospero.Protocol.Streams
import Prospero.Gateway.Remote

/-!
# Every token is relayed once

The calls of `on_token` over any sequence of exchanges on one pool, whatever the peers send.

The callbacks of the pool work on the frames of one exchange at a time, but they are installed before the
exchange: while a new connection is negotiated they still hold the state of the exchange before.  A peer
that sends a TOKEN frame with the request id of an exchange that ended without a terminal frame, right
behind its HELLO_ACK, reaches the `on_token` of that exchange.  STREAM_DATA frames may carry the kind that
the connection synthesizes for TOKEN frames, and are relayed as tokens; and the 32-bit count of relayed
slices may come back to zero.  `Attempt.Meets` excludes the three.

### Outline

* `Follows`: the state of the callbacks is a fold of `poolReact` over the events of the connection
  (`paiProtoConnPoll_follows`).
* `foldl_poolReact_generate`: the fold relays the token payloads in front of the terminal message.
* `runAttempt_cases`, `runAttempts_relays`: what one attempt, and one exchange, adds to the calls.
* `runPool_delivers`: every exchange of a run that meets the condition is delivered once.
-/

namespace Prospero

/-! ## What the callbacks do -/

/-- What the callbacks of the pool do at an event. -/
def poolReact (app : PoolApp) : Event → PoolApp
  | .message frame => poolOnMessage app frame
  | .streamData requestId _ kind _ data _ => poolOnStreamData app requestId kind data
  | _ => app

/-- An event that a TOKEN frame delivered has the synthesized kind. -/
def Event.Tagged : Event → Prop
  | .streamData _ _ kind _ _ token => token = true → kind = paiProtoStreamGenerate
  | _ => True

/-- `e'` comes from `e` by events that the callbacks of the pool have seen. -/
def Follows (e e' : Endpoint PoolApp) : Prop :=
  ∃ events, e'.events = e.events ++ events ∧ e'.user = events.foldl poolReact e.user ∧
    ∀ ev ∈ events, ev.Tagged

/-- Nothing happened. -/
lemma Follows.of_eq {e e' : Endpoint PoolApp} (hevents : e'.events = e.events)
    (huser : e'.user = e.user) : Follows e e' :=
  ⟨[], by rw [hevents, List.append_nil], huser, by simp⟩

/-- Nothing happened. -/
lemma Follows.refl (e : Endpoint PoolApp) : Follows e e := .of_eq rfl rfl

/-- One thing after the other. -/
lemma Follows.trans {e₁ e₂ e₃ : Endpoint PoolApp} (h : Follows e₁ e₂) (h' : Follows e₂ e₃) :
    Follows e₁ e₃ := by
  obtain ⟨a, ha, hua, hta⟩ := h
  obtain ⟨b, hb, hub, htb⟩ := h'
  refine ⟨a ++ b, ?_, ?_, ?_⟩
  · rw [hb, ha, List.append_assoc]
  · rw [hub, hua, List.foldl_append]
  · intro ev hev
    rcases List.mem_append.mp hev with hev | hev
    · exact hta ev hev
    · exact htb ev hev

/-- A callback that makes no call of its own is one event. -/
lemma follows_invoke (e : Endpoint PoolApp) (ev : Event) (u : PoolApp)
    (hu : u = poolReact e.user ev) (hev : ev.Tagged) : Follows e (invoke e ev ⟨u, []⟩) := by
  refine ⟨[ev], rfl, ?_, by simpa using hev⟩
  rw [hu]
  rfl

/-- Sending leaves the state of the callbacks alone. -/
@[simp] lemma connSendUnchecked_user {U : Type} (e : Endpoint U) (frame : Frame) :
    (connSendUnchecked e frame).1.user = e.user := by
  have hsend (e : Endpoint U) (data : List UInt8) : (transportSend e data).1.user = e.user := by
    unfold transportSend
    split_ifs <;> rfl
  unfold connSendUnchecked
  simp only
  split_ifs <;> simp [hsend]

/-- Sending is no event. -/
lemma follows_connSendUnchecked (e : Endpoint PoolApp) (frame : Frame) :
    Follows e (connSendUnchecked e frame).1 :=
  .of_eq (connSendUnchecked_events e frame) (connSendUnchecked_user e frame)

/-- Closing is an event the callbacks ignore. -/
lemma follows_connSetClosed (e : Endpoint PoolApp) (reason : UInt32) :
    Follows e (connSetClosed poolCallbacks e reason) := by
  unfold connSetClosed
  split_ifs
  · exact .refl e
  · exact ⟨[.close reason], rfl, rfl, by simp [Event.Tagged]⟩

/-- A message is handed over, and at most answered. -/
lemma follows_connStreamMessage (e : Endpoint PoolApp) (frame : Frame) :
    Follows e (connStreamMessage poolCallbacks e frame) := by
  have h : Follows e (invokeMessage poolCallbacks e frame).1 :=
    follows_invoke e (.message frame) _ rfl trivial
  unfold connStreamMessage
  simp only
  split_ifs
  · exact h.trans (follows_connSendUnchecked _ _)
  · exact h

/-- A message is handed over, and at most answered. -/
lemma follows_connHandleMessage (e : Endpoint PoolApp) (frame : Frame) :
    Follows e (connHandleMessage poolCallbacks e frame) := by
  have h : Follows e (invokeMessage poolCallbacks e frame).1 :=
    follows_invoke e (.message frame) _ rfl trivial
  unfold connHandleMessage
  simp only
  split_ifs
  · exact h.trans (follows_connSendUnchecked _ _)
  · exact h

/-! ## The connection calls nothing else -/

/-- The start of a stream is an event the callbacks ignore. -/
lemma follows_connStreamStart (e : Endpoint PoolApp) (frame : Frame) :
    Follows e (connStreamStart poolCallbacks e frame).1 := by
  unfold connStreamStart
  simp only
  split_ifs
  · exact .refl e
  · exact .refl e
  · exact .refl e
  · exact ⟨[.streamBegin frame.requestId frame.sessionId], rfl, rfl, by simp [Event.Tagged]⟩

/-- Stream content is handed over chunk by chunk. -/
lemma follows_connStreamContent {e e' : Endpoint PoolApp} {frame : Frame}
    {idx : Fin paiProtoMaxStreams}
    (h : connStreamContent poolCallbacks e frame idx = some e') : Follows e e' := by
  unfold connStreamContent at h
  split_ifs at h
  · obtain ⟨c, -, rfl⟩ := Option.map_eq_some_iff.mp h
    exact follows_invoke e (.streamData _ _ c.kind c.seq c.data false) _ rfl (by simp [Event.Tagged])
  · obtain ⟨token, -, rfl⟩ := Option.map_eq_some_iff.mp h
    have hdata : Follows e (invokeStreamData poolCallbacks e frame paiProtoStreamGenerate
        (e.conn.streamSeqs idx) token true) :=
      follows_invoke e (.streamData _ _ _ _ token true) _ rfl fun _ => rfl
    exact hdata.trans (follows_connStreamMessage _ frame)
  · obtain rfl := Option.some.inj h
    exact follows_connStreamMessage e frame
  · obtain rfl := Option.some.inj h
    exact .refl e

/-- The end of a stream is an event the callbacks ignore. -/
lemma follows_connStreamFinish (e : Endpoint PoolApp) (frame : Frame)
    (idx : Fin paiProtoMaxStreams) :
    Follows e (connStreamFinish poolCallbacks e frame idx) := by
  unfold connStreamFinish
  simp only
  split_ifs
  · exact ⟨[.streamEnd frame.requestId frame.sessionId], rfl, rfl, by simp [Event.Tagged]⟩
  · exact .of_eq rfl rfl
  · exact .refl e

/-- Stream frames. -/
lemma follows_connHandleStream (e : Endpoint PoolApp) (frame : Frame) :
    Follows e (connHandleStream poolCallbacks e frame).1 := by
  have hstart := follows_connStreamStart e frame
  unfold connHandleStream
  simp only
  split_ifs
  · exact hstart
  · cases streamIndex (connStreamStart poolCallbacks e frame).1.conn frame.requestId with
    | none => exact hstart
    | some idx =>
      simp only
      cases hcontent : connStreamContent poolCallbacks (connStreamStart poolCallbacks e frame).1
          frame idx with
      | none => exact hstart
      | some e' =>
        exact hstart.trans ((follows_connStreamContent hcontent).trans
          (follows_connStreamFinish e' frame idx))

/-- Frames before the connection is open. -/
lemma follows_connHandlePreopen (e : Endpoint PoolApp) (frame : Frame) :
    Follows e (connHandlePreopen poolCallbacks e frame).1 := by
  unfold connHandlePreopen
  cases e.conn.role with
  | server =>
    simp only
    split_ifs
    · exact .refl e
    · unfold connHandleHelloServer
      cases paiProtoMsgDecodeCaps frame.payload with
      | none => exact .refl e
      | some remote =>
        have hnack (e : Endpoint PoolApp) (t v : UInt32) (req : UInt64) (reason : UInt32) :
            Follows e (connSetClosed poolCallbacks (connSendNegotiation e t v req).1 reason) :=
          (follows_connSendUnchecked e _).trans (follows_connSetClosed _ reason)
        simp only
        split_ifs
        · exact hnack e _ _ _ _
        · exact hnack e _ _ _ _
        · exact Follows.trans (.of_eq rfl rfl) (follows_connSendUnchecked _ _)
  | client =>
    simp only
    split_ifs
    · unfold connHandleAckClient
      split_ifs
      · exact .refl e
      · cases paiProtoMsgDecodeCaps frame.payload with
        | none => exact .refl e
        | some negotiated => exact .of_eq rfl rfl
    · unfold connHandleNackClient
      exact Follows.trans (.of_eq rfl rfl) (follows_connSetClosed _ _)
    · exact .refl e

/-- Frames on an open connection. -/
lemma follows_connHandleOpen (e : Endpoint PoolApp) (frame : Frame) :
    Follows e (connHandleOpen poolCallbacks e frame).1 := by
  unfold connHandleOpen
  simp only
  by_cases hmajor : frame.major ≠ paiProtoVersionMajor.toUInt16
  · rw [if_pos hmajor]
    exact .refl e
  rw [if_neg hmajor]
  by_cases hhello : frame.msgType = paiProtoMsgHello ∨ frame.msgType = paiProtoMsgHelloAck ∨
      frame.msgType = paiProtoMsgHelloNack
  · rw [if_pos hhello]
    exact .refl e
  rw [if_neg hhello]
  by_cases hping : frame.msgType = paiProtoMsgPing
  · rw [if_pos hping]
    exact follows_connSendUnchecked e _
  rw [if_neg hping]
  by_cases hclose : frame.msgType = paiProtoMsgClose
  · rw [if_pos hclose]
    exact follows_connSetClosed e _
  rw [if_neg hclose]
  by_cases hstream : frame.isStream
  · rw [if_pos hstream]
    exact follows_connHandleStream e frame
  rw [if_neg hstream]
  by_cases hcomplete : frame.msgType = paiProtoMsgComplete
  · rw [if_pos hcomplete]
    exact Follows.trans (.of_eq rfl rfl) (follows_connHandleMessage _ frame)
  · rw [if_neg hcomplete]
    exact follows_connHandleMessage e frame

/-- A complete frame. -/
lemma follows_pollFrame (e : Endpoint PoolApp) : Follows e (pollFrame poolCallbacks e).1 := by
  have hhandle (frame : Frame) : Follows e (connHandle poolCallbacks e frame).1 := by
    unfold connHandle
    split_ifs
    · exact follows_connHandleOpen e frame
    · exact follows_connHandlePreopen e frame
  unfold pollFrame
  split_ifs
  · exact follows_connSetClosed e _
  · unfold connDispatch
    simp only
    split_ifs
    · exact (hhandle _).trans (follows_connSetClosed _ _)
    · exact (hhandle _).trans (.of_eq rfl rfl)

/-- `Follows` for a phase of the pump. -/
def PhaseFollows (e : Endpoint PoolApp) : Except (PollResult PoolApp) (Endpoint PoolApp × Rx) → Prop
  | .error r => Follows e r.endpoint
  | .ok s => Follows e s.1

/-- Phase 1. -/
lemma follows_pollHeader (cut : ℕ → ℕ) (e : Endpoint PoolApp) (rx : Rx) (frames : ℕ) :
    PhaseFollows e (pollHeader poolCallbacks cut e rx frames) := by
  unfold pollHeader
  simp only
  split_ifs
  · exact follows_connSetClosed e _
  · exact follows_connSetClosed e _
  · exact .of_eq rfl rfl
  · split
    · exact Follows.trans (.of_eq rfl rfl) (follows_connSetClosed _ _)
    · exact .of_eq rfl rfl
  · exact .refl e

/-- Phase 2. -/
lemma follows_pollPayload (cut : ℕ → ℕ) (e : Endpoint PoolApp) (rx : Rx) (frames : ℕ) :
    PhaseFollows e (pollPayload poolCallbacks cut e rx frames) := by
  unfold pollPayload
  simp only
  split_ifs
  · exact follows_connSetClosed e _
  · exact follows_connSetClosed e _
  · exact .of_eq rfl rfl
  · exact .of_eq rfl rfl
  · exact .refl e

/-- One iteration of the pump. -/
lemma follows_pollIteration (cut : ℕ → ℕ) (e : Endpoint PoolApp) (rx : Rx) (frames : ℕ) :
    PhaseFollows e (pollIteration poolCallbacks cut e rx frames) := by
  have hheader := follows_pollHeader cut e rx frames
  unfold pollIteration
  cases hh : pollHeader poolCallbacks cut e rx frames with
  | error r =>
    rw [hh] at hheader
    exact hheader
  | ok s =>
    rw [hh] at hheader
    have hpayload := follows_pollPayload cut s.1 s.2 frames
    simp only
    cases hp : pollPayload poolCallbacks cut s.1 s.2 frames with
    | error r =>
      rw [hp] at hpayload
      exact Follows.trans hheader hpayload
    | ok s' =>
      rw [hp] at hpayload
      simp only
      split_ifs
      · exact (Follows.trans hheader hpayload).trans (follows_pollFrame s'.1)
      · exact (Follows.trans hheader hpayload).trans (follows_pollFrame s'.1)

/-- **A poll hands its events to the callbacks, and does nothing else to their state.** -/
lemma paiProtoConnPoll_follows (cut : ℕ → ℕ) (e : Endpoint PoolApp) (rx : Rx) :
    Follows e (paiProtoConnPoll poolCallbacks cut e rx).endpoint := by
  have hloop (batch : ℕ) (e : Endpoint PoolApp) (rx : Rx) (frames : ℕ) :
      Follows e (pollLoop poolCallbacks cut batch e rx frames).endpoint := by
    induction batch generalizing e rx frames with
    | zero => exact .refl e
    | succ batch ih =>
      have hiteration := follows_pollIteration cut e rx frames
      unfold pollLoop
      split_ifs
      · exact .refl e
      · cases hi : pollIteration poolCallbacks cut e rx frames with
        | error r =>
          rw [hi] at hiteration
          exact hiteration
        | ok s =>
          rw [hi] at hiteration
          exact Follows.trans hiteration (ih s.1 s.2 (frames + 1))
  exact hloop paiProtoPollBatch e rx 0

/-- The sending direction is no business of the callbacks. -/
lemma follows_breakTx (broken : Bool) (e : Endpoint PoolApp) : Follows e (breakTx broken e) :=
  .of_eq rfl rfl

/-- HELLO is no event. -/
lemma follows_paiProtoConnStart (e : Endpoint PoolApp) : Follows e (paiProtoConnStart e).1 := by
  unfold paiProtoConnStart
  simp only
  split_ifs
  · exact .refl e
  · exact .of_eq (connSendUnchecked_events _ _) (connSendUnchecked_user _ _)
  · exact .of_eq (connSendUnchecked_events _ _) (connSendUnchecked_user _ _)

/-- The negotiation loop. -/
lemma follows_negotiateLoop {cut : ℕ → ℕ} {ticks : List Tick} {e e' : Endpoint PoolApp}
    {rx rx' : Rx} {st : PaiStatus} (h : negotiateLoop cut ticks e rx = some (st, e', rx')) :
    Follows e e' := by
  induction ticks generalizing e rx with
  | nil =>
    unfold negotiateLoop at h
    split_ifs at h
    obtain ⟨-, rfl, -⟩ := by simpa using h
    exact .refl e
  | cons tick ticks ih =>
    unfold negotiateLoop at h
    have hpoll := (follows_breakTx tick.broken e).trans
      (paiProtoConnPoll_follows cut (breakTx tick.broken e) rx)
    simp only at h
    split_ifs at h
    · obtain ⟨-, rfl, -⟩ := by simpa using h
      exact .refl e
    · obtain ⟨-, rfl, -⟩ := by simpa using h
      exact hpoll
    · exact hpoll.trans (ih h)
    · obtain ⟨-, rfl, -⟩ := by simpa using h
      exact .refl e

/-- The waiting loop of an exchange; it ends well only behind a terminal frame. -/
lemma exchangeLoop_follows {done : PoolApp → Bool} {cut : ℕ → ℕ} {ticks : List Tick}
    {e e' : Endpoint PoolApp} {rx rx' : Rx} {st : PaiStatus}
    (h : exchangeLoop done cut ticks e rx = some (st, e', rx')) :
    Follows e e' ∧ (st = paiOk → done e'.user = true) := by
  induction ticks generalizing e rx with
  | nil =>
    unfold exchangeLoop at h
    split_ifs at h with hdone
    obtain ⟨-, rfl, -⟩ := by simpa using h
    exact ⟨.refl e, fun _ => hdone⟩
  | cons tick ticks ih =>
    unfold exchangeLoop at h
    have hpoll := (follows_breakTx tick.broken e).trans
      (paiProtoConnPoll_follows cut (breakTx tick.broken e) rx)
    simp only at h
    split_ifs at h with hdone hlate hst hdone' hclosed
    · obtain ⟨-, rfl, -⟩ := by simpa using h
      exact ⟨.refl e, fun _ => hdone⟩
    · obtain ⟨rfl, rfl, -⟩ := by simpa using h
      exact ⟨.refl e, fun hok => absurd hok (by decide)⟩
    · obtain ⟨rfl, rfl, -⟩ := by simpa using h
      exact ⟨hpoll, fun hok => absurd hok hst⟩
    · obtain ⟨-, rfl, -⟩ := by simpa using h
      exact ⟨hpoll, fun _ => hdone'⟩
    · obtain ⟨rfl, rfl, -⟩ := by simpa using h
      exact ⟨hpoll, fun hok => absurd hok (by decide)⟩
    · obtain ⟨hfollows, hok⟩ := ih h
      exact ⟨hpoll.trans hfollows, hok⟩

/-! ## What a fold of the callbacks relays -/

/-- The C strings in which a payload reaches `on_token`. -/
def relayed (data : List UInt8) : List (List UInt8) :=
  (tokenSlices data.length data).map fun slice => slice.takeWhile (· ≠ 0)

/-- The message that ends a generate exchange: COMPLETE or ERROR. -/
def Event.EndsGenerate (requestId : UInt64) : Event → Bool
  | .message frame => frame.requestId == requestId &&
      (frame.msgType == paiProtoMsgComplete || frame.msgType == paiProtoMsgError)
  | _ => false

/-- The events in front of the one that ends the exchange. -/
def liveEvents (requestId : UInt64) (events : List Event) : List Event :=
  events.takeWhile fun ev => !ev.EndsGenerate requestId

/-- The strings an event gives `on_token` while the exchange is live. -/
def Event.strings (requestId : UInt64) : Event → List (List UInt8)
  | .streamData r _ kind _ data _ =>
    if r = requestId ∧ kind = paiProtoStreamGenerate then relayed data else []
  | _ => []

/-- The strings a sequence of events gives `on_token`. -/
def relayedStrings (requestId : UInt64) (events : List Event) : List (List UInt8) :=
  (liveEvents requestId events).flatMap (Event.strings requestId)

/-- The exchange is over. -/
def RemoteCtx.Over (c : RemoteCtx) : Prop := c.complete = true ∨ c.error = true

/-- The calls of the exchange whose `on_token` is installed. -/
def tagged (onToken : Option ℕ) (strings : List (List UInt8)) : List (ℕ × List UInt8) :=
  match onToken with
  | none => []
  | some tag => strings.map (tag, ·)

/-- The strings of two stretches. -/
lemma tagged_append (onToken : Option ℕ) (a b : List (List UInt8)) :
    tagged onToken (a ++ b) = tagged onToken a ++ tagged onToken b := by
  cases onToken <;> simp [tagged]

/-- Calls that were made, and counted. -/
def PoolApp.relay (app : PoolApp) (strings : List (ℕ × List UInt8)) : PoolApp :=
  { app with
    calls := app.calls ++ strings
    gen := { app.gen with tokens := app.gen.tokens + UInt32.ofNat strings.length } }

/-- No call. -/
@[simp] lemma PoolApp.relay_nil (app : PoolApp) : app.relay [] = app := by
  simp [PoolApp.relay]

/-- Relaying the slices of one payload. -/
lemma foldl_relaySlice (tag : ℕ) (slices : List (List UInt8)) (app : PoolApp) :
    slices.foldl (relaySlice tag) app =
      app.relay (slices.map fun slice => (tag, slice.takeWhile (· ≠ 0))) := by
  induction slices generalizing app with
  | nil => simp
  | cons slice slices ih =>
    rw [List.foldl_cons, ih]
    simp only [PoolApp.relay, relaySlice, List.map_cons, List.append_assoc, List.singleton_append,
      List.length_cons, List.length_map]
    have hcount : app.gen.tokens + 1 + UInt32.ofNat slices.length =
        app.gen.tokens + UInt32.ofNat (slices.length + 1) := by
      rw [UInt32.ofNat_add, UInt32.add_assoc, UInt32.add_comm (UInt32.ofNat slices.length)]
      rfl
    rw [hcount]

/-- A chunk relays its strings, and counts them. -/
lemma remoteOnStreamData_live {app : PoolApp} (hlive : ¬ app.gen.Over) (r : UInt64) (kind : UInt8)
    (data : List UInt8) :
    remoteOnStreamData app r kind data = app.relay (tagged app.gen.onToken
      (if r = app.gen.requestId ∧ kind = paiProtoStreamGenerate then relayed data else [])) := by
  unfold remoteOnStreamData
  by_cases hr : r = app.gen.requestId
  · have hopen : ¬ (r ≠ app.gen.requestId ∨ app.gen.complete = true ∨ app.gen.error = true) := by
      rintro (h | h | h)
      · exact h hr
      · exact hlive (Or.inl h)
      · exact hlive (Or.inr h)
    rw [if_neg hopen]
    cases app.gen.onToken with
    | none => simp [tagged]
    | some tag =>
      by_cases hkind : kind = paiProtoStreamGenerate
      · by_cases hdata : data = []
        · simp [tagged, hr, hkind, hdata, relayed, tokenSlices]
        · rw [if_pos ⟨hr, hkind⟩]
          simp only
          rw [if_neg (by simp [hkind, hdata]), foldl_relaySlice]
          simp [tagged, relayed, Function.comp_def]
      · simp [tagged, hkind]
  · rw [if_pos (Or.inl hr), if_neg (fun h => hr h.1)]
    cases app.gen.onToken <;> simp [tagged]

/-- A generate exchange that is over takes no further event. -/
lemma poolReact_of_over {app : PoolApp} (hkind : app.kind = .generate) (hover : app.gen.Over)
    (ev : Event) : poolReact app ev = app := by
  cases ev with
  | message frame =>
    have : remoteOnMessage app.gen frame = app.gen := if_pos (Or.inr hover)
    simp only [poolReact, poolOnMessage, hkind, this]
    rw [← hkind]
  | streamData r sid kind seq data token =>
    simp only [poolReact, poolOnStreamData, hkind]
    exact if_pos (Or.inr hover)
  | hello remote => rfl
  | streamBegin r sid => rfl
  | streamEnd r sid => rfl
  | close reason => rfl

/-- The kind of the exchange stays. -/
lemma poolReact_kind (app : PoolApp) (ev : Event) : (poolReact app ev).kind = app.kind := by
  cases hk : app.kind with
  | generate =>
    by_cases hover : app.gen.Over
    · rw [poolReact_of_over hk hover, hk]
    · cases ev with
      | message frame => simp only [poolReact, poolOnMessage, hk]
      | streamData r sid kind seq data token =>
        simp only [poolReact, poolOnStreamData, hk]
        rw [remoteOnStreamData_live hover]
        exact hk
      | hello remote => exact hk
      | streamBegin r sid => exact hk
      | streamEnd r sid => exact hk
      | close reason => exact hk
  | embed =>
    cases ev <;> simp [poolReact, poolOnMessage, poolOnStreamData, hk]

/-- The kind of the exchange stays. -/
lemma foldl_poolReact_kind (app : PoolApp) (events : List Event) :
    (events.foldl poolReact app).kind = app.kind := by
  induction events generalizing app with
  | nil => rfl
  | cons ev events ih => exact (ih _).trans (poolReact_kind app ev)

/-- The status of an ERROR frame is an error. -/
lemma errorFrameStatus_ne (payload : List UInt8) : errorFrameStatus payload ≠ paiOk := by
  unfold errorFrameStatus
  simp only
  by_cases h : (if payload.length < 8 then paiErrIo else (getLe32 payload 0).toInt32) ≠ paiOk
  · rw [if_pos h]
    exact h
  · rw [if_neg h]
    decide

/-! ### Generate exchanges -/

/-- The state of a generate exchange behind some events: what the events relayed is in the calls and
in the count, and the end was seen. -/
structure Relays (app : PoolApp) (events : List Event) (app' : PoolApp) : Prop where
  /-- Calls of `on_token`. -/
  calls : app'.calls =
    app.calls ++ tagged app.gen.onToken (relayedStrings app.gen.requestId events)
  /-- Their count. -/
  tokens : app'.gen.tokens = app.gen.tokens + UInt32.ofNat
    (tagged app.gen.onToken (relayedStrings app.gen.requestId events)).length
  /-- An ERROR frame leaves an error. -/
  error : app'.gen.error = true → app'.gen.errorStatus ≠ paiOk
  /-- A COMPLETE frame was received. -/
  complete : app'.gen.complete = true → ∃ frame, Event.message frame ∈ events ∧
    frame.requestId = app.gen.requestId ∧ frame.msgType = paiProtoMsgComplete

/-- What one event does to a live generate exchange. -/
lemma poolReact_live {app : PoolApp} (hkind : app.kind = .generate) (hlive : ¬ app.gen.Over)
    (ev : Event) (hev : ev.EndsGenerate app.gen.requestId = false) :
    poolReact app ev = app.relay (tagged app.gen.onToken (ev.strings app.gen.requestId)) := by
  have hnothing : app = app.relay (tagged app.gen.onToken []) := by
    cases app.gen.onToken <;> simp [tagged]
  cases ev with
  | message frame =>
    have hmessage : remoteOnMessage app.gen frame = app.gen := by
      unfold remoteOnMessage
      by_cases hr : frame.requestId = app.gen.requestId
      · simp only [Event.EndsGenerate, hr, beq_self_eq_true, Bool.true_and, Bool.or_eq_false_iff,
          beq_eq_false_iff_ne] at hev
        rw [if_neg hev.1, if_neg hev.2, ite_self]
      · exact if_pos (Or.inl hr)
    simp only [poolReact, poolOnMessage, hkind, hmessage]
    rw [← hkind]
    exact hnothing
  | streamData r sid kind seq data token =>
    simp only [poolReact, poolOnStreamData, hkind]
    exact remoteOnStreamData_live hlive r kind data
  | hello remote => exact hnothing
  | streamBegin r sid => exact hnothing
  | streamEnd r sid => exact hnothing
  | close reason => exact hnothing

/-- What the message that ends a live generate exchange does. -/
lemma poolReact_ends {app : PoolApp} (hkind : app.kind = .generate) (hlive : ¬ app.gen.Over)
    (ev : Event) (hev : ev.EndsGenerate app.gen.requestId = true) :
    (poolReact app ev).gen.Over ∧ Relays app [ev] (poolReact app ev) := by
  cases ev with
  | message frame =>
    simp only [Event.EndsGenerate, Bool.and_eq_true, beq_iff_eq, Bool.or_eq_true] at hev
    obtain ⟨hr, htype⟩ := hev
    have hfirst : ¬ (frame.requestId ≠ app.gen.requestId ∨ app.gen.complete = true ∨
        app.gen.error = true) := by
      rintro (h | h | h)
      · exact h hr
      · exact hlive (Or.inl h)
      · exact hlive (Or.inr h)
    have hstrings : relayedStrings app.gen.requestId [.message frame] = [] := by
      unfold relayedStrings liveEvents
      rcases htype with htype | htype <;>
        simp [Event.EndsGenerate, hr, htype]
    have hnone : tagged app.gen.onToken [] = [] := by
      cases app.gen.onToken <;> rfl
    simp only [poolReact, poolOnMessage, hkind]
    unfold remoteOnMessage
    rw [if_neg hfirst]
    by_cases hcomplete : frame.msgType = paiProtoMsgComplete
    · rw [if_pos hcomplete]
      refine ⟨Or.inl rfl, ?_, ?_, ?_, ?_⟩
      · simp [hstrings, hnone]
      · simp [hstrings, hnone]
      · exact fun herror => absurd (Or.inr herror) hlive
      · exact fun _ => ⟨frame, by simp, hr, hcomplete⟩
    · rw [if_neg hcomplete, if_pos (htype.resolve_left hcomplete)]
      refine ⟨Or.inr rfl, ?_, ?_, ?_, ?_⟩
      · simp [hstrings, hnone]
      · simp [hstrings, hnone]
      · exact fun _ => errorFrameStatus_ne frame.payload
      · exact fun h => absurd (Or.inl h) hlive
  | streamData r sid kind seq data token => cases hev
  | hello remote => cases hev
  | streamBegin r sid => cases hev
  | streamEnd r sid => cases hev
  | close reason => cases hev

/-- An exchange that is over takes no further events. -/
lemma foldl_poolReact_of_over {app : PoolApp} (hkind : app.kind = .generate) (hover : app.gen.Over)
    (events : List Event) : events.foldl poolReact app = app := by
  induction events with
  | nil => rfl
  | cons ev events ih => rw [List.foldl_cons, poolReact_of_over hkind hover, ih]

/-- **The events of a live generate exchange relay the payloads in front of its end.** -/
lemma foldl_poolReact_generate {app : PoolApp} (hkind : app.kind = .generate)
    (hlive : ¬ app.gen.Over) (events : List Event) :
    Relays app events (events.foldl poolReact app) := by
  -- induction on the events; the end of the exchange cuts them short
  induction events generalizing app with
  | nil =>
    refine ⟨?_, ?_, fun h => absurd (Or.inr h) hlive, fun h => absurd (Or.inl h) hlive⟩
    all_goals cases ht : app.gen.onToken <;> simp [relayedStrings, liveEvents, tagged]
  | cons ev events ih =>
    rw [List.foldl_cons]
    cases hev : ev.EndsGenerate app.gen.requestId with
    | true =>
      obtain ⟨hover, hrelays⟩ := poolReact_ends hkind hlive ev hev
      rw [foldl_poolReact_of_over ((poolReact_kind app ev).trans hkind) hover]
      have hstrings : relayedStrings app.gen.requestId (ev :: events) =
          relayedStrings app.gen.requestId [ev] := by
        simp [relayedStrings, liveEvents, hev]
      refine ⟨?_, ?_, hrelays.error, fun h => ?_⟩
      · rw [hstrings]
        exact hrelays.calls
      · rw [hstrings]
        exact hrelays.tokens
      · obtain ⟨frame, hmem, hframe⟩ := hrelays.complete h
        obtain rfl := List.mem_singleton.mp hmem
        exact ⟨frame, List.mem_cons_self, hframe⟩
    | false =>
      have hstep := poolReact_live hkind hlive ev hev
      have hstrings : relayedStrings app.gen.requestId (ev :: events) =
          ev.strings app.gen.requestId ++ relayedStrings app.gen.requestId events := by
        simp [relayedStrings, liveEvents, hev]
      have hnext := @ih (poolReact app ev) ((poolReact_kind app ev).trans hkind) (by
        rw [hstep]
        exact hlive)
      have hgen : (poolReact app ev).gen.onToken = app.gen.onToken ∧
          (poolReact app ev).gen.requestId = app.gen.requestId := by
        rw [hstep]
        exact ⟨rfl, rfl⟩
      refine ⟨?_, ?_, hnext.error, fun h => ?_⟩
      · rw [hnext.calls, hgen.1, hgen.2, hstrings, tagged_append, hstep]
        simp only [PoolApp.relay, List.append_assoc]
      · rw [hnext.tokens, hgen.1, hgen.2, hstrings, tagged_append, hstep]
        simp only [PoolApp.relay, List.length_append, UInt32.ofNat_add, UInt32.add_assoc]
      · obtain ⟨frame, hmem, hr, htype⟩ := hnext.complete h
        exact ⟨frame, List.mem_cons_of_mem ev hmem, hr.trans hgen.2, htype⟩

/-! ### Embedding exchanges -/

/-- What a message does to an embedding exchange. -/
lemma embedOnMessage_cases (c : EmbedCtx) (frame : Frame) :
    (embedOnMessage c frame).requestId = c.requestId ∧
      ((embedOnMessage c frame = c) ∨
        ((embedOnMessage c frame).errorStatus ≠ paiOk ∧ (embedOnMessage c frame).got = c.got) ∨
        ((embedOnMessage c frame).error = c.error ∧
          (embedOnMessage c frame).errorStatus = c.errorStatus ∧
          frame.requestId = c.requestId ∧ frame.msgType = paiProtoMsgEmbedding)) := by
  unfold embedOnMessage
  by_cases hfirst : frame.requestId ≠ c.requestId ∨ c.got = true ∨ c.error = true
  · rw [if_pos hfirst]
    exact ⟨rfl, Or.inl rfl⟩
  rw [if_neg hfirst]
  have hr : frame.requestId = c.requestId := by
    by_contra h
    exact hfirst (Or.inl h)
  by_cases hembedding : frame.msgType = paiProtoMsgEmbedding
  · rw [if_pos hembedding]
    cases paiProtoMsgDecodeEmbedding frame.payload with
    | none => exact ⟨rfl, Or.inr (Or.inl ⟨(by decide : paiErrProtocol ≠ paiOk), rfl⟩)⟩
    | some vec => exact ⟨rfl, Or.inr (Or.inr ⟨rfl, rfl, hr, hembedding⟩)⟩
  · rw [if_neg hembedding]
    by_cases herror : frame.msgType = paiProtoMsgError
    · rw [if_pos herror]
      exact ⟨rfl, Or.inr (Or.inl ⟨errorFrameStatus_ne _, rfl⟩)⟩
    · rw [if_neg herror]
      exact ⟨rfl, Or.inl rfl⟩

/-- What one event does to an embedding exchange. -/
lemma poolReact_embed {app : PoolApp} (hkind : app.kind = .embed) (ev : Event) :
    (poolReact app ev).calls = app.calls ∧
      ((poolReact app ev).emb = app.emb ∨
        ∃ frame, ev = .message frame ∧ (poolReact app ev).emb = embedOnMessage app.emb frame) := by
  cases ev with
  | message frame =>
    have h : poolReact app (.message frame) =
        { app with
          kind := .embed
          emb := embedOnMessage app.emb frame } := by
      simp only [poolReact, poolOnMessage, hkind]
    rw [h]
    exact ⟨rfl, Or.inr ⟨frame, rfl, rfl⟩⟩
  | streamData r sid kind seq data token =>
    have h : poolReact app (.streamData r sid kind seq data token) = app := by
      simp only [poolReact, poolOnStreamData, hkind]
    rw [h]
    exact ⟨rfl, Or.inl rfl⟩
  | hello remote => exact ⟨rfl, Or.inl rfl⟩
  | streamBegin r sid => exact ⟨rfl, Or.inl rfl⟩
  | streamEnd r sid => exact ⟨rfl, Or.inl rfl⟩
  | close reason => exact ⟨rfl, Or.inl rfl⟩

/-- **The events of an embedding exchange relay nothing.** -/
lemma foldl_poolReact_embed {app : PoolApp} (hkind : app.kind = .embed)
    (herror : app.emb.error = true → app.emb.errorStatus ≠ paiOk) (events : List Event) :
    (events.foldl poolReact app).calls = app.calls ∧
      ((events.foldl poolReact app).emb.error = true →
        (events.foldl poolReact app).emb.errorStatus ≠ paiOk) ∧
      ((events.foldl poolReact app).emb.got = true → app.emb.got = true ∨
        ∃ frame, Event.message frame ∈ events ∧ frame.requestId = app.emb.requestId ∧
          frame.msgType = paiProtoMsgEmbedding) := by
  induction events generalizing app with
  | nil => exact ⟨rfl, herror, Or.inl⟩
  | cons ev events ih =>
    obtain ⟨hcalls, hemb⟩ := poolReact_embed hkind ev
    have hkind' := (poolReact_kind app ev).trans hkind
    rw [List.foldl_cons]
    rcases hemb with hemb | ⟨frame, rfl, hemb⟩
    · obtain ⟨hcalls', hstatus, hgot⟩ := @ih (poolReact app ev) hkind' (by rwa [hemb])
      refine ⟨hcalls'.trans hcalls, hstatus, fun h => ?_⟩
      rw [hemb] at hgot
      obtain h | ⟨frame, hmem, hframe⟩ := hgot h
      · exact Or.inl h
      · exact Or.inr ⟨frame, List.mem_cons_of_mem _ hmem, hframe⟩
    · obtain ⟨hreq, hcases⟩ := embedOnMessage_cases app.emb frame
      have herror' : (poolReact app (.message frame)).emb.error = true →
          (poolReact app (.message frame)).emb.errorStatus ≠ paiOk := by
        rw [hemb]
        rcases hcases with h | ⟨h, -⟩ | ⟨h, hst, -⟩
        · rwa [h]
        · exact fun _ => h
        · rwa [h, hst]
      obtain ⟨hcalls', hstatus, hgot⟩ := @ih (poolReact app (.message frame)) hkind' herror'
      refine ⟨hcalls'.trans hcalls, hstatus, fun h => ?_⟩
      rw [hemb, hreq] at hgot
      obtain h | ⟨frame', hmem, hframe⟩ := hgot h
      · rcases hcases with hc | ⟨-, hc⟩ | ⟨-, -, hframe⟩
        · exact Or.inl (by rwa [hc] at h)
        · exact Or.inl (by rwa [hc] at h)
        · exact Or.inr ⟨frame, List.mem_cons_self, hframe⟩
      · exact Or.inr ⟨frame', List.mem_cons_of_mem _ hmem, hframe⟩

/-! ## Payloads and strings -/

/-- The payload of a TOKEN frame for a request. -/
def Event.tokenPayload (requestId : UInt64) : Event → Option (List UInt8)
  | .streamData r _ _ _ data true => if r = requestId then some data else none
  | _ => none

/-- The TOKEN payloads received for a request before its terminal frame. -/
def tokenPayloads (requestId : UInt64) (events : List Event) : List (List UInt8) :=
  (liveEvents requestId events).filterMap (Event.tokenPayload requestId)

/-- A chunk for a request that no TOKEN frame carried, of the kind that TOKEN frames have. -/
def Event.Forged (requestId : UInt64) : Event → Bool
  | .streamData r _ kind _ data token =>
    r == requestId && kind == paiProtoStreamGenerate && !token && !data.isEmpty
  | _ => false

/-- Slices of a payload, joined, are the payload. -/
lemma flatten_tokenSlices (fuel : ℕ) (data : List UInt8) (h : data.length ≤ fuel) :
    (tokenSlices fuel data).flatten = data := by
  induction fuel generalizing data with
  | zero =>
    obtain rfl := List.length_eq_zero_iff.mp (Nat.le_zero.mp h)
    rfl
  | succ fuel ih =>
    unfold tokenSlices
    split_ifs with hdata
    · simp [hdata]
    · have hpos : 0 < data.length := List.length_pos_of_ne_nil hdata
      rw [List.flatten_cons, ih (data.drop (remoteTokenBuf - 1)) (by
        simp only [List.length_drop, remoteTokenBuf]
        omega), List.take_append_drop]

/-- The strings of a payload without NUL, joined, are the payload. -/
lemma flatten_relayed {data : List UInt8} (h : 0 ∉ data) : (relayed data).flatten = data := by
  have hslices : ∀ slice ∈ tokenSlices data.length data, slice.takeWhile (· ≠ 0) = slice := by
    intro slice hslice
    rw [List.takeWhile_eq_self_iff]
    intro b hb
    have hmem : b ∈ (tokenSlices data.length data).flatten := List.mem_flatten_of_mem hslice hb
    rw [flatten_tokenSlices _ _ le_rfl] at hmem
    simpa using fun hzero : b = 0 => h (hzero ▸ hmem)
  unfold relayed
  rw [List.map_congr_left hslices, List.map_id', flatten_tokenSlices _ _ le_rfl]

/-- Nothing but TOKEN payloads is relayed, unless a chunk is forged. -/
lemma relayedStrings_eq {requestId : UInt64} {events : List Event}
    (htagged : ∀ ev ∈ events, ev.Tagged)
    (hforged : ∀ ev ∈ liveEvents requestId events, ev.Forged requestId = false) :
    relayedStrings requestId events = (tokenPayloads requestId events).flatMap relayed := by
  have hlive : ∀ ev ∈ liveEvents requestId events, ev.Tagged := fun ev hev =>
    htagged ev ((List.takeWhile_sublist _).subset hev)
  unfold relayedStrings tokenPayloads
  generalize liveEvents requestId events = live at hforged hlive
  induction live with
  | nil => rfl
  | cons ev live ih =>
    rw [List.flatMap_cons, ih (fun ev hev => hforged ev (List.mem_cons_of_mem _ hev))
      (fun ev hev => hlive ev (List.mem_cons_of_mem _ hev))]
    have hev : ev.strings requestId = (ev.tokenPayload requestId).elim [] relayed := by
      have hf := hforged ev List.mem_cons_self
      have ht := hlive ev List.mem_cons_self
      cases ev with
      | streamData r sid kind seq data token =>
        unfold Event.strings
        by_cases hr : r = requestId
        · cases token with
          | true => simp [Event.tokenPayload, hr, ht rfl]
          | false =>
            by_cases hk : kind = paiProtoStreamGenerate
            · have hdata : data = [] := by simpa [Event.Forged, hr, hk] using hf
              simp [Event.tokenPayload, hdata, relayed, tokenSlices]
            · simp [Event.tokenPayload, hk]
        · cases token <;> simp [Event.tokenPayload, hr]
      | message frame => rfl
      | hello remote => rfl
      | streamBegin r sid => rfl
      | streamEnd r sid => rfl
      | close reason => rfl
    rw [hev, List.filterMap_cons]
    cases ev.tokenPayload requestId with
    | none => rfl
    | some data => rfl

/-! ## Attempts -/

/-- The `on_token` of a call. -/
def PoolCall.onToken (tag : ℕ) : PoolCall → Option ℕ
  | .generate _ _ hasCallback => if hasCallback then some tag else none
  | .embed _ => none

/-- The message that answers a call. -/
def PoolCall.reply : PoolCall → UInt32
  | .generate _ _ _ => paiProtoMsgComplete
  | .embed _ => paiProtoMsgEmbedding

/-- While the connection of the attempt was negotiated, events reached the `on_token` of an exchange that
was over. -/
def Attempt.Stale (a : Attempt) : Prop :=
  a.before.kind = .generate ∧ ¬ a.before.gen.Over ∧
    tagged a.before.gen.onToken (relayedStrings a.before.gen.requestId a.negotiation) ≠ []

/-- The condition on an attempt of a call: no stale callback, no forged chunk, and the count of slices does
not come back to zero. -/
def Attempt.Meets (call : PoolCall) (a : Attempt) : Prop :=
  ¬ a.Stale ∧ (call.onToken 0 ≠ none →
    (∀ ev ∈ liveEvents a.requestId a.received, ev.Forged a.requestId = false) ∧
      ((relayedStrings a.requestId a.received).length % 0x100000000 = 0 →
        relayedStrings a.requestId a.received = []))

/-- What one attempt of a call did. -/
structure AttemptDid (tag : ℕ) (call : PoolCall) (a : Attempt) : Prop where
  /-- The calls it added. -/
  calls : ¬ a.Stale → a.pool.endpoint.user.calls = a.before.calls ++
    tagged (call.onToken tag) (relayedStrings a.requestId a.received)
  /-- What `PAI_OK` means. -/
  ok : a.status = paiOk → ∃ frame, Event.message frame ∈ a.received ∧
    frame.requestId = a.requestId ∧ frame.msgType = call.reply
  /-- Another attempt follows only when the count is zero. -/
  retried : ∀ n, retries (call.exchange tag) a n = true →
    UInt32.ofNat (tagged (call.onToken tag) (relayedStrings a.requestId a.received)).length = 0
  /-- Chunks of TOKEN frames have their kind. -/
  kinds : ∀ ev ∈ a.received, ev.Tagged

/-- Connecting hands the events of the new connection to the callbacks. -/
lemma remoteConnectAndNegotiate_cases {pool pool' : RemotePool} {cap : UInt32} {env : AttemptEnv}
    {st : PaiStatus} (h : remoteConnectAndNegotiate pool cap env = some (pool', st)) :
    (env.connect ≠ paiOk ∧ pool' = pool ∧ st = env.connect) ∨
      (env.connect = paiOk ∧
        pool'.endpoint.user = pool'.endpoint.events.foldl poolReact pool.endpoint.user) := by
  unfold remoteConnectAndNegotiate at h
  by_cases hconnect : env.connect = paiOk
  · refine Or.inr ⟨hconnect, ?_⟩
    rw [if_neg (not_not.mpr hconnect)] at h
    have hstart : Follows (freshPoolEndpoint pool.endpoint.user)
        (paiProtoConnStart (breakTx env.helloBroken (freshPoolEndpoint pool.endpoint.user))).1 :=
      (follows_breakTx env.helloBroken _).trans (follows_paiProtoConnStart _)
    simp only at h
    split at h
    · cases h
    · rename_i st' e rx hresult
      have hend : Follows (freshPoolEndpoint pool.endpoint.user) e := by
        split_ifs at hresult
        · obtain ⟨-, rfl, -⟩ := by simpa using hresult
          exact hstart
        · exact hstart.trans (follows_negotiateLoop hresult)
      have hpool : pool'.endpoint = e := by
        split_ifs at h <;>
        · obtain ⟨rfl, -⟩ := Prod.mk.inj (Option.some.inj h)
          rfl
      obtain ⟨events, hevents, huser, -⟩ := hend
      rw [hpool, huser, hevents]
      rfl
  · rw [if_pos hconnect] at h
    obtain ⟨rfl, rfl⟩ := Prod.mk.inj (Option.some.inj h)
    exact Or.inl ⟨hconnect, rfl, rfl⟩

/-- Acquiring the connection hands the events of its negotiation to the callbacks. -/
lemma poolAcquire_calls {pool : RemotePool} {kind : RemoteKind} {env : AttemptEnv} {a : Acquired}
    (h : poolAcquire pool kind env = some a) :
    a.pool.endpoint.user.calls = (a.negotiation.foldl poolReact pool.endpoint.user).calls ∧
      (a.status = paiOk → a.pool.endpoint.user.kind = kind) := by
  unfold poolAcquire at h
  simp only at h
  by_cases hvalid : (pool.valid && decide (pool.endpoint.conn.state = ConnState.opened)) = true
  · rw [if_pos hvalid] at h
    by_cases hcap : pool.endpoint.conn.negotiatedCaps &&& kind.neededCap = 0
    · rw [if_pos hcap] at h
      obtain rfl := Option.some.inj h
      exact ⟨rfl, fun h => absurd h (by simp)⟩
    · rw [if_neg hcap] at h
      obtain rfl := Option.some.inj h
      exact ⟨rfl, fun _ => rfl⟩
  · rw [if_neg hvalid] at h
    cases hconnect : remoteConnectAndNegotiate { pool with
        valid := pool.valid && decide (pool.endpoint.conn.state = ConnState.opened) }
        kind.neededCap env with
    | none =>
      rw [hconnect] at h
      cases h
    | some r =>
      obtain ⟨pool', st⟩ := r
      rw [hconnect] at h
      simp only at h
      have hcalls : pool'.endpoint.user.calls =
          ((if env.connect ≠ paiOk then [] else pool'.endpoint.events).foldl poolReact
            pool.endpoint.user).calls := by
        rcases remoteConnectAndNegotiate_cases hconnect with ⟨hne, rfl, -⟩ | ⟨hok, huser⟩
        · rw [if_pos hne]
          rfl
        · rw [if_neg (not_not.mpr hok), huser]
      by_cases hst : st = paiOk
      · rw [if_neg (not_not.mpr hst)] at h
        obtain rfl := Option.some.inj h
        exact ⟨hcalls, fun _ => rfl⟩
      · rw [if_pos hst] at h
        obtain rfl := Option.some.inj h
        exact ⟨hcalls, fun h => absurd h hst⟩

/-- What sits between a request and its answer. -/
structure Exchange.Sound (x : Exchange) : Prop where
  /-- A reset exchange has the request id zero. -/
  setId_zero : ∀ app, x.setId 0 (x.reset app) = x.reset app
  /-- A request that is not encoded is an error. -/
  request : ∀ st, x.request = .error st → st ≠ paiOk

/-- The part of an attempt behind the acquisition: the callbacks see what is received. -/
lemma runExchange_cases {x : Exchange} (hx : x.Sound) {pool pool' : RemotePool} {env : AttemptEnv}
    {st : PaiStatus} {req : UInt64} {received : List Event}
    (h : runExchange x pool env = some (pool', st, req, received)) :
    pool'.endpoint.user = received.foldl poolReact (x.setId req (x.reset pool.endpoint.user)) ∧
      (∀ ev ∈ received, ev.Tagged) ∧
      (st = paiOk → x.done pool'.endpoint.user = true ∧ x.answer pool'.endpoint.user = paiOk) := by
  unfold runExchange at h
  simp only at h
  cases hreq : x.request with
  | error st' =>
    rw [hreq] at h
    simp only [Option.some.injEq, Prod.mk.injEq] at h
    obtain ⟨rfl, rfl, rfl, rfl⟩ := h
    exact ⟨(hx.setId_zero _).symm, by simp, fun hok => absurd hok (hx.request st' hreq)⟩
  | ok payload =>
    rw [hreq] at h
    simp only at h
    generalize hsend : paiProtoConnSend _ _ = s at h
    have hevents : s.1.user = x.setId (paiProtoConnNewRequestId pool.endpoint.conn).2
        (x.reset pool.endpoint.user) := by
      rw [← hsend]
      unfold paiProtoConnSend
      split_ifs
      · rfl
      · exact connSendUnchecked_user _ _
    by_cases hst : s.2 = paiOk
    · rw [if_neg (not_not.mpr hst)] at h
      cases hloop : exchangeLoop x.done pool.cut env.ticks s.1 pool.rx with
      | none =>
        rw [hloop] at h
        cases h
      | some r =>
        obtain ⟨st', e', rx⟩ := r
        rw [hloop] at h
        simp only [Option.some.injEq, Prod.mk.injEq] at h
        obtain ⟨rfl, rfl, rfl, rfl⟩ := h
        obtain ⟨⟨events, hgrow, huser, htagged⟩, hdone⟩ := exchangeLoop_follows hloop
        have hdrop : e'.events.drop s.1.events.length = events := by
          rw [hgrow, List.drop_left]
        rw [hdrop]
        refine ⟨huser.trans (by rw [hevents]), htagged, fun hok => ?_⟩
        by_cases hst' : st' = paiOk
        · rw [if_pos hst'] at hok
          exact ⟨hdone hst', hok⟩
        · rw [if_neg hst'] at hok
          exact absurd hok hst'
    · rw [if_pos hst] at h
      simp only [Option.some.injEq, Prod.mk.injEq] at h
      obtain ⟨rfl, rfl, rfl, rfl⟩ := h
      exact ⟨hevents, by simp, fun hok => absurd hok hst⟩

/-- The exchanges of the pool are sound. -/
lemma PoolCall.exchange_sound (tag : ℕ) (call : PoolCall) : (call.exchange tag).Sound := by
  have hblob (blob : List UInt8) (cap : ℕ) (st : PaiStatus)
      (h : encodeU16Blob blob cap = .error st) : st ≠ paiOk := by
    unfold encodeU16Blob at h
    split_ifs at h <;> obtain rfl := Except.error.inj h <;> decide
  cases call with
  | generate prompt sampler hasCallback =>
    refine ⟨fun _ => rfl, fun st h => ?_⟩
    simp only [PoolCall.exchange, generateExchange, paiProtoMsgEncodeGenerate2] at h
    cases sampler with
    | none =>
      simp only at h
      split_ifs at h
      · obtain rfl := Except.error.inj h
        decide
      · exact hblob _ _ st h
    | some s =>
      simp only at h
      split_ifs at h <;> obtain rfl := Except.error.inj h <;> decide
  | embed text => exact ⟨fun _ => rfl, fun st h => hblob _ _ st h⟩

/-- Events of a negotiation that reach no `on_token` add no call. -/
lemma foldl_poolReact_calls {app : PoolApp} {events : List Event}
    (h : ¬ (app.kind = .generate ∧ ¬ app.gen.Over ∧
      tagged app.gen.onToken (relayedStrings app.gen.requestId events) ≠ [])) :
    (events.foldl poolReact app).calls = app.calls := by
  cases hk : app.kind with
  | generate =>
    by_cases hover : app.gen.Over
    · rw [foldl_poolReact_of_over hk hover]
    · have hnone : tagged app.gen.onToken (relayedStrings app.gen.requestId events) = [] := by
        by_contra hne
        exact h ⟨hk, hover, hne⟩
      rw [(foldl_poolReact_generate hk hover events).calls, hnone, List.append_nil]
  | embed =>
    induction events generalizing app with
    | nil => rfl
    | cons ev events ih =>
      rw [List.foldl_cons, ih (by simp [poolReact_kind, hk]) ((poolReact_kind app ev).trans hk)]
      exact (poolReact_embed hk ev).1

/-- **One attempt.** -/
lemma runAttempt_did {tag : ℕ} {call : PoolCall} {pool : RemotePool} {env : AttemptEnv} {a : Attempt}
    (h : runAttempt (call.exchange tag) pool env = some a) :
    a.before = pool.endpoint.user ∧ AttemptDid tag call a := by
  unfold runAttempt at h
  cases hacq : poolAcquire pool (call.exchange tag).kind env with
  | none =>
    rw [hacq] at h
    cases h
  | some acq =>
    rw [hacq] at h
    simp only at h
    obtain ⟨hcalls, hkind⟩ := poolAcquire_calls hacq
    by_cases hst : acq.status = paiOk
    · rw [if_neg (not_not.mpr hst)] at h
      cases hrun : runExchange (call.exchange tag) acq.pool env with
      | none =>
        rw [hrun] at h
        cases h
      | some r =>
        obtain ⟨pool', st, req, received⟩ := r
        rw [hrun] at h
        obtain rfl := Option.some.inj h
        refine ⟨rfl, ?_⟩
        obtain ⟨huser, htagged, hok⟩ := runExchange_cases (call.exchange_sound tag) hrun
        have hbefore (hstale : ¬ Attempt.Stale ⟨pool.endpoint.user, { pool' with busy := false }, st,
            true, acq.negotiation, req, received⟩) :
            acq.pool.endpoint.user.calls = pool.endpoint.user.calls :=
          hcalls.trans (foldl_poolReact_calls hstale)
        cases call with
        | generate prompt sampler hasCallback =>
          have hrelays := @foldl_poolReact_generate
            ((PoolCall.exchange tag (.generate prompt sampler hasCallback)).setId req
              ((PoolCall.exchange tag (.generate prompt sampler hasCallback)).reset
                acq.pool.endpoint.user)) (hkind hst) (by simp [RemoteCtx.Over, PoolCall.exchange,
                  generateExchange, RemoteCtx.zero]) received
          rw [← huser] at hrelays
          refine ⟨fun hstale => ?_, fun hstatus => ?_, fun n hretry => ?_, htagged⟩
          · rw [← hbefore hstale]
            exact hrelays.calls
          · obtain ⟨hdone, hanswer⟩ := hok hstatus
            apply hrelays.complete
            by_contra hcomplete
            have herror : pool'.endpoint.user.gen.error = true := by
              simpa [PoolCall.exchange, generateExchange, hcomplete] using hdone
            simp only [PoolCall.exchange, generateExchange, herror, if_true] at hanswer
            exact hrelays.error herror hanswer
          · have htokens : pool'.endpoint.user.gen.tokens = 0 := by
              simp only [retries, PoolCall.exchange, generateExchange, Bool.and_eq_true,
                beq_iff_eq] at hretry
              exact hretry.2.2
            have hcount := hrelays.tokens
            rw [htokens] at hcount
            simpa [PoolCall.exchange, generateExchange, RemoteCtx.zero, PoolCall.onToken] using
              hcount.symm
        | embed text =>
          obtain ⟨hsame, herror, hgot⟩ := @foldl_poolReact_embed
            ((PoolCall.exchange tag (.embed text)).setId req
              ((PoolCall.exchange tag (.embed text)).reset acq.pool.endpoint.user))
            (hkind hst) (by simp [PoolCall.exchange, embedExchange, EmbedCtx.zero]) received
          rw [← huser] at hsame herror hgot
          refine ⟨fun hstale => ?_, fun hstatus => ?_, fun n hretry => rfl, htagged⟩
          · rw [← hbefore hstale]
            refine hsame.trans ?_
            simp [PoolCall.onToken, tagged, PoolCall.exchange, embedExchange]
          · obtain ⟨hdone, hanswer⟩ := hok hstatus
            have hnoerror : pool'.endpoint.user.emb.error = false := by
              by_contra he
              have he : pool'.endpoint.user.emb.error = true := by simpa using he
              simp only [PoolCall.exchange, embedExchange, he, if_true] at hanswer
              exact herror he hanswer
            have hgot' : pool'.endpoint.user.emb.got = true := by
              simpa [PoolCall.exchange, embedExchange, hnoerror] using hdone
            rcases hgot hgot' with hfalse | hframe
            · exact absurd hfalse (by simp [PoolCall.exchange, embedExchange, EmbedCtx.zero])
            · exact hframe
    · rw [if_pos hst] at h
      obtain rfl := Option.some.inj h
      refine ⟨rfl, ⟨fun hstale => ?_, fun hok => absurd hok hst, fun n hretry => ?_, by simp⟩⟩
      · rw [hcalls, foldl_poolReact_calls hstale]
        cases hc : call.onToken tag <;> simp [tagged, relayedStrings, liveEvents]
      · simp [retries] at hretry

/-- The strings of an exchange: those of the TOKEN payloads its last attempt received. -/
def Outcome.expected (call : PoolCall) (o : Outcome) : List (List UInt8) :=
  match call.onToken 0, o.attempts.getLast? with
  | some _, some a => (tokenPayloads a.requestId a.received).flatMap relayed
  | _, _ => []

/-- What the attempts of an exchange did. -/
structure OutcomeDid (call : PoolCall) (o : Outcome) : Prop where
  /-- At most one attempt is made again. -/
  attempts : o.attempts.length ≤ 2
  /-- An attempt that is made again has relayed nothing. -/
  retried : ∀ a ∈ o.attempts.dropLast, a.pool.endpoint.user.calls = a.before.calls
  /-- `PAI_OK` means that the last attempt received the answer. -/
  ok : o.status = paiOk → ∃ a, o.attempts.getLast? = some a ∧ ∃ frame,
    Event.message frame ∈ a.received ∧ frame.requestId = a.requestId ∧ frame.msgType = call.reply

/-- An attempt that meets the condition adds the calls of its TOKEN payloads. -/
lemma AttemptDid.calls_eq {tag : ℕ} {call : PoolCall} {a : Attempt} (h : AttemptDid tag call a)
    (hmeets : a.Meets call) {attempts : List Attempt} {st : PaiStatus} {pool : RemotePool} :
    a.pool.endpoint.user.calls = a.before.calls ++
      (Outcome.expected call ⟨attempts ++ [a], st, pool⟩).map (tag, ·) := by
  rw [h.calls hmeets.1]
  unfold Outcome.expected
  simp only [List.getLast?_concat]
  cases call with
  | generate prompt sampler hasCallback =>
    cases hasCallback with
    | true =>
      have hforged := (hmeets.2 (by simp [PoolCall.onToken])).1
      simp only [PoolCall.onToken, if_true, tagged]
      rw [relayedStrings_eq h.kinds hforged]
    | false => rfl
  | embed text => rfl

/-- An attempt that is made again has added no call. -/
lemma AttemptDid.calls_of_retries {tag : ℕ} {call : PoolCall} {a : Attempt}
    (h : AttemptDid tag call a) (hmeets : a.Meets call) {n : ℕ}
    (hretry : retries (call.exchange tag) a n = true) :
    a.pool.endpoint.user.calls = a.before.calls := by
  have hcount := h.retried n hretry
  rw [h.calls hmeets.1]
  cases hc : call.onToken tag with
  | none => simp [tagged]
  | some t =>
    have hzero : call.onToken 0 ≠ none := by
      cases call <;> simp_all [PoolCall.onToken]
    have hmod : (relayedStrings a.requestId a.received).length % 0x100000000 = 0 := by
      rw [hc] at hcount
      have := congrArg UInt32.toNat hcount
      simpa [tagged] using this
    rw [(hmeets.2 hzero).2 hmod]
    simp [tagged]

/-! ## Exchanges -/

/-- The attempts of an exchange, in the order they are made. -/
lemma runAttempts_did {tag : ℕ} {call : PoolCall} {envs : List AttemptEnv} {n : ℕ} (hn : n ≤ 2)
    {pool : RemotePool} {attempts : List Attempt}
    (h : runAttempts (call.exchange tag) envs n pool = some attempts)
    (hmeets : ∀ a ∈ attempts, a.Meets call) :
    ∃ init a, attempts = init ++ [a] ∧ init.length + n ≤ 2 ∧
      (∀ b ∈ init, b.pool.endpoint.user.calls = b.before.calls) ∧
      a.before.calls = pool.endpoint.user.calls ∧ AttemptDid tag call a := by
  induction envs generalizing n pool attempts with
  | nil => cases h
  | cons env envs ih =>
    unfold runAttempts at h
    cases hrun : runAttempt (call.exchange tag) pool env with
    | none =>
      rw [hrun] at h
      cases h
    | some a =>
      rw [hrun] at h
      simp only at h
      obtain ⟨hbefore, hdid⟩ := runAttempt_did hrun
      by_cases hretry : retries (call.exchange tag) a n = true
      · rw [if_pos hretry] at h
        obtain ⟨rest, hrest, rfl⟩ := Option.map_eq_some_iff.mp h
        have hlt : n < 2 := by
          simp only [retries, Bool.and_eq_true, decide_eq_true_eq] at hretry
          exact hretry.1.2
        have hsame := hdid.calls_of_retries (hmeets a List.mem_cons_self) hretry
        obtain ⟨init, b, rfl, hlen, hinit, hb, hlast⟩ := ih hlt hrest
          (fun b hb => hmeets b (List.mem_cons_of_mem a hb))
        refine ⟨a :: init, b, rfl, by rw [List.length_cons]; omega, ?_, ?_, hlast⟩
        · intro c hc
          rcases List.mem_cons.mp hc with rfl | hc
          · exact hsame
          · exact hinit c hc
        · rw [hb, ← hbefore]
          exact hsame
      · rw [if_neg hretry] at h
        obtain rfl := Option.some.inj h
        exact ⟨[], a, rfl, by simpa using hn, by simp, by rw [hbefore], hdid⟩

/-- **One call of the pool.** -/
lemma runPoolCall_did {tag : ℕ} {pool : RemotePool} {call : PoolCall} {envs : List AttemptEnv}
    {o : Outcome} (h : runPoolCall tag pool call envs = some o)
    (hmeets : ∀ a ∈ o.attempts, a.Meets call) :
    o.pool.endpoint.user.calls = pool.endpoint.user.calls ++ (o.expected call).map (tag, ·) ∧
      OutcomeDid call o := by
  unfold runPoolCall at h
  by_cases hrefused : pool.busy = true ∨ call.refused = true
  · rw [if_pos hrefused] at h
    obtain rfl := Option.some.inj h
    refine ⟨?_, by simp, by simp, fun hok => absurd hok (by simp)⟩
    cases hc : call.onToken 0 <;> simp [Outcome.expected, hc]
  · rw [if_neg hrefused] at h
    cases hrun : runAttempts (call.exchange tag) envs 1 pool with
    | none =>
      rw [hrun] at h
      cases h
    | some attempts =>
      rw [hrun] at h
      obtain ⟨a, ha, rfl⟩ := Option.map_eq_some_iff.mp h
      obtain ⟨init, b, rfl, hlen, hinit, hb, hdid⟩ := runAttempts_did (by decide) hrun hmeets
      obtain rfl : b = a := by simpa using ha
      refine ⟨?_, ?_, ?_, fun hok => ?_⟩
      · rw [← hb]
        exact hdid.calls_eq (hmeets b (by simp))
      · simp only [List.length_append, List.length_singleton]
        omega
      · intro c hc
        exact hinit c (by simpa using hc)
      · exact ⟨b, by simp, hdid.ok hok⟩

/-- The calls of `on_token` when a run is over. -/
def runLog (pool : RemotePool) (outcomes : List Outcome) : List (ℕ × List UInt8) :=
  ((outcomes.getLast?.map Outcome.pool).getD pool).endpoint.user.calls

/-- The strings that the `on_token` of exchange `tag` was given. -/
def stringsOf (tag : ℕ) (log : List (ℕ × List UInt8)) : List (List UInt8) :=
  (log.filter fun c => c.1 == tag).map Prod.snd

/-- The calls of one exchange, and of none other. -/
lemma stringsOf_map (tag k : ℕ) (strings : List (List UInt8)) :
    stringsOf k (strings.map (tag, ·)) = if tag = k then strings else [] := by
  unfold stringsOf
  split_ifs with h
  · subst h
    induction strings with
    | nil => rfl
    | cons s strings ih => simpa using ih
  · induction strings with
    | nil => rfl
    | cons s strings ih => simp [h]

/-- The run behind its first exchange. -/
lemma runLog_cons (pool : RemotePool) (o : Outcome) (outcomes : List Outcome) :
    runLog pool (o :: outcomes) = runLog o.pool outcomes := by
  unfold runLog
  cases outcomes with
  | nil => rfl
  | cons o' outcomes =>
    rw [List.getLast?_cons_cons, List.getLast?_cons]
    rfl

/-- The calls of a run, exchange by exchange. -/
lemma runPool_log {tag : ℕ} {pool : RemotePool} {calls : List (PoolCall × List AttemptEnv)}
    {outcomes : List Outcome} (h : runPool tag pool calls = some outcomes)
    (hmeets : ∀ p ∈ calls.zip outcomes, ∀ a ∈ p.2.attempts, a.Meets p.1.1) :
    ∃ added, runLog pool outcomes = pool.endpoint.user.calls ++ added ∧
      (∀ c ∈ added, tag ≤ c.1) ∧
      ∀ (k : ℕ) (c : PoolCall × List AttemptEnv) (o : Outcome), calls[k]? = some c →
        outcomes[k]? = some o → stringsOf (tag + k) added = o.expected c.1 ∧ OutcomeDid c.1 o := by
  induction calls generalizing tag pool outcomes with
  | nil =>
    obtain rfl := Option.some.inj h
    exact ⟨[], by simp [runLog], by simp, by simp⟩
  | cons c calls ih =>
    obtain ⟨call, envs⟩ := c
    unfold runPool at h
    cases hrun : runPoolCall tag pool call envs with
    | none =>
      rw [hrun] at h
      cases h
    | some o =>
      rw [hrun] at h
      obtain ⟨rest, hrest, rfl⟩ := Option.map_eq_some_iff.mp h
      have hmeets' : ∀ a ∈ o.attempts, a.Meets call :=
        hmeets ((call, envs), o) (by simp [List.zip_cons_cons])
      obtain ⟨hcalls, hdid⟩ := runPoolCall_did hrun hmeets'
      obtain ⟨added, hadded, htags, hsteps⟩ := ih hrest
        (fun p hp => hmeets p (by
          rw [List.zip_cons_cons]
          exact List.mem_cons_of_mem _ hp))
      refine ⟨(o.expected call).map (tag, ·) ++ added, ?_, ?_, ?_⟩
      · rw [runLog_cons, hadded, hcalls, List.append_assoc]
      · intro c hc
        rcases List.mem_append.mp hc with hc | hc
        · obtain ⟨s, -, rfl⟩ := List.mem_map.mp hc
          exact le_rfl
        · exact (Nat.le_succ tag).trans (htags c hc)
      · have happend (k : ℕ) : stringsOf k ((o.expected call).map (tag, ·) ++ added) =
            stringsOf k ((o.expected call).map (tag, ·)) ++ stringsOf k added := by
          simp [stringsOf]
        intro k c o' hc ho
        rw [happend, stringsOf_map]
        cases k with
        | zero =>
          simp only [List.getElem?_cons_zero, Option.some.injEq] at hc ho
          subst hc ho
          have hnone : stringsOf (tag + 0) added = [] := by
            unfold stringsOf
            rw [List.map_eq_nil_iff, List.filter_eq_nil_iff]
            intro c hc
            have := htags c hc
            simp
            omega
          rw [hnone, if_pos (show tag = tag + 0 from rfl), List.append_nil]
          exact ⟨rfl, hdid⟩
        | succ k =>
          simp only [List.getElem?_cons_succ] at hc ho
          rw [if_neg (by omega), List.nil_append]
          have := hsteps k c o' hc ho
          rwa [show tag + 1 + k = tag + (k + 1) by omega] at this

/-! ## Every run -/

/-- What holds of an exchange when the run is over: the calls of its `on_token` are the strings of the
TOKEN payloads received for its request, and its attempts were as they should be. -/
structure Delivered (log : List (ℕ × List UInt8)) (tag : ℕ) (call : PoolCall) (o : Outcome) :
    Prop where
  /-- The calls, in order. -/
  calls : stringsOf tag log = o.expected call
  /-- Their bytes, when the payloads hold no NUL. -/
  bytes : ∀ a, call.onToken 0 ≠ none → o.attempts.getLast? = some a →
    (∀ payload ∈ tokenPayloads a.requestId a.received, 0 ∉ payload) →
    (stringsOf tag log).flatten = (tokenPayloads a.requestId a.received).flatten
  /-- The attempts. -/
  did : OutcomeDid call o

/-- The claim: every exchange of the run is delivered. -/
def RunDelivered (calls : List (PoolCall × List AttemptEnv)) (outcomes : List Outcome) : Prop :=
  ∀ (k : ℕ) (c : PoolCall × List AttemptEnv) (o : Outcome), calls[k]? = some c →
    outcomes[k]? = some o → Delivered (runLog paiRemotePoolCreate outcomes) k c.1 o

/-- **Every exchange of a run is delivered once**, whatever the peers send, when its attempts meet the
condition. -/
theorem runPool_delivers (calls : List (PoolCall × List AttemptEnv)) (outcomes : List Outcome)
    (h : runPool 0 paiRemotePoolCreate calls = some outcomes)
    (hmeets : ∀ p ∈ calls.zip outcomes, ∀ a ∈ p.2.attempts, a.Meets p.1.1) :
    RunDelivered calls outcomes := by
  obtain ⟨added, hlog, -, hsteps⟩ := runPool_log h hmeets
  intro k c o hc ho
  obtain ⟨hstrings, hdid⟩ := hsteps k c o hc ho
  have hall : stringsOf k (runLog paiRemotePoolCreate outcomes) = o.expected c.1 := by
    rw [hlog, ← hstrings, Nat.zero_add]
    rfl
  refine ⟨hall, fun a hcallback hlast hnul => ?_, hdid⟩
  rw [hall]
  unfold Outcome.expected
  rw [hlast]
  obtain ⟨t, ht⟩ := Option.ne_none_iff_exists'.mp hcallback
  rw [ht]
  simp only
  rw [List.flatMap_def, List.flatten_flatten, List.map_map]
  congr 1
  refine (List.map_congr_left fun payload hp => ?_).trans (List.map_id _)
  exact flatten_relayed (hnul payload hp)

/-! ### Two runs -/

instance (c : RemoteCtx) : Decidable c.Over := inferInstanceAs (Decidable (_ ∨ _))

instance (a : Attempt) : Decidable a.Stale := inferInstanceAs (Decidable (_ ∧ _ ∧ _))

instance (call : PoolCall) (a : Attempt) : Decidable (a.Meets call) :=
  inferInstanceAs (Decidable (_ ∧ (_ → _)))

/-- The bytes of a frame. -/
def sentFrame (frame : Frame) : List UInt8 := frameHeader frame ++ frame.payload

/-- A HELLO_ACK that agrees to everything. -/
def sampleAck : List UInt8 :=
  sentFrame ⟨0, paiProtoMsgHelloAck, paiProtoFlagReply, 1, 0, paiProtoMsgEncodeCaps paiProtoCapKnown⟩

/-- A TOKEN frame that starts a stream, with one byte of text. -/
def startToken (requestId : UInt64) (text : UInt8) : List UInt8 :=
  sentFrame ⟨0, paiProtoMsgToken, paiProtoFlagStreamStart, requestId, 0, [1, 0, text]⟩

/-- One exchange: an old TOKEN, one for the request, and COMPLETE. -/
def answeredRun : List (PoolCall × List AttemptEnv) :=
  [(.generate [104, 105] none true,
    [{ connect := paiOk
       peer := ⟨sampleAck ++ startToken 7 120 ++ startToken 2 97 ++
          sentFrame ⟨0, paiProtoMsgComplete, 0, 2, 0, []⟩, true,
          fun k => if k = 2 then 0 else 64⟩
       helloBroken := false
       negotiation := [⟨false, false⟩]
       requestBroken := false
       ticks := [⟨false, false⟩] }])]

/-- A run that meets the condition. -/
theorem answeredRun_delivered :
    ∃ outcomes, runPool 0 paiRemotePoolCreate answeredRun = some outcomes ∧
      runLog paiRemotePoolCreate outcomes = [(0, [97])] ∧ RunDelivered answeredRun outcomes := by
  have h : (runPool 0 paiRemotePoolCreate answeredRun).any (fun outcomes =>
      decide (runLog paiRemotePoolCreate outcomes = [(0, [97])] ∧
        ∀ p ∈ answeredRun.zip outcomes, ∀ a ∈ p.2.attempts, a.Meets p.1.1)) = true := by
    decide +kernel
  obtain ⟨outcomes, hrun, hall⟩ := (Option.any_eq_true _ _).mp h
  have hall := of_decide_eq_true hall
  exact ⟨outcomes, hrun, hall.1, runPool_delivers answeredRun outcomes hrun hall.2⟩

/-- Two exchanges.  The peer closes the first connection behind one TOKEN; on the second one it sends a
TOKEN with the old request id right behind HELLO_ACK. -/
def staleRun : List (PoolCall × List AttemptEnv) :=
  [(.generate [104, 105] none true,
    [{ connect := paiOk
       peer := ⟨sampleAck ++ startToken 2 97, true, fun k => if k = 2 then 0 else 64⟩
       helloBroken := false
       negotiation := [⟨false, false⟩]
       requestBroken := false
       ticks := [⟨false, false⟩] }]),
   (.generate [104, 105] none true,
    [{ connect := paiOk
       peer := ⟨sampleAck ++ startToken 2 120, false, fun _ => 64⟩
       helloBroken := false
       negotiation := [⟨false, false⟩]
       requestBroken := false
       ticks := [⟨true, false⟩] }])]

/-- The `on_token` of the first exchange is called while the connection for the second is negotiated. -/
theorem staleRun_not_delivered :
    ∃ outcomes, runPool 0 paiRemotePoolCreate staleRun = some outcomes ∧
      runLog paiRemotePoolCreate outcomes = [(0, [97]), (0, [120])] ∧
      ¬ RunDelivered staleRun outcomes := by
  have h : (runPool 0 paiRemotePoolCreate staleRun).any (fun outcomes =>
      decide (runLog paiRemotePoolCreate outcomes = [(0, [97]), (0, [120])] ∧
        outcomes[0]?.map (Outcome.expected (.generate [104, 105] none true)) = some [[97]])) =
      true := by
    decide +kernel
  obtain ⟨outcomes, hrun, hall⟩ := (Option.any_eq_true _ _).mp h
  obtain ⟨hlog, hexpected⟩ := of_decide_eq_true hall
  refine ⟨outcomes, hrun, hlog, fun hdelivered => ?_⟩
  obtain ⟨o, ho, hstrings⟩ := Option.map_eq_some_iff.mp hexpected
  have hcalls := (hdelivered 0 _ o rfl ho).calls
  rw [hlog] at hcalls
  exact absurd (hcalls.trans hstrings) (by decide)

end Prospero
