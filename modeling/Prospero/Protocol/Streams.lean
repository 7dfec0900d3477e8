import Mathlib
import Prospero.Protocol.Poll

/-!
# The stream callback protocol

What the application sees of inbound streams: for each request id the `on_stream_begin`,
`on_stream_data` and `on_stream_end` calls should follow `(begin data* end)*`, with TOKEN chunks
numbered from zero in each stream.  `StreamLaw` says so, one automaton (`streamPhase`) per id.

The law fails on two kinds of frames.  Slot value `0` marks a free slot of the stream table, so a
stream frame with request id `0` finds a slot although no stream was begun (`ZeroIdFrame`); and
COMPLETE frees the slot of its stream without calling `on_stream_end`, so a later STREAM_START
for that id begins a second stream inside the first (`SilentRestart`).  `streamLaw_iff` shows that
these two are the only ways: a run keeps the law exactly when no frame of it is of either kind.
-/

namespace Prospero

variable {U : Type}

/-! ## The law -/

/-- Where the callbacks of one request id stand. -/
inductive StreamPhase where
  /-- No stream has begun, or the last one has ended. -/
  | idle
  /-- A stream has begun and not ended; `tokens` TOKEN chunks were delivered since. -/
  | live (tokens : ℕ)
deriving DecidableEq

/-- One callback seen by the automaton of request id `rid`; `none` is a violation. -/
def streamPhaseStep (rid : UInt64) : Option StreamPhase → Event → Option StreamPhase
  | none, _ => none
  | some p, .streamBegin r _ =>
    if r ≠ rid then some p
    else if rid = 0 then none
    else
      match p with
      | .idle => some (.live 0)
      | .live _ => none
  | some p, .streamData r _ _ seq _ token =>
    if r ≠ rid then some p
    else
      match p with
      | .idle => none
      | .live k =>
        if token then (if seq = UInt32.ofNat k then some (.live (k + 1)) else none)
        else some (.live k)
  | some p, .streamEnd r _ =>
    if r ≠ rid then some p
    else
      match p with
      | .idle => none
      | .live _ => some .idle
  | some p, _ => some p

/-- The automaton of request id `rid` after a sequence of callbacks. -/
def streamPhase (rid : UInt64) (events : List Event) : Option StreamPhase :=
  events.foldl (streamPhaseStep rid) (some .idle)

/-- The stream callbacks follow the protocol, for every request id. -/
def StreamLaw (events : List Event) : Prop :=
  ∀ rid, streamPhase rid events ≠ none

/-! ## Runs over received frames -/

/-- A connection takes one complete frame from its peer; a closed one ignores it. -/
def recvFrame (cb : Callbacks U) (e : Endpoint U) (frame : Frame) : Endpoint U :=
  if e.conn.state = .closed then e else (connDispatch cb e frame).1

/-- A connection takes a sequence of frames. -/
def recvFrames (cb : Callbacks U) (e : Endpoint U) (frames : List Frame) : Endpoint U :=
  frames.foldl (recvFrame cb) e

/-- The frame reaches `conn_handle_stream` or the COMPLETE branch: the connection is open and the
major version matches. -/
def Conn.Dispatches (conn : Conn) (frame : Frame) : Prop :=
  conn.state = .opened ∧ frame.major = paiProtoVersionMajor.toUInt16

/-- The content of a stream frame decodes. -/
def Frame.contentDecodes (frame : Frame) : Prop :=
  (frame.msgType = paiProtoMsgStreamData → (paiProtoMsgDecodeStreamData frame.payload).isSome) ∧
    (frame.msgType = paiProtoMsgToken → (paiProtoMsgDecodeToken frame.payload).isSome)

/-- The stream table has a free slot. -/
def Conn.hasFreeSlot (conn : Conn) : Prop := (streamIndex conn 0).isSome

/-- A well-formed stream frame with request id `0` and no STREAM_START, while a slot is free. -/
def ZeroIdFrame (conn : Conn) (frame : Frame) : Prop :=
  conn.Dispatches frame ∧ frame.isStream ∧ frame.flags &&& paiProtoFlagStreamStart = 0 ∧
    frame.requestId = 0 ∧ conn.hasFreeSlot ∧ frame.contentDecodes

/-- A STREAM_START for an id in `silent`, while a slot is free. -/
def SilentRestart (conn : Conn) (silent : List UInt64) (frame : Frame) : Prop :=
  conn.Dispatches frame ∧ frame.isStream ∧ frame.flags &&& paiProtoFlagStreamStart ≠ 0 ∧
    frame.requestId ∈ silent ∧ conn.hasFreeSlot

/-- A COMPLETE for the open stream of a request id. -/
def CompletesStream (conn : Conn) (frame : Frame) : Prop :=
  conn.Dispatches frame ∧ frame.msgType = paiProtoMsgComplete ∧ frame.requestId ≠ 0 ∧
    (streamIndex conn frame.requestId).isSome

instance (conn : Conn) (frame : Frame) : Decidable (conn.Dispatches frame) :=
  inferInstanceAs (Decidable (_ ∧ _))

instance (conn : Conn) (frame : Frame) : Decidable (CompletesStream conn frame) :=
  inferInstanceAs (Decidable (_ ∧ _ ∧ _ ∧ _))

/-- The ids whose open stream a COMPLETE has closed, after one more frame. -/
def silentAfter (conn : Conn) (silent : List UInt64) (frame : Frame) : List UInt64 :=
  if CompletesStream conn frame then frame.requestId :: silent else silent

/-- No frame of the run is a `ZeroIdFrame` or a `SilentRestart` in the state it meets; `silent`
holds the ids whose open stream a COMPLETE has closed before. -/
def RunMeets (cb : Callbacks U) : Endpoint U → List UInt64 → List Frame → Prop
  | _, _, [] => True
  | e, silent, frame :: frames =>
    ¬ ZeroIdFrame e.conn frame ∧ ¬ SilentRestart e.conn silent frame ∧
      RunMeets cb (recvFrame cb e frame) (silentAfter e.conn silent frame) frames

/-! ## The automaton -/

/-- A violation stays one. -/
@[simp] theorem streamPhaseStep_none (rid : UInt64) (ev : Event) :
    streamPhaseStep rid none ev = none := rfl

/-- The automaton over a concatenation. -/
theorem streamPhase_append (rid : UInt64) (a b : List Event) :
    streamPhase rid (a ++ b) = b.foldl (streamPhaseStep rid) (streamPhase rid a) := by
  simp [streamPhase]

/-- The automaton over one more callback. -/
theorem streamPhase_concat (rid : UInt64) (events : List Event) (ev : Event) :
    streamPhase rid (events ++ [ev]) = streamPhaseStep rid (streamPhase rid events) ev := by
  simp [streamPhase]

/-- After a violation the automaton never recovers. -/
@[simp] theorem foldl_streamPhaseStep_none (rid : UInt64) (events : List Event) :
    events.foldl (streamPhaseStep rid) none = none := by
  induction events with
  | nil => rfl
  | cons ev events ih => exact ih

/-- A law that holds of a sequence holds of its prefixes. -/
theorem StreamLaw.of_initial {a b : List Event} (hp : a <+: b) (h : StreamLaw b) : StreamLaw a := by
  obtain ⟨c, rfl⟩ := hp
  intro rid hnone
  exact h rid (by rw [streamPhase_append, hnone, foldl_streamPhaseStep_none])

/-- A callback that is not a stream callback of `rid` leaves its automaton alone. -/
def Event.Foreign (rid : UInt64) : Event → Prop
  | .streamBegin r _ => r ≠ rid
  | .streamData r _ _ _ _ _ => r ≠ rid
  | .streamEnd r _ => r ≠ rid
  | _ => True

/-- The automaton of `rid` skips the callbacks of other ids. -/
theorem streamPhase_concat_of_foreign {rid : UInt64} (events : List Event) {ev : Event}
    (h : ev.Foreign rid) : streamPhase rid (events ++ [ev]) = streamPhase rid events := by
  rw [streamPhase_concat]
  cases streamPhase rid events with
  | none => rfl
  | some p => cases ev <;> simp_all [Event.Foreign, streamPhaseStep]

/-! ## What the handlers do to the stream tables -/

/-- Sending does not invoke callbacks. -/
@[simp] theorem connSendUnchecked_events (e : Endpoint U) (frame : Frame) :
    (connSendUnchecked e frame).1.events = e.events := by
  have hsend (e : Endpoint U) (data : List UInt8) : (transportSend e data).1.events = e.events := by
    unfold transportSend
    split_ifs <;> rfl
  unfold connSendUnchecked
  simp only
  split_ifs <;> simp [hsend]

/-- Public calls leave the stream tables and the record of callbacks alone. -/
theorem runApiCall_streams (e : Endpoint U) (c : ApiCall) :
    (runApiCall e c).conn.streams = e.conn.streams ∧
      (runApiCall e c).conn.streamSeqs = e.conn.streamSeqs ∧
      (runApiCall e c).events = e.events := by
  cases c with
  | send frame =>
    unfold runApiCall paiProtoConnSend
    simp only
    split_ifs <;> simp
  | newRequestId => simp [runApiCall, paiProtoConnNewRequestId]
  | sessionOpen =>
    unfold runApiCall paiProtoConnSessionOpen
    simp only
    cases h : sessionNextId (paiProtoMaxSessions + 2) e.conn with
    | none => simp
    | some r =>
      obtain ⟨conn', id⟩ := r
      have hconn := sessionNextId_conn h
      simp only
      split <;> (rw [hconn]; simp)
  | sessionClose id =>
    unfold runApiCall paiProtoConnSessionClose
    simp only
    split <;> simp

/-- A callback leaves the state and the stream tables alone and records one event, whatever calls
it makes. -/
theorem invoke_streams (e : Endpoint U) (event : Event) (r : Reaction U) :
    (invoke e event r).conn.state = e.conn.state ∧
      (invoke e event r).conn.streams = e.conn.streams ∧
      (invoke e event r).conn.streamSeqs = e.conn.streamSeqs ∧
      (invoke e event r).events = e.events ++ [event] := by
  have hcalls (calls : List ApiCall) (e : Endpoint U) :
      (calls.foldl runApiCall e).conn.state = e.conn.state ∧
        (calls.foldl runApiCall e).conn.streams = e.conn.streams ∧
        (calls.foldl runApiCall e).conn.streamSeqs = e.conn.streamSeqs ∧
        (calls.foldl runApiCall e).events = e.events := by
    induction calls generalizing e with
    | nil => simp
    | cons c calls ih =>
      obtain ⟨hs, hq, he⟩ := runApiCall_streams e c
      obtain ⟨hs', hq', hseq', he'⟩ := ih (runApiCall e c)
      rw [List.foldl_cons]
      exact ⟨hs'.trans (runApiCall_pump e c).1, hq'.trans hs, hseq'.trans hq, he'.trans he⟩
  exact hcalls r.calls { e with user := r.user, events := e.events ++ [event] }

@[simp] theorem invoke_state (e : Endpoint U) (event : Event) (r : Reaction U) :
    (invoke e event r).conn.state = e.conn.state := (invoke_streams e event r).1

@[simp] theorem invoke_connStreams (e : Endpoint U) (event : Event) (r : Reaction U) :
    (invoke e event r).conn.streams = e.conn.streams := (invoke_streams e event r).2.1

@[simp] theorem invoke_connStreamSeqs (e : Endpoint U) (event : Event) (r : Reaction U) :
    (invoke e event r).conn.streamSeqs = e.conn.streamSeqs := (invoke_streams e event r).2.2.1

@[simp] theorem invoke_events (e : Endpoint U) (event : Event) (r : Reaction U) :
    (invoke e event r).events = e.events ++ [event] := (invoke_streams e event r).2.2.2

@[simp] theorem connSendErrorReply_conn (e : Endpoint U) (orig : Frame) (status : PaiStatus) :
    (connSendErrorReply e orig status).conn = e.conn := connSendUnchecked_conn _ _

@[simp] theorem connSendErrorReply_events (e : Endpoint U) (orig : Frame) (status : PaiStatus) :
    (connSendErrorReply e orig status).events = e.events := connSendUnchecked_events _ _

/-- The stream tables and callbacks of an endpoint, as far as streams are concerned. -/
def Endpoint.streamView (e : Endpoint U) :
    (Fin paiProtoMaxStreams → UInt64) × (Fin paiProtoMaxStreams → UInt32) × List Event :=
  (e.conn.streams, e.conn.streamSeqs, e.events)

/-- Handing a frame to `on_message` records one `message` callback. -/
theorem connStreamMessage_streamView (cb : Callbacks U) (e : Endpoint U) (frame : Frame) :
    (connStreamMessage cb e frame).streamView =
      (e.conn.streams, e.conn.streamSeqs, e.events ++ [.message frame]) := by
  unfold connStreamMessage invokeMessage Endpoint.streamView
  simp only
  split_ifs <;> simp

/-- Handing a frame to `on_message` records one `message` callback. -/
theorem connHandleMessage_streamView (cb : Callbacks U) (e : Endpoint U) (frame : Frame) :
    (connHandleMessage cb e frame).streamView =
      (e.conn.streams, e.conn.streamSeqs, e.events ++ [.message frame]) := by
  unfold connHandleMessage invokeMessage Endpoint.streamView
  simp only
  split_ifs <;> simp

/-- A slot found by `stream_index` holds the id. -/
theorem streams_of_streamIndex {conn : Conn} {rid : UInt64} {i : Fin paiProtoMaxStreams}
    (h : streamIndex conn rid = some i) : conn.streams i = rid := by
  simpa using List.find?_some h

/-- `stream_index` fails exactly when no slot holds the id. -/
theorem streamIndex_eq_none_iff {conn : Conn} {rid : UInt64} :
    streamIndex conn rid = none ↔ ∀ i, conn.streams i ≠ rid := by
  simp [streamIndex]

/-! ## The invariant -/

/-- The stream tables agree with the callbacks delivered: a slot in use belongs to one live stream
and holds its next ordinal, an id without a slot is idle, except the `silent` ones whose stream was
closed without a callback. -/
structure StreamInv (streams : Fin paiProtoMaxStreams → UInt64)
    (seqs : Fin paiProtoMaxStreams → UInt32) (events : List Event) (silent : List UInt64) :
    Prop where
  /-- No id has two slots. -/
  inj : ∀ i j, streams i = streams j → streams i ≠ 0 → i = j
  /-- No stream callback was delivered for id `0`. -/
  zero : streamPhase 0 events = some .idle
  /-- A slot in use holds the ordinal of its live stream. -/
  slot : ∀ i, streams i ≠ 0 →
    ∃ k, streamPhase (streams i) events = some (.live k) ∧ seqs i = UInt32.ofNat k
  /-- An id without a slot is idle. -/
  free : ∀ r, r ≠ 0 → (∀ i, streams i ≠ r) → r ∉ silent → streamPhase r events = some .idle
  /-- A silent id has no slot and its stream never ended. -/
  mem_silent : ∀ r ∈ silent, r ≠ 0 ∧ (∀ i, streams i ≠ r) ∧
    ∃ k, streamPhase r events = some (.live k)

section StreamInv

variable {streams : Fin paiProtoMaxStreams → UInt64} {seqs : Fin paiProtoMaxStreams → UInt32}
  {events : List Event} {silent : List UInt64} {i : Fin paiProtoMaxStreams} {rid sid : UInt64}

/-- The invariant implies the law. -/
theorem StreamInv.law (h : StreamInv streams seqs events silent) : StreamLaw events := by
  intro rid
  by_cases hzero : rid = 0
  · simp [hzero, h.zero]
  by_cases hslot : ∃ i, streams i = rid
  · obtain ⟨i, rfl⟩ := hslot
    obtain ⟨k, hk, -⟩ := h.slot i hzero
    simp [hk]
  · push Not at hslot
    by_cases hsilent : rid ∈ silent
    · obtain ⟨-, -, k, hk⟩ := h.mem_silent rid hsilent
      simp [hk]
    · simp [h.free rid hzero hslot hsilent]

/-- A callback that concerns no stream keeps the invariant. -/
theorem StreamInv.concat_foreign (h : StreamInv streams seqs events silent) {ev : Event}
    (hev : ∀ r, ev.Foreign r) : StreamInv streams seqs (events ++ [ev]) silent where
  inj := h.inj
  zero := by rw [streamPhase_concat_of_foreign _ (hev 0), h.zero]
  slot i hi := by
    rw [streamPhase_concat_of_foreign _ (hev _)]
    exact h.slot i hi
  free r hr hfree hsilent := by
    rw [streamPhase_concat_of_foreign _ (hev r)]
    exact h.free r hr hfree hsilent
  mem_silent r hr := by
    rw [streamPhase_concat_of_foreign _ (hev r)]
    exact h.mem_silent r hr

/-- Beginning a stream in a free slot keeps the invariant. -/
theorem StreamInv.begin (h : StreamInv streams seqs events silent) (hrid : rid ≠ 0)
    (hnew : ∀ j, streams j ≠ rid) (hsilent : rid ∉ silent) (hslot : streams i = 0) :
    StreamInv (Function.update streams i rid) (Function.update seqs i 0)
      (events ++ [.streamBegin rid sid]) silent := by
  have hforeign {r : UInt64} (hr : r ≠ rid) :
      streamPhase r (events ++ [.streamBegin rid sid]) = streamPhase r events :=
    streamPhase_concat_of_foreign _ (Ne.symm hr)
  have hlive : streamPhase rid (events ++ [.streamBegin rid sid]) = some (.live 0) := by
    rw [streamPhase_concat, h.free rid hrid hnew hsilent]
    simp [streamPhaseStep, hrid]
  refine ⟨fun a b hab ha => ?_, ?_, fun a ha => ?_, fun r hr hfree hs => ?_, fun r hr => ?_⟩
  · by_cases hai : a = i <;> by_cases hbi : b = i
    · exact hai.trans hbi.symm
    · simp only [hai, Function.update_self, Function.update_of_ne hbi] at hab
      exact absurd hab.symm (hnew b)
    · simp only [hbi, Function.update_self, Function.update_of_ne hai] at hab
      exact absurd hab (hnew a)
    · simp only [Function.update_of_ne hai, Function.update_of_ne hbi] at hab ha
      exact h.inj a b hab ha
  · rw [hforeign hrid.symm, h.zero]
  · by_cases hai : a = i
    · rw [hai, Function.update_self, Function.update_self]
      exact ⟨0, hlive, rfl⟩
    · rw [Function.update_of_ne hai] at ha ⊢
      rw [Function.update_of_ne hai, hforeign (hnew a)]
      exact h.slot a ha
  · have hr' : r ≠ rid := fun heq => hfree i (by rw [Function.update_self, heq])
    rw [hforeign hr']
    refine h.free r hr (fun j hj => ?_) hs
    by_cases hji : j = i
    · exact hr (by rw [← hj, hji, hslot])
    · exact hfree j (by rw [Function.update_of_ne hji, hj])
  · obtain ⟨hr0, hno, hk⟩ := h.mem_silent r hr
    have hr' : r ≠ rid := fun heq => hsilent (heq ▸ hr)
    rw [hforeign hr']
    refine ⟨hr0, fun j => ?_, hk⟩
    by_cases hji : j = i
    · rw [hji, Function.update_self]
      exact hr'.symm
    · rw [Function.update_of_ne hji]
      exact hno j

/-- A callback for the live stream in slot `i` that leaves it live keeps the invariant, with the
ordinal the slot then holds. -/
theorem StreamInv.data (h : StreamInv streams seqs events silent) (hslot : streams i = rid)
    (hrid : rid ≠ 0) {ev : Event} {q : UInt32} (hforeign : ∀ r, r ≠ rid → ev.Foreign r)
    (hstep : ∀ k, seqs i = UInt32.ofNat k → ∃ k',
      streamPhaseStep rid (some (.live k)) ev = some (.live k') ∧ q = UInt32.ofNat k') :
    StreamInv streams (Function.update seqs i q) (events ++ [ev]) silent := by
  have hskip {r : UInt64} (hr : r ≠ rid) : streamPhase r (events ++ [ev]) = streamPhase r events :=
    streamPhase_concat_of_foreign _ (hforeign r hr)
  refine ⟨h.inj, ?_, fun a ha => ?_, fun r hr hfree hs => ?_, fun r hr => ?_⟩
  · rw [hskip hrid.symm, h.zero]
  · by_cases hai : a = i
    · obtain ⟨k, hk, hq⟩ := h.slot a ha
      rw [hai] at hq
      obtain ⟨k', hk', hq'⟩ := hstep k hq
      rw [hai, hslot] at hk
      refine ⟨k', ?_, ?_⟩
      · rw [hai, hslot, streamPhase_concat, hk, hk']
      · rw [hai, Function.update_self, hq']
    · have hne : streams a ≠ rid := fun heq =>
        hai (h.inj a i (heq.trans hslot.symm) ha)
      rw [hskip hne, Function.update_of_ne hai]
      exact h.slot a ha
  · have hr' : r ≠ rid := fun heq => hfree i (hslot.trans heq.symm)
    rw [hskip hr']
    exact h.free r hr hfree hs
  · obtain ⟨hr0, hno, hk⟩ := h.mem_silent r hr
    have hr' : r ≠ rid := fun heq => hno i (hslot.trans heq.symm)
    rw [hskip hr']
    exact ⟨hr0, hno, hk⟩

/-- Freeing slot `i` keeps what the invariant says of the other ids. -/
theorem StreamInv.free_slot (h : StreamInv streams seqs events silent) (hslot : streams i = rid)
    (hrid : rid ≠ 0) {events' : List Event} {silent' : List UInt64}
    (hphase : ∀ r, r ≠ rid → streamPhase r events' = streamPhase r events)
    (hmem : ∀ r, r ≠ rid → (r ∈ silent' ↔ r ∈ silent))
    (hown : rid ∉ silent' ∧ streamPhase rid events' = some .idle ∨
      rid ∈ silent' ∧ ∃ k, streamPhase rid events' = some (.live k)) :
    StreamInv (Function.update streams i 0) (Function.update seqs i 0) events' silent' := by
  have hother (j : Fin paiProtoMaxStreams) (hj : j ≠ i) (hz : streams j ≠ 0) : streams j ≠ rid :=
    fun heq => hj (h.inj j i (heq.trans hslot.symm) hz)
  refine ⟨fun a b hab ha => ?_, ?_, fun a ha => ?_, fun r hr hfree hs => ?_, fun r hr => ?_⟩
  · by_cases hai : a = i
    · rw [hai, Function.update_self] at ha
      exact absurd rfl ha
    by_cases hbi : b = i
    · rw [hbi, Function.update_self] at hab
      exact absurd hab ha
    · simp only [Function.update_of_ne hai, Function.update_of_ne hbi] at hab ha
      exact h.inj a b hab ha
  · rw [hphase 0 hrid.symm, h.zero]
  · by_cases hai : a = i
    · rw [hai, Function.update_self] at ha
      exact absurd rfl ha
    · rw [Function.update_of_ne hai] at ha ⊢
      rw [Function.update_of_ne hai, hphase _ (hother a hai ha)]
      exact h.slot a ha
  · by_cases hrr : r = rid
    · rw [hrr] at hs ⊢
      exact (hown.resolve_right fun hr => hs hr.1).2
    · rw [hphase r hrr]
      refine h.free r hr (fun j hj => ?_) fun hmem' => hs ((hmem r hrr).mpr hmem')
      have hji : j ≠ i := fun hji => hrr (by rw [← hj, hji, hslot])
      exact hfree j (by rw [Function.update_of_ne hji, hj])
  · by_cases hrr : r = rid
    · rw [hrr] at hr ⊢
      refine ⟨hrid, fun j => ?_, (hown.resolve_left fun h => h.1 hr).2⟩
      by_cases hji : j = i
      · rw [hji, Function.update_self]
        exact hrid.symm
      · rw [Function.update_of_ne hji]
        exact fun heq => hji (h.inj j i (heq.trans hslot.symm) (heq ▸ hrid))
    · obtain ⟨hr0, hno, hk⟩ := h.mem_silent r ((hmem r hrr).mp hr)
      rw [hphase r hrr]
      refine ⟨hr0, fun j => ?_, hk⟩
      by_cases hji : j = i
      · rw [hji, Function.update_self]
        exact hr0.symm
      · rw [Function.update_of_ne hji]
        exact hno j

/-- The phase of the id in slot `i` is live. -/
theorem StreamInv.live_of_slot (h : StreamInv streams seqs events silent) (hslot : streams i = rid)
    (hrid : rid ≠ 0) : ∃ k, streamPhase rid events = some (.live k) := by
  obtain ⟨k, hk, -⟩ := h.slot i (hslot ▸ hrid)
  exact ⟨k, hslot ▸ hk⟩

/-- Ending the stream in slot `i` with its callback keeps the invariant. -/
theorem StreamInv.end (h : StreamInv streams seqs events silent) (hslot : streams i = rid)
    (hrid : rid ≠ 0) :
    StreamInv (Function.update streams i 0) (Function.update seqs i 0)
      (events ++ [.streamEnd rid sid]) silent := by
  obtain ⟨k, hk⟩ := h.live_of_slot hslot hrid
  refine h.free_slot hslot hrid
    (fun r hr => streamPhase_concat_of_foreign _ (Ne.symm hr)) (fun _ _ => Iff.rfl)
    (Or.inl ⟨fun hmem => (h.mem_silent rid hmem).2.1 i hslot, ?_⟩)
  rw [streamPhase_concat, hk]
  simp [streamPhaseStep]

/-- Freeing slot `i` without a callback keeps the invariant, with the id now silent. -/
theorem StreamInv.complete (h : StreamInv streams seqs events silent) (hslot : streams i = rid)
    (hrid : rid ≠ 0) :
    StreamInv (Function.update streams i 0) (Function.update seqs i 0) events (rid :: silent) :=
  h.free_slot hslot hrid (fun _ _ => rfl) (fun r hr => by simp [hr])
    (Or.inr ⟨List.mem_cons_self, h.live_of_slot hslot hrid⟩)

end StreamInv

/-! ## Handlers keep the invariant -/

/-- The stream invariant of an endpoint. -/
def Endpoint.Inv (e : Endpoint U) (silent : List UInt64) : Prop :=
  StreamInv e.conn.streams e.conn.streamSeqs e.events silent

/-- The invariant only looks at the stream view. -/
theorem Endpoint.Inv.of_streamView {e : Endpoint U} {silent : List UInt64}
    {streams : Fin paiProtoMaxStreams → UInt64} {seqs : Fin paiProtoMaxStreams → UInt32}
    {events : List Event} (hview : e.streamView = (streams, seqs, events))
    (h : StreamInv streams seqs events silent) : e.Inv silent := by
  simp only [Endpoint.streamView, Prod.mk.injEq] at hview
  obtain ⟨rfl, rfl, rfl⟩ := hview
  exact h

/-- Under the invariant `stream_index` finds the slot of an id. -/
theorem streamIndex_of_slot {e : Endpoint U} {silent : List UInt64} (h : e.Inv silent)
    {i : Fin paiProtoMaxStreams} {rid : UInt64} (hslot : e.conn.streams i = rid) (hrid : rid ≠ 0) :
    streamIndex e.conn rid = some i := by
  cases hidx : streamIndex e.conn rid with
  | none => exact absurd hslot (streamIndex_eq_none_iff.mp hidx i)
  | some j =>
    have hj := streams_of_streamIndex hidx
    rw [h.inj j i (hj.trans hslot.symm) (hj ▸ hrid)]

/-- The STREAM_START part either does nothing, rejects the frame, or begins a stream. -/
theorem connStreamStart_cases (cb : Callbacks U) (e : Endpoint U) (frame : Frame) :
    (frame.flags &&& paiProtoFlagStreamStart = 0 ∧ connStreamStart cb e frame = (e, paiOk)) ∨
      (frame.flags &&& paiProtoFlagStreamStart ≠ 0 ∧ (connStreamStart cb e frame).1 = e ∧
        (connStreamStart cb e frame).2 ≠ paiOk) ∨
      (frame.flags &&& paiProtoFlagStreamStart ≠ 0 ∧ (connStreamStart cb e frame).2 = paiOk ∧
        frame.requestId ≠ 0 ∧ (∀ j, e.conn.streams j ≠ frame.requestId) ∧
        ∃ i, streamIndex e.conn 0 = some i ∧ (connStreamStart cb e frame).1.streamView =
          (Function.update e.conn.streams i frame.requestId, Function.update e.conn.streamSeqs i 0,
            e.events ++ [.streamBegin frame.requestId frame.sessionId])) := by
  unfold connStreamStart streamBegin
  by_cases hstart : frame.flags &&& paiProtoFlagStreamStart = 0
  · simp [hstart]
  by_cases hrid : frame.requestId = 0
  · right; left
    simp [hstart, hrid]
  cases hidx : streamIndex e.conn frame.requestId with
  | some j =>
    right; left
    simp [hstart, hrid]
  | none =>
    have hnew := streamIndex_eq_none_iff.mp hidx
    cases hfree : streamIndex e.conn 0 with
    | none =>
      right; left
      simp [hstart, hrid]
    | some i =>
      right; right
      simp [hstart, hrid, hnew, Endpoint.streamView, Conn.setStream]

/-- The callbacks of the content part of a stream frame, in order. -/
def contentEvents (e : Endpoint U) (frame : Frame) (idx : Fin paiProtoMaxStreams) : List Event :=
  if frame.msgType = paiProtoMsgStreamData then
    match paiProtoMsgDecodeStreamData frame.payload with
    | some c => [.streamData frame.requestId frame.sessionId c.kind c.seq c.data false]
    | none => []
  else if frame.msgType = paiProtoMsgToken then
    match paiProtoMsgDecodeToken frame.payload with
    | some t => [.streamData frame.requestId frame.sessionId paiProtoStreamGenerate
        (e.conn.streamSeqs idx) t true, .message frame]
    | none => []
  else [.message frame]

/-- The content part of a stream frame succeeds when the content decodes; it leaves the tables
alone and makes its callbacks. -/
theorem connStreamContent_cases (cb : Callbacks U) (e : Endpoint U) (frame : Frame)
    (idx : Fin paiProtoMaxStreams) (hstream : frame.isStream) :
    (¬ frame.contentDecodes ∧ connStreamContent cb e frame idx = none) ∨
      (frame.contentDecodes ∧ ∃ e', connStreamContent cb e frame idx = some e' ∧
        e'.streamView =
          (e.conn.streams, e.conn.streamSeqs, e.events ++ contentEvents e frame idx)) := by
  have hne₁ : paiProtoMsgToken ≠ paiProtoMsgStreamData := by decide
  have hne₂ : paiProtoMsgStreamClose ≠ paiProtoMsgStreamData := by decide
  have hne₃ : paiProtoMsgStreamClose ≠ paiProtoMsgToken := by decide
  unfold connStreamContent contentEvents Frame.contentDecodes
  obtain hdata | htoken | hclose := hstream
  · cases hdec : paiProtoMsgDecodeStreamData frame.payload with
    | none => simp [hdata]
    | some c => simp [hdata, hne₁.symm, invokeStreamData, Endpoint.streamView]
  · cases hdec : paiProtoMsgDecodeToken frame.payload with
    | none => simp [htoken, hne₁]
    | some t =>
      right
      simp [htoken, hne₁, connStreamMessage_streamView, invokeStreamData]
  · right
    simp [hclose, hne₂, hne₃, connStreamMessage_streamView]

/-- The end of `conn_handle_stream` on a live slot: the slot is freed with its callback, or its
ordinal moves on after a TOKEN. -/
theorem connStreamFinish_streamView (cb : Callbacks U) {e : Endpoint U} {frame : Frame}
    {idx : Fin paiProtoMaxStreams} (hidx : streamIndex e.conn frame.requestId = some idx) :
    (connStreamFinish cb e frame idx).streamView =
      if frame.terminal then
        (Function.update e.conn.streams idx 0, Function.update e.conn.streamSeqs idx 0,
          e.events ++ [.streamEnd frame.requestId frame.sessionId])
      else if frame.msgType = paiProtoMsgToken then
        (e.conn.streams, Function.update e.conn.streamSeqs idx (e.conn.streamSeqs idx + 1), e.events)
      else (e.conn.streams, e.conn.streamSeqs, e.events) := by
  unfold connStreamFinish streamEnd
  simp only [hidx]
  split_ifs <;> simp [Endpoint.streamView, Conn.setStream]

/-- The ordinal a slot holds after a frame that does not end its stream. -/
def nextOrdinal (frame : Frame) (seq : UInt32) : UInt32 :=
  if frame.msgType = paiProtoMsgToken then seq + 1 else seq

/-- The content callbacks of a stream frame on a live slot keep the invariant, with the next
ordinal in the slot. -/
theorem Endpoint.Inv.content {e : Endpoint U} {silent : List UInt64} (h : e.Inv silent)
    {frame : Frame} {idx : Fin paiProtoMaxStreams} (hstream : frame.isStream)
    (hdec : frame.contentDecodes) (hslot : e.conn.streams idx = frame.requestId)
    (hrid : frame.requestId ≠ 0) :
    StreamInv e.conn.streams
      (Function.update e.conn.streamSeqs idx (nextOrdinal frame (e.conn.streamSeqs idx)))
      (e.events ++ contentEvents e frame idx) silent := by
  have hne₁ : paiProtoMsgToken ≠ paiProtoMsgStreamData := by decide
  have hne₂ : paiProtoMsgStreamClose ≠ paiProtoMsgStreamData := by decide
  have hne₃ : paiProtoMsgStreamClose ≠ paiProtoMsgToken := by decide
  have hmessage : ∀ r, (Event.message frame).Foreign r := fun _ => trivial
  unfold contentEvents nextOrdinal
  obtain hdata | htoken | hclose := hstream
  · obtain ⟨c, hc⟩ := Option.isSome_iff_exists.mp (hdec.1 hdata)
    have htoken : ¬ frame.msgType = paiProtoMsgToken := hdata ▸ hne₁.symm
    simp only [if_pos hdata, if_neg htoken, hc]
    refine h.data hslot hrid (fun r hr => hr.symm) fun k hk => ⟨k, ?_, hk⟩
    simp [streamPhaseStep]
  · obtain ⟨t, ht⟩ := Option.isSome_iff_exists.mp (hdec.2 htoken)
    have hdata : ¬ frame.msgType = paiProtoMsgStreamData := htoken ▸ hne₁
    simp only [if_neg hdata, if_pos htoken, ht]
    rw [show ∀ a b : Event, [a, b] = [a] ++ [b] from fun _ _ => rfl, ← List.append_assoc]
    refine StreamInv.concat_foreign ?_ hmessage
    refine h.data hslot hrid (fun r hr => hr.symm) fun k hk => ⟨k + 1, ?_, ?_⟩
    · simp [streamPhaseStep, hk]
    · simp [hk]
  · have hdata : ¬ frame.msgType = paiProtoMsgStreamData := hclose ▸ hne₂
    have htoken : ¬ frame.msgType = paiProtoMsgToken := hclose ▸ hne₃
    simp only [if_neg hdata, if_neg htoken, Function.update_eq_self]
    exact StreamInv.concat_foreign h hmessage

/-- Content and end of a stream frame on a live slot keep the invariant. -/
theorem connStreamFinish_inv (cb : Callbacks U) {e e' : Endpoint U} {silent : List UInt64}
    (h : e.Inv silent) {frame : Frame} {idx : Fin paiProtoMaxStreams}
    (hstream : frame.isStream) (hslot : e.conn.streams idx = frame.requestId)
    (hrid : frame.requestId ≠ 0) (hcontent : connStreamContent cb e frame idx = some e') :
    (connStreamFinish cb e' frame idx).Inv silent := by
  obtain ⟨-, hnone⟩ | ⟨hdec, e'', hsome, hview⟩ := connStreamContent_cases cb e frame idx hstream
  · rw [hnone] at hcontent
    cases hcontent
  obtain rfl : e'' = e' := Option.some.inj (hsome.symm.trans hcontent)
  simp only [Endpoint.streamView, Prod.mk.injEq] at hview
  obtain ⟨hs, hq, hev⟩ := hview
  have hinv := h.content hstream hdec hslot hrid
  have hidx : streamIndex e''.conn frame.requestId = some idx := by
    have hsame : streamIndex e''.conn frame.requestId = streamIndex e.conn frame.requestId := by
      unfold streamIndex
      rw [hs]
    exact hsame.trans (streamIndex_of_slot h hslot hrid)
  have hview := connStreamFinish_streamView cb hidx
  rw [hs, hq, hev] at hview
  by_cases hterm : frame.terminal
  · rw [if_pos hterm] at hview
    refine Endpoint.Inv.of_streamView hview ?_
    simpa using hinv.end hslot hrid
  rw [if_neg hterm] at hview
  by_cases htoken : frame.msgType = paiProtoMsgToken
  · rw [if_pos htoken] at hview
    rw [nextOrdinal, if_pos htoken] at hinv
    exact Endpoint.Inv.of_streamView hview hinv
  · rw [if_neg htoken] at hview
    rw [nextOrdinal, if_neg htoken, Function.update_eq_self] at hinv
    exact Endpoint.Inv.of_streamView hview hinv

/-- `conn_handle_stream` keeps the invariant on every frame that is not one of the two bad kinds. -/
theorem connHandleStream_inv (cb : Callbacks U) {e : Endpoint U} {silent : List UInt64}
    (h : e.Inv silent) {frame : Frame} (hstream : frame.isStream)
    (hzero : ¬ (frame.flags &&& paiProtoFlagStreamStart = 0 ∧ frame.requestId = 0 ∧
      e.conn.hasFreeSlot ∧ frame.contentDecodes))
    (hrestart : ¬ (frame.flags &&& paiProtoFlagStreamStart ≠ 0 ∧ frame.requestId ∈ silent ∧
      e.conn.hasFreeSlot)) :
    (connHandleStream cb e frame).1.Inv silent := by
  unfold connHandleStream
  simp only
  obtain ⟨hstart, hsame⟩ | ⟨-, hsame, hst⟩ | ⟨hstart, hok, hrid, hnew, i, hi, hview⟩ :=
    connStreamStart_cases cb e frame
  · -- no STREAM_START: the frame must find a live slot
    rw [hsame, if_neg (not_not.mpr rfl)]
    simp only
    cases hidx : streamIndex e.conn frame.requestId with
    | none => exact h
    | some idx =>
      simp only
      have hslot := streams_of_streamIndex hidx
      cases hcontent : connStreamContent cb e frame idx with
      | none => exact h
      | some e' =>
        by_cases hrid : frame.requestId = 0
        · refine absurd ⟨hstart, hrid, ?_, ?_⟩ hzero
          · rw [Conn.hasFreeSlot, ← hrid, hidx]
            rfl
          · obtain ⟨-, hnone⟩ | ⟨hdec, -⟩ := connStreamContent_cases cb e frame idx hstream
            · rw [hnone] at hcontent
              cases hcontent
            · exact hdec
        · exact connStreamFinish_inv cb h hstream hslot hrid hcontent
  · rw [if_pos hst, hsame]
    exact h
  · have hnot : frame.requestId ∉ silent := fun hmem =>
      hrestart ⟨hstart, hmem, by rw [Conn.hasFreeSlot, hi]; rfl⟩
    have hbegin : (connStreamStart cb e frame).1.Inv silent :=
      Endpoint.Inv.of_streamView hview
        (h.begin hrid hnew hnot (streams_of_streamIndex hi))
    rw [if_neg (not_not.mpr hok)]
    cases hidx : streamIndex (connStreamStart cb e frame).1.conn frame.requestId with
    | none => exact hbegin
    | some idx =>
      simp only
      have hslot := streams_of_streamIndex hidx
      cases hcontent : connStreamContent cb (connStreamStart cb e frame).1 frame idx with
      | none => exact hbegin
      | some e' => exact connStreamFinish_inv cb hbegin hstream hslot hrid hcontent

/-! ## Everything else is quiet -/

/-- A part of the core that leaves the stream tables alone and makes no stream callback. -/
def Quiet (e e' : Endpoint U) : Prop :=
  e'.conn.streams = e.conn.streams ∧ e'.conn.streamSeqs = e.conn.streamSeqs ∧
    ∃ l, e'.events = e.events ++ l ∧ ∀ ev ∈ l, ∀ r, ev.Foreign r

/-- Doing nothing is quiet. -/
theorem Quiet.refl (e : Endpoint U) : Quiet e e := ⟨rfl, rfl, [], by simp⟩

/-- Quiet parts compose. -/
theorem Quiet.trans {e₁ e₂ e₃ : Endpoint U} (h : Quiet e₁ e₂) (h' : Quiet e₂ e₃) : Quiet e₁ e₃ := by
  obtain ⟨hs, hq, l, hl, hfor⟩ := h
  obtain ⟨hs', hq', l', hl', hfor'⟩ := h'
  refine ⟨hs'.trans hs, hq'.trans hq, l ++ l', by rw [hl', hl, List.append_assoc], ?_⟩
  intro ev hev
  obtain hev | hev := List.mem_append.mp hev
  · exact hfor ev hev
  · exact hfor' ev hev

/-- A quiet part keeps the invariant. -/
theorem Quiet.inv {e e' : Endpoint U} {silent : List UInt64} (hq : Quiet e e') (h : e.Inv silent) :
    e'.Inv silent := by
  obtain ⟨hs, hseq, l, hl, hfor⟩ := hq
  rw [Endpoint.Inv, hs, hseq, hl]
  clear hl
  induction l using List.reverseRecOn with
  | nil =>
    rw [List.append_nil]
    exact h
  | append_singleton l ev ih =>
    rw [← List.append_assoc]
    exact (ih fun a ha => hfor a (by simp [ha])).concat_foreign (hfor ev (by simp))

/-- Closing is quiet. -/
theorem connSetClosed_quiet (cb : Callbacks U) (e : Endpoint U) (reason : UInt32) :
    Quiet e (connSetClosed cb e reason) := by
  unfold connSetClosed
  split_ifs
  · exact Quiet.refl e
  · exact ⟨rfl, rfl, [.close reason], rfl, by simp [Event.Foreign]⟩

/-- Sending is quiet. -/
theorem connSendUnchecked_quiet (e : Endpoint U) (frame : Frame) :
    Quiet e (connSendUnchecked e frame).1 :=
  ⟨by simp, by simp, [], by simp⟩

/-- Changing the connection without its stream tables is quiet. -/
theorem quiet_of_conn (e : Endpoint U) (conn : Conn) (hs : conn.streams = e.conn.streams)
    (hq : conn.streamSeqs = e.conn.streamSeqs) : Quiet e { e with conn := conn } :=
  ⟨hs, hq, [], by simp⟩

/-- Negotiation is quiet. -/
theorem connHandlePreopen_quiet (cb : Callbacks U) (e : Endpoint U) (frame : Frame) :
    Quiet e (connHandlePreopen cb e frame).1 := by
  unfold connHandlePreopen
  cases e.conn.role with
  | server =>
    simp only
    split_ifs
    · exact Quiet.refl e
    · unfold connHandleHelloServer
      split
      · exact Quiet.refl e
      · rename_i remote _
        split_ifs
        · exact (connSendUnchecked_quiet _ _).trans (connSetClosed_quiet cb _ _)
        · have hanswer : Quiet e (helloAnswer cb e remote).1 := by
            unfold helloAnswer
            split
            · exact ⟨rfl, rfl, [.hello remote], rfl, by simp [Event.Foreign]⟩
            · exact Quiet.refl e
          simp only
          split_ifs
          · exact hanswer.trans
              ((connSendUnchecked_quiet _ _).trans (connSetClosed_quiet cb _ _))
          · exact hanswer.trans
              ((quiet_of_conn _ _ rfl rfl).trans (connSendUnchecked_quiet _ _))
  | client =>
    simp only
    split_ifs
    · unfold connHandleAckClient
      split_ifs
      · exact Quiet.refl e
      · split
        · exact Quiet.refl e
        · exact quiet_of_conn _ _ rfl rfl
    · exact (quiet_of_conn e _ rfl rfl).trans (connSetClosed_quiet cb _ _)
    · exact Quiet.refl e

/-- The dispatcher's own work after a handler is quiet. -/
theorem connDispatch_quiet (cb : Callbacks U) (e : Endpoint U) (frame : Frame) :
    Quiet (connHandle cb e frame).1 (connDispatch cb e frame).1 := by
  unfold connDispatch
  simp only
  split_ifs
  · exact connSetClosed_quiet cb _ _
  · exact quiet_of_conn _ _ rfl rfl

/-- Handing a frame to `on_message` is quiet. -/
theorem connHandleMessage_quiet (cb : Callbacks U) (e : Endpoint U) (frame : Frame) :
    Quiet e (connHandleMessage cb e frame) := by
  have hview := connHandleMessage_streamView cb e frame
  simp only [Endpoint.streamView, Prod.mk.injEq] at hview
  exact ⟨hview.1, hview.2.1, [.message frame], hview.2.2, by simp [Event.Foreign]⟩

/-! ## One frame -/

/-- COMPLETE keeps the invariant; the id of an open stream becomes silent. -/
theorem streamEnd_inv {e : Endpoint U} {silent : List UInt64} (h : e.Inv silent) {frame : Frame}
    (hdisp : e.conn.Dispatches frame) (hcomplete : frame.msgType = paiProtoMsgComplete) :
    ({ e with conn := streamEnd e.conn frame.requestId } : Endpoint U).Inv
      (silentAfter e.conn silent frame) := by
  unfold silentAfter streamEnd
  cases hidx : streamIndex e.conn frame.requestId with
  | none =>
    rw [if_neg fun hc => by simp [CompletesStream, hidx] at hc]
    exact h
  | some i =>
    have hslot := streams_of_streamIndex hidx
    by_cases hrid : frame.requestId = 0
    · -- id 0 finds a free slot, and only its stale ordinal is cleared
      rw [if_neg fun hc => hc.2.2.1 hrid]
      have hfree : e.conn.streams i = 0 := hslot.trans hrid
      have hsame : Function.update e.conn.streams i 0 = e.conn.streams := by
        rw [← hfree, Function.update_eq_self]
      refine ⟨?_, h.zero, fun a ha => ?_, ?_, ?_⟩
      · simpa [Conn.setStream, hsame] using h.inj
      · simp only [Conn.setStream, hsame] at ha ⊢
        have hai : a ≠ i := fun hai => ha (hai ▸ hfree)
        rw [Function.update_of_ne hai]
        exact h.slot a ha
      · simpa [Conn.setStream, hsame] using h.free
      · simpa [Conn.setStream, hsame] using h.mem_silent
    · rw [if_pos ⟨hdisp, hcomplete, hrid, by rw [hidx]; rfl⟩]
      exact h.complete hslot hrid

/-- An open connection handles every frame that is not of the two bad kinds within the
invariant. -/
theorem connHandleOpen_inv (cb : Callbacks U) {e : Endpoint U} {silent : List UInt64}
    (h : e.Inv silent) (hopen : e.conn.state = .opened) {frame : Frame}
    (hzero : ¬ ZeroIdFrame e.conn frame) (hrestart : ¬ SilentRestart e.conn silent frame) :
    (connHandleOpen cb e frame).1.Inv (silentAfter e.conn silent frame) := by
  have hsilent (hno : ¬ CompletesStream e.conn frame) :
      silentAfter e.conn silent frame = silent := if_neg hno
  have hother (t : UInt32) (ht : t ≠ paiProtoMsgComplete) (hft : frame.msgType = t) :
      silentAfter e.conn silent frame = silent :=
    hsilent fun hc => ht (hft.symm.trans hc.2.1)
  unfold connHandleOpen
  by_cases hmajor : frame.major = paiProtoVersionMajor.toUInt16
  swap
  · rw [if_pos hmajor, hsilent fun hc => hmajor hc.1.2]
    exact h
  have hdisp : e.conn.Dispatches frame := ⟨hopen, hmajor⟩
  rw [if_neg (not_not.mpr hmajor)]
  split_ifs with hhello hping hclose hstream hcomplete
  · rw [hsilent fun hc => by
      rw [hc.2.1] at hhello
      exact absurd hhello (by decide)]
    exact h
  · rw [hother _ (by decide) hping]
    exact (connSendUnchecked_quiet _ _).inv h
  · rw [hother _ (by decide) hclose]
    exact (connSetClosed_quiet cb _ _).inv h
  · rw [hsilent fun hc => by
      rw [Frame.isStream, hc.2.1] at hstream
      exact absurd hstream (by decide)]
    refine connHandleStream_inv cb h hstream (fun hz => hzero ?_) fun hr => hrestart ?_
    · exact ⟨hdisp, hstream, hz⟩
    · exact ⟨hdisp, hstream, hr⟩
  · exact (connHandleMessage_quiet cb _ _).inv (streamEnd_inv h hdisp hcomplete)
  · rw [hsilent fun hc => hcomplete hc.2.1]
    exact (connHandleMessage_quiet cb _ _).inv h

/-- A frame that is not of the two bad kinds keeps the invariant. -/
theorem recvFrame_inv (cb : Callbacks U) {e : Endpoint U} {silent : List UInt64} (h : e.Inv silent)
    {frame : Frame} (hzero : ¬ ZeroIdFrame e.conn frame)
    (hrestart : ¬ SilentRestart e.conn silent frame) :
    (recvFrame cb e frame).Inv (silentAfter e.conn silent frame) := by
  unfold recvFrame
  by_cases hopen : e.conn.state = .opened
  · rw [if_neg (by rw [hopen]; decide)]
    refine (connDispatch_quiet cb e frame).inv ?_
    rw [connHandle, if_pos hopen]
    exact connHandleOpen_inv cb h hopen hzero hrestart
  · have hsilent : silentAfter e.conn silent frame = silent := if_neg fun hc => hopen hc.1.1
    rw [hsilent]
    split_ifs
    · exact h
    · refine (connDispatch_quiet cb e frame).inv ?_
      rw [connHandle, if_neg hopen]
      exact (connHandlePreopen_quiet cb e frame).inv h

/-! ## The two bad kinds break the law -/

/-- A quiet part only appends callbacks. -/
theorem Quiet.eventsGrow {e e' : Endpoint U} (h : Quiet e e') : e.events <+: e'.events := by
  obtain ⟨-, -, l, hl, -⟩ := h
  exact ⟨l, hl.symm⟩

/-- The end of `conn_handle_stream` only appends callbacks. -/
theorem connStreamFinish_eventsGrow (cb : Callbacks U) (e : Endpoint U) (frame : Frame)
    (idx : Fin paiProtoMaxStreams) : e.events <+: (connStreamFinish cb e frame idx).events := by
  unfold connStreamFinish
  simp only
  split_ifs <;> simp

/-- The stream handler only appends callbacks to those of its STREAM_START part. -/
theorem connHandleStream_eventsGrow (cb : Callbacks U) (e : Endpoint U) {frame : Frame}
    (hstream : frame.isStream) :
    (connStreamStart cb e frame).1.events <+: (connHandleStream cb e frame).1.events := by
  unfold connHandleStream
  simp only
  split_ifs
  · exact List.prefix_rfl
  · cases streamIndex (connStreamStart cb e frame).1.conn frame.requestId with
    | none => exact List.prefix_rfl
    | some idx =>
      simp only
      obtain ⟨-, hnone⟩ | ⟨-, e', hsome, hview⟩ :=
        connStreamContent_cases cb (connStreamStart cb e frame).1 frame idx hstream
      · rw [hnone]
      · rw [hsome]
        simp only [Endpoint.streamView, Prod.mk.injEq] at hview
        refine List.IsPrefix.trans ?_ (connStreamFinish_eventsGrow cb e' frame idx)
        rw [hview.2.2]
        exact List.prefix_append _ _

/-- The STREAM_START part only appends callbacks. -/
theorem connStreamStart_eventsGrow (cb : Callbacks U) (e : Endpoint U) (frame : Frame) :
    e.events <+: (connStreamStart cb e frame).1.events := by
  obtain ⟨-, hsame⟩ | ⟨-, hsame, -⟩ | ⟨-, -, -, -, i, -, hview⟩ := connStreamStart_cases cb e frame
  · rw [hsame]
  · rw [hsame]
  · simp only [Endpoint.streamView, Prod.mk.injEq] at hview
    rw [hview.2.2]
    exact List.prefix_append _ _

/-- A frame only appends callbacks. -/
theorem recvFrame_eventsGrow (cb : Callbacks U) (e : Endpoint U) (frame : Frame) :
    e.events <+: (recvFrame cb e frame).events := by
  unfold recvFrame
  split_ifs
  · exact List.prefix_rfl
  refine List.IsPrefix.trans ?_ (connDispatch_quiet cb e frame).eventsGrow
  unfold connHandle
  split_ifs
  swap
  · exact (connHandlePreopen_quiet cb e frame).eventsGrow
  unfold connHandleOpen
  split_ifs with _ _ _ _ hstream _
  · exact List.prefix_rfl
  · exact List.prefix_rfl
  · exact (connSendUnchecked_quiet _ _).eventsGrow
  · exact (connSetClosed_quiet cb _ _).eventsGrow
  · exact (connStreamStart_eventsGrow cb e frame).trans (connHandleStream_eventsGrow cb e hstream)
  · exact (connHandleMessage_quiet cb { e with conn := streamEnd e.conn frame.requestId } frame).eventsGrow
  · exact (connHandleMessage_quiet cb e frame).eventsGrow

/-- A run only appends callbacks. -/
theorem recvFrames_eventsGrow (cb : Callbacks U) (e : Endpoint U) (frames : List Frame) :
    e.events <+: (recvFrames cb e frames).events := by
  induction frames generalizing e with
  | nil => exact List.prefix_rfl
  | cons frame frames ih => exact (recvFrame_eventsGrow cb e frame).trans (ih (recvFrame cb e frame))

/-- A stream frame on an open connection reaches the stream handler, and the callbacks it makes
there stay recorded. -/
theorem connHandleStream_recvFrame (cb : Callbacks U) {e : Endpoint U} {frame : Frame}
    (hdisp : e.conn.Dispatches frame) (hstream : frame.isStream) :
    (connHandleStream cb e frame).1.events <+: (recvFrame cb e frame).events := by
  have hopen := hdisp.1
  have hhandle : connHandle cb e frame = connHandleStream cb e frame := by
    rw [connHandle, if_pos hopen, connHandleOpen, if_neg (not_not.mpr hdisp.2)]
    have hno (t : UInt32) (ht : ¬ (t = paiProtoMsgStreamData ∨ t = paiProtoMsgToken ∨
        t = paiProtoMsgStreamClose)) : frame.msgType ≠ t := fun h => ht (h ▸ hstream)
    rw [if_neg (by
        rintro (h | h | h)
        · exact hno _ (by decide) h
        · exact hno _ (by decide) h
        · exact hno _ (by decide) h),
      if_neg (hno _ (by decide)), if_neg (hno _ (by decide)), if_pos hstream]
  have hdispatch := (connDispatch_quiet cb e frame).eventsGrow
  rw [hhandle] at hdispatch
  rwa [recvFrame, if_neg (by rw [hopen]; decide)]

/-- A stream frame with id `0` delivers a stream callback for id `0`. -/
theorem not_streamLaw_of_zeroIdFrame (cb : Callbacks U) {e : Endpoint U} {silent : List UInt64}
    (h : e.Inv silent) {frame : Frame} (hbad : ZeroIdFrame e.conn frame) :
    ¬ StreamLaw (recvFrame cb e frame).events := by
  obtain ⟨hdisp, hstream, hstart, hrid, hfree, hdec⟩ := hbad
  intro hlaw
  have hlaw' := hlaw.of_initial (connHandleStream_recvFrame cb hdisp hstream)
  obtain ⟨idx, hidx⟩ := Option.isSome_iff_exists.mp hfree
  obtain ⟨hnot, -⟩ | ⟨-, e', hsome, hview⟩ := connStreamContent_cases cb e frame idx hstream
  · exact hnot hdec
  simp only [Endpoint.streamView, Prod.mk.injEq] at hview
  have hhandle : (connHandleStream cb e frame).1 = connStreamFinish cb e' frame idx := by
    have hsame : connStreamStart cb e frame = (e, paiOk) := by rw [connStreamStart, if_pos hstart]
    rw [← hrid] at hidx
    simp [connHandleStream, hsame, hidx, hsome]
  rw [hhandle] at hlaw'
  obtain hdata | htoken | hclose := hstream
  · obtain ⟨c, hc⟩ := Option.isSome_iff_exists.mp (hdec.1 hdata)
    have hlaw'' := hlaw'.of_initial (connStreamFinish_eventsGrow cb e' frame idx)
    rw [hview.2.2, contentEvents, if_pos hdata, hc] at hlaw''
    refine hlaw'' 0 ?_
    rw [streamPhase_concat, h.zero]
    simp [streamPhaseStep, hrid]
  · obtain ⟨t, ht⟩ := Option.isSome_iff_exists.mp (hdec.2 htoken)
    have hdata : ¬ frame.msgType = paiProtoMsgStreamData := by
      rw [htoken]
      decide
    have hlaw'' := hlaw'.of_initial (connStreamFinish_eventsGrow cb e' frame idx)
    rw [hview.2.2, contentEvents, if_neg hdata, if_pos htoken, ht] at hlaw''
    refine hlaw'' 0 ?_
    rw [streamPhase_append, h.zero]
    simp [streamPhaseStep, hrid]
  · have hdata : ¬ frame.msgType = paiProtoMsgStreamData := by
      rw [hclose]
      decide
    have htoken : ¬ frame.msgType = paiProtoMsgToken := by
      rw [hclose]
      decide
    have hidx' : streamIndex e'.conn frame.requestId = some idx := by
      rw [hrid, ← hidx]
      unfold streamIndex
      rw [hview.1]
    have hfinish := connStreamFinish_streamView cb hidx'
    have hterm : frame.terminal := Or.inr hclose
    rw [if_pos hterm] at hfinish
    simp only [Endpoint.streamView, Prod.mk.injEq] at hfinish
    rw [hfinish.2.2, hview.2.2, contentEvents, if_neg hdata, if_neg htoken] at hlaw'
    refine hlaw' 0 ?_
    have hmessage : (Event.message frame).Foreign 0 := trivial
    rw [streamPhase_concat, streamPhase_concat_of_foreign _ hmessage, h.zero]
    simp [streamPhaseStep, hrid]

/-- Restarting a silent id begins a stream inside a stream. -/
theorem not_streamLaw_of_silentRestart (cb : Callbacks U) {e : Endpoint U} {silent : List UInt64}
    (h : e.Inv silent) {frame : Frame} (hbad : SilentRestart e.conn silent frame) :
    ¬ StreamLaw (recvFrame cb e frame).events := by
  obtain ⟨hdisp, hstream, hstart, hmem, hfree⟩ := hbad
  obtain ⟨hrid, hnew, k, hk⟩ := h.mem_silent _ hmem
  obtain ⟨i, hi⟩ := Option.isSome_iff_exists.mp hfree
  have hevents : (connStreamStart cb e frame).1.events =
      e.events ++ [.streamBegin frame.requestId frame.sessionId] := by
    have hidx := streamIndex_eq_none_iff.mpr hnew
    simp [connStreamStart, streamBegin, hstart, hrid, hidx, hi]
  intro hlaw
  have hlaw' := (hlaw.of_initial (connHandleStream_recvFrame cb hdisp hstream)).of_initial
    (connHandleStream_eventsGrow cb e hstream)
  rw [hevents] at hlaw'
  refine hlaw' frame.requestId ?_
  rw [streamPhase_concat, hk]
  simp [streamPhaseStep]

/-! ## Whole runs -/

/-- A run from an endpoint within the invariant keeps the law exactly when it meets no bad frame. -/
theorem streamLaw_recvFrames_iff (cb : Callbacks U) {e : Endpoint U} {silent : List UInt64}
    (h : e.Inv silent) (frames : List Frame) :
    StreamLaw (recvFrames cb e frames).events ↔ RunMeets cb e silent frames := by
  -- induction on the frames; the invariant carries over every frame that is not bad
  induction frames generalizing e silent with
  | nil => exact ⟨fun _ => trivial, fun _ => h.law⟩
  | cons frame frames ih =>
    have hgrow := recvFrames_eventsGrow cb (recvFrame cb e frame) frames
    rw [RunMeets, recvFrames, List.foldl_cons]
    by_cases hzero : ZeroIdFrame e.conn frame
    · exact ⟨fun hlaw => absurd (hlaw.of_initial hgrow) (not_streamLaw_of_zeroIdFrame cb h hzero),
        fun hmeets => absurd hzero hmeets.1⟩
    by_cases hrestart : SilentRestart e.conn silent frame
    · exact ⟨fun hlaw =>
          absurd (hlaw.of_initial hgrow) (not_streamLaw_of_silentRestart cb h hrestart),
        fun hmeets => absurd hrestart hmeets.2.1⟩
    · have hrec := ih (recvFrame_inv cb h hzero hrestart)
      exact ⟨fun hlaw => ⟨hzero, hrestart, hrec.mp hlaw⟩, fun hmeets => hrec.mpr hmeets.2.2⟩

/-- A fresh connection is within the invariant. -/
theorem freshEndpoint_inv (role : Role) (caps : UInt32) (user : U) :
    (freshEndpoint role caps user).Inv [] where
  inj _ _ _ hne := absurd rfl hne
  zero := rfl
  slot _ hne := absurd rfl hne
  free _ _ _ _ := rfl
  mem_silent _ hmem := absurd hmem List.not_mem_nil

/-- For every connection, every application and every sequence of received frames, the stream
callbacks follow `(begin data* end)*` per non-zero request id with TOKEN chunks numbered from zero,
exactly when the run holds no stream frame with id `0` that finds a free slot and no STREAM_START
for an id whose open stream a COMPLETE has closed. -/
theorem streamLaw_iff (cb : Callbacks U) (role : Role) (caps : UInt32) (user : U)
    (frames : List Frame) :
    StreamLaw (recvFrames cb (freshEndpoint role caps user) frames).events ↔
      RunMeets cb (freshEndpoint role caps user) [] frames :=
  streamLaw_recvFrames_iff cb (freshEndpoint_inv role caps user) frames

/-- A HELLO that offers every capability. -/
def sampleHello : Frame :=
  ⟨1, paiProtoMsgHello, 0, 1, 0, paiProtoMsgEncodeCaps paiProtoCapKnown⟩

/-- A TOKEN frame with a one-byte text. -/
def sampleToken (flags : UInt32) (requestId : UInt64) : Frame :=
  ⟨1, paiProtoMsgToken, flags, requestId, 1, [1, 0, 33]⟩

/-- A COMPLETE frame. -/
def sampleComplete (requestId : UInt64) : Frame := ⟨1, paiProtoMsgComplete, 0, requestId, 1, []⟩

/-- A TOKEN with id `0` is delivered although no stream was begun; and a stream closed by COMPLETE
and started again is begun twice without an end in between. -/
theorem streamLaw_violated :
    ¬ StreamLaw (recvFrames Callbacks.null (freshEndpoint .server paiProtoCapKnown ())
      [sampleHello, sampleToken 0 0]).events ∧
    ¬ StreamLaw (recvFrames Callbacks.null (freshEndpoint .server paiProtoCapKnown ())
      [sampleHello, sampleToken paiProtoFlagStreamStart 7, sampleComplete 7,
        sampleToken paiProtoFlagStreamStart 7]).events := by
  refine ⟨fun h => h 0 ?_, fun h => h 7 ?_⟩
  · decide +kernel
  · decide +kernel

end Prospero
