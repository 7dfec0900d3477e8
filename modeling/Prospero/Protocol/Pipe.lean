import Prospero.Lib.Buffer
import Prospero.Status

/-!
# In-memory pipe

One direction of the pipe-pair transport (`protocol/transport_pipe.c`): a growable buffer with a
read head, a length and a capacity.  `pipe_push` writes behind the buffered bytes, `pipe_pull` reads
from the head.

A push decides whether to grow from the length alone but writes at `head + len`, so a push that
fits the capacity only when the head is ignored writes past the end of the buffer
(`PushInRoom` fails).  `pipe_lossless_iff` shows that this is all that can go wrong: a run loses no
byte exactly when every push finds room.
-/

namespace Prospero

open Buffer

/-! ## The pipe -/

/-- `pai_proto_pipe_t`; the capacity is the length of the buffer. -/
structure Pipe where
  /-- The allocated cells. -/
  buf : List UInt8
  /-- Read offset. -/
  head : ℕ
  /-- Bytes buffered. -/
  len : ℕ
  /-- No more bytes will be pushed. -/
  closed : Bool

/-- `cap`. -/
def Pipe.cap (pipe : Pipe) : ℕ := pipe.buf.length

/-- The bytes pushed and not yet pulled. -/
def Pipe.buffered (pipe : Pipe) : List UInt8 := slice pipe.buf pipe.head pipe.len

/-- A pipe as `calloc` leaves it. -/
def Pipe.empty : Pipe := ⟨[], 0, 0, false⟩

/-- The doubling loop of `pipe_push` on 32-bit capacities.  Within 32 rounds it reaches any need
below `2 ^ 31`. -/
def growCap : ℕ → ℕ → ℕ → ℕ
  | 0, newcap, _ => newcap
  | fuel + 1, newcap, need =>
    if newcap < need then growCap fuel (newcap * 2 % 0x100000000) need else newcap

/-- The reallocation of `pipe_push`: the buffered bytes move to the front of a larger buffer, whose
other cells hold whatever the allocator left there. -/
def Pipe.grow (pipe : Pipe) (need : ℕ) (junk : ℕ → UInt8) : Pipe :=
  let newcap := growCap 32 (if pipe.cap = 0 then 256 else pipe.cap) need
  { pipe with buf := overwrite ((List.range newcap).map junk) 0 pipe.buffered, head := 0 }

/-- `pipe_push` when allocation succeeds; `none` stands for a write past the end of the buffer. -/
def pipePush (pipe : Pipe) (data : List UInt8) (junk : ℕ → UInt8) : Option (Pipe × PaiStatus) :=
  if pipe.closed then some (pipe, paiErrIo)
  else if data.length = 0 then some (pipe, paiOk)
  else
    let pipe := if pipe.len = 0 then { pipe with head := 0 } else pipe
    let need := (pipe.len + data.length) % 0x100000000
    let pipe := if pipe.cap < need then pipe.grow need junk else pipe
    if pipe.head + pipe.len + data.length ≤ pipe.cap then
      some ({ pipe with
        buf := overwrite pipe.buf (pipe.head + pipe.len) data
        len := pipe.len + data.length }, paiOk)
    else none

/-- What `pipe_pull` returns. -/
structure PullResult where
  /-- The pipe after the call. -/
  pipe : Pipe
  /-- Returned status; `PAI_ERR_IO` is the end of the stream. -/
  status : PaiStatus
  /-- The bytes read. -/
  got : List UInt8

/-- `pipe_pull`. -/
def pipePull (pipe : Pipe) (nbytes : ℕ) : PullResult :=
  if pipe.len = 0 then ⟨pipe, if pipe.closed then paiErrIo else paiOk, []⟩
  else
    let n := if nbytes < pipe.len then nbytes else pipe.len
    let len := pipe.len - n
    let head := if len = 0 then 0 else pipe.head + n
    ⟨{ pipe with head := head, len := len }, paiOk, slice pipe.buf pipe.head n⟩

/-! ## Runs -/

/-- A call on one direction of a pipe pair. -/
inductive PipeCall where
  /-- `pipe_push`, with the former contents of the memory it may allocate. -/
  | push (data : List UInt8) (junk : ℕ → UInt8)
  /-- `pipe_pull`. -/
  | pull (nbytes : ℕ)
  /-- `endpoint_close`. -/
  | close

/-- A pipe with the bytes that went through it. -/
structure PipeRun where
  /-- The pipe. -/
  pipe : Pipe
  /-- All bytes pushed successfully. -/
  pushed : List UInt8
  /-- All bytes pulled. -/
  pulled : List UInt8

/-- One call; `none` when it writes past the end of the buffer. -/
def PipeRun.step (t : PipeRun) : PipeCall → Option PipeRun
  | .push data junk =>
    (pipePush t.pipe data junk).map fun r =>
      { t with pipe := r.1, pushed := if r.2 = paiOk then t.pushed ++ data else t.pushed }
  | .pull nbytes =>
    let r := pipePull t.pipe nbytes
    some { t with pipe := r.pipe, pulled := t.pulled ++ r.got }
  | .close => some { t with pipe := { t.pipe with closed := true } }

/-- A sequence of calls. -/
def PipeRun.run (t : PipeRun) (calls : List PipeCall) : Option PipeRun := calls.foldlM PipeRun.step t

/-- The bytes a call offers to the pipe. -/
def PipeCall.bytes : PipeCall → ℕ
  | .push data _ => data.length
  | _ => 0

/-- The bytes a sequence of calls offers to the pipe. -/
def totalBytes (calls : List PipeCall) : ℕ := (calls.map PipeCall.bytes).sum

/-- What a pipe promises: nothing is lost, duplicated or reordered, and the end of the stream is
reported exactly when the pipe is closed and empty. -/
structure PipeLaw (t : PipeRun) : Prop where
  /-- Pulled bytes followed by buffered bytes are the pushed bytes. -/
  fifo : t.pulled ++ t.pipe.buffered = t.pushed
  /-- A pull returns the first buffered bytes. -/
  delivers : ∀ n, (pipePull t.pipe n).got = t.pipe.buffered.take n
  /-- The end of the stream comes after the last byte. -/
  eof_iff : ∀ n, (pipePull t.pipe n).status = paiErrIo ↔
    t.pipe.closed = true ∧ t.pipe.buffered = []

/-- The push finds room where it will write: nothing is written, the pipe is empty, it grows, or
the bytes fit behind the buffered ones. -/
def PushInRoom (pipe : Pipe) (n : ℕ) : Prop :=
  pipe.closed = true ∨ n = 0 ∨ pipe.len = 0 ∨ pipe.cap < pipe.len + n ∨
    pipe.head + pipe.len + n ≤ pipe.cap

/-- The push of a call, if it is one, finds room. -/
def CallInRoom (pipe : Pipe) : PipeCall → Prop
  | .push data _ => PushInRoom pipe data.length
  | _ => True

/-- Every push of the run finds room. -/
def RunInRoom : PipeRun → List PipeCall → Prop
  | _, [] => True
  | t, call :: calls =>
    CallInRoom t.pipe call ∧ ∀ t', t.step call = some t' → RunInRoom t' calls

/-! ## Growth -/

/-- Doubling reaches the need before it can overflow. -/
lemma growCap_spec {fuel newcap need : ℕ} (hneed : need < 2 ^ 31) (hpos : 0 < newcap)
    (hcap : newcap < 2 ^ 32) (hfuel : need ≤ newcap * 2 ^ fuel) :
    need ≤ growCap fuel newcap need ∧ 0 < growCap fuel newcap need ∧
      growCap fuel newcap need < 2 ^ 32 := by
  induction fuel generalizing newcap with
  | zero => exact ⟨by simpa [growCap] using hfuel, hpos, hcap⟩
  | succ fuel ih =>
    unfold growCap
    split_ifs with hlt
    · have hmod : newcap * 2 % 0x100000000 = newcap * 2 := Nat.mod_eq_of_lt (by omega)
      rw [hmod]
      apply ih
      · omega
      · omega
      · rw [Nat.mul_assoc, ← Nat.pow_succ']
        exact hfuel
    · exact ⟨by omega, hpos, hcap⟩

/-- Growing moves the buffered bytes to the front of a buffer that holds the need. -/
lemma grow_spec {pipe : Pipe} {need : ℕ} (junk : ℕ → UInt8) (hin : pipe.head + pipe.len ≤ pipe.cap)
    (hcap : pipe.cap < 2 ^ 32) (hlen : pipe.len ≤ need) (hneed : need < 2 ^ 31) :
    need ≤ (pipe.grow need junk).cap ∧ (pipe.grow need junk).cap < 2 ^ 32 ∧
      (pipe.grow need junk).head = 0 ∧ (pipe.grow need junk).len = pipe.len ∧
      (pipe.grow need junk).closed = pipe.closed ∧
      (pipe.grow need junk).buffered = pipe.buffered := by
  set start := if pipe.cap = 0 then 256 else pipe.cap with hstart
  have hpos : 0 < start ∧ start < 2 ^ 32 := by
    rw [hstart]
    split_ifs <;> omega
  obtain ⟨hge, -, hlt⟩ := @growCap_spec 32 start need hneed hpos.1 hpos.2 (by omega)
  have hbuffered : pipe.buffered.length = pipe.len := length_slice hin
  have hroom : 0 + pipe.buffered.length ≤
      ((List.range (growCap 32 start need)).map junk).length := by
    rw [List.length_map, List.length_range, hbuffered]
    omega
  have hsize : (pipe.grow need junk).cap = growCap 32 start need := by
    change (overwrite _ 0 pipe.buffered).length = _
    rw [length_overwrite hroom, List.length_map, List.length_range]
  refine ⟨by omega, by omega, rfl, rfl, rfl, ?_⟩
  change slice (overwrite _ 0 pipe.buffered) 0 pipe.len = pipe.buffered
  rw [← hbuffered]
  exact slice_overwrite_self hroom

/-! ## One call -/

/-- The invariant of a run; `budget` bytes may still be offered. -/
structure PipeInv (t : PipeRun) (budget : ℕ) : Prop where
  /-- The buffered bytes lie inside the buffer. -/
  inside : t.pipe.head + t.pipe.len ≤ t.pipe.cap
  /-- The capacity is a 32-bit number. -/
  cap_lt : t.pipe.cap < 2 ^ 32
  /-- Everything offered stays below `2 ^ 31` bytes. -/
  len_lt : t.pipe.len + budget < 2 ^ 31
  /-- Nothing was lost so far. -/
  fifo : t.pulled ++ t.pipe.buffered = t.pushed

/-- Writing behind the buffered bytes appends to them. -/
lemma buffered_write {pipe : Pipe} {data : List UInt8}
    (h : pipe.head + pipe.len + data.length ≤ pipe.cap) :
    ({ pipe with
      buf := overwrite pipe.buf (pipe.head + pipe.len) data
      len := pipe.len + data.length } : Pipe).buffered = pipe.buffered ++ data :=
  slice_overwrite_append h

/-- A push that finds room appends its bytes. -/
lemma pipePush_of_inRoom {pipe : Pipe} {data : List UInt8} (junk : ℕ → UInt8)
    (hin : pipe.head + pipe.len ≤ pipe.cap) (hcap : pipe.cap < 2 ^ 32)
    (hlen : pipe.len + data.length < 2 ^ 31) (hroom : PushInRoom pipe data.length) :
    ∃ pipe' status, pipePush pipe data junk = some (pipe', status) ∧
      pipe'.head + pipe'.len ≤ pipe'.cap ∧ pipe'.cap < 2 ^ 32 ∧
      pipe'.len ≤ pipe.len + data.length ∧
      pipe'.buffered = if status = paiOk then pipe.buffered ++ data else pipe.buffered := by
  unfold pipePush
  by_cases hclosed : pipe.closed = true
  · rw [if_pos hclosed]
    refine ⟨pipe, paiErrIo, rfl, hin, hcap, Nat.le_add_right _ _, ?_⟩
    rw [if_neg (by decide)]
  rw [if_neg hclosed]
  by_cases hempty : data.length = 0
  · rw [if_pos hempty]
    refine ⟨pipe, paiOk, rfl, hin, hcap, Nat.le_add_right _ _, ?_⟩
    rw [if_pos rfl, List.length_eq_zero_iff.mp hempty, List.append_nil]
  rw [if_neg hempty]
  simp only
  -- compaction of an empty pipe leaves the buffered bytes alone
  set compact : Pipe := if pipe.len = 0 then { pipe with head := 0 } else pipe with hcompact
  have hfacts : compact.len = pipe.len ∧ compact.cap = pipe.cap ∧
      compact.head + compact.len ≤ compact.cap ∧ compact.buffered = pipe.buffered ∧
      (pipe.cap < pipe.len + data.length ∨
        compact.head + compact.len + data.length ≤ compact.cap) := by
    rw [hcompact]
    split_ifs with hzero
    · refine ⟨rfl, rfl, ?_, ?_, ?_⟩
      · change 0 + pipe.len ≤ pipe.cap
        omega
      · change slice pipe.buf 0 pipe.len = slice pipe.buf pipe.head pipe.len
        rw [hzero, slice_zero, slice_zero]
      · change _ ∨ 0 + pipe.len + data.length ≤ pipe.cap
        omega
    · refine ⟨rfl, rfl, hin, rfl, ?_⟩
      rcases hroom with h | h | h | h | h
      · exact absurd h hclosed
      · exact absurd h hempty
      · exact absurd h hzero
      · exact Or.inl h
      · exact Or.inr h
  obtain ⟨hclen, hccap, hcin, hcbuf, hcroom⟩ := hfacts
  have hneed : (compact.len + data.length) % 0x100000000 = pipe.len + data.length := by
    rw [hclen, Nat.mod_eq_of_lt (by omega)]
  rw [hneed]
  by_cases hgrow : compact.cap < pipe.len + data.length
  · rw [if_pos hgrow]
    obtain ⟨hgcap, hglt, hghead, hglen, -, hgbuf⟩ :=
      @grow_spec compact (pipe.len + data.length) junk hcin (by omega) (by omega) hlen
    set big := compact.grow (pipe.len + data.length) junk
    have hfit : big.head + big.len + data.length ≤ big.cap := by omega
    rw [if_pos hfit]
    refine ⟨_, paiOk, rfl, ?_, ?_, ?_, ?_⟩
    · change big.head + (big.len + data.length) ≤ (overwrite big.buf _ data).length
      rw [length_overwrite hfit]
      exact (Nat.add_assoc _ _ _).symm.trans_le hfit
    · change (overwrite big.buf _ data).length < 2 ^ 32
      rw [length_overwrite hfit]
      exact hglt
    · change big.len + data.length ≤ _
      omega
    · rw [if_pos rfl, buffered_write hfit, hgbuf, hcbuf]
  · rw [if_neg hgrow]
    have hfit : compact.head + compact.len + data.length ≤ compact.cap := by
      rcases hcroom with h | h
      · omega
      · exact h
    rw [if_pos hfit]
    refine ⟨_, paiOk, rfl, ?_, ?_, ?_, ?_⟩
    · change compact.head + (compact.len + data.length) ≤ (overwrite compact.buf _ data).length
      rw [length_overwrite hfit]
      exact (Nat.add_assoc _ _ _).symm.trans_le hfit
    · change (overwrite compact.buf _ data).length < 2 ^ 32
      rw [length_overwrite hfit]
      exact hccap.trans_lt hcap
    · change compact.len + data.length ≤ _
      omega
    · rw [if_pos rfl, buffered_write hfit, hcbuf]

/-- A push that finds no room writes past the end of the buffer. -/
lemma pipePush_of_not_inRoom {pipe : Pipe} {data : List UInt8} (junk : ℕ → UInt8)
    (hlen : pipe.len + data.length < 2 ^ 31) (hroom : ¬ PushInRoom pipe data.length) :
    pipePush pipe data junk = none := by
  simp only [PushInRoom, not_or, not_lt, not_le] at hroom
  obtain ⟨hclosed, hempty, hzero, hgrow, hfit⟩ := hroom
  have hneed : (pipe.len + data.length) % 0x100000000 = pipe.len + data.length :=
    Nat.mod_eq_of_lt (by omega)
  unfold pipePush
  rw [if_neg hclosed, if_neg hempty]
  simp only [if_neg hzero]
  rw [hneed, if_neg (not_lt.mpr hgrow), if_neg (not_le.mpr hfit)]

/-- A pull moves the first buffered bytes to the caller and keeps the rest. -/
lemma pipePull_spec {pipe : Pipe} (n : ℕ) (hin : pipe.head + pipe.len ≤ pipe.cap) :
    (pipePull pipe n).got = pipe.buffered.take n ∧
      (pipePull pipe n).got ++ (pipePull pipe n).pipe.buffered = pipe.buffered ∧
      (pipePull pipe n).pipe.head + (pipePull pipe n).pipe.len ≤ (pipePull pipe n).pipe.cap ∧
      (pipePull pipe n).pipe.cap = pipe.cap ∧ (pipePull pipe n).pipe.len ≤ pipe.len := by
  unfold pipePull
  by_cases hzero : pipe.len = 0
  · rw [if_pos hzero]
    have hnil : pipe.buffered = [] := by rw [Pipe.buffered, hzero, slice_zero]
    refine ⟨?_, ?_, hin, rfl, le_rfl⟩
    · rw [hnil, List.take_nil]
    · exact List.nil_append _
  rw [if_neg hzero]
  have hmin : (if n < pipe.len then n else pipe.len) = min n pipe.len := by
    split_ifs with h
    · exact (min_eq_left h.le).symm
    · exact (min_eq_right (not_lt.mp h)).symm
  simp only [hmin]
  have hle : min n pipe.len ≤ pipe.len := min_le_right _ _
  have hsplit : pipe.buffered = slice pipe.buf pipe.head (min n pipe.len) ++
      slice pipe.buf (pipe.head + min n pipe.len) (pipe.len - min n pipe.len) := by
    rw [← slice_add, Nat.add_sub_cancel' hle, Pipe.buffered]
  refine ⟨?_, ?_, ?_, rfl, Nat.sub_le _ _⟩
  · rw [Pipe.buffered, slice, slice, List.take_take]
  · rw [hsplit]
    congr 1
    change slice pipe.buf _ (pipe.len - min n pipe.len) = _
    split_ifs with hend
    · rw [hend, slice_zero, slice_zero]
    · rfl
  · change (if pipe.len - min n pipe.len = 0 then 0 else pipe.head + min n pipe.len) +
      (pipe.len - min n pipe.len) ≤ pipe.cap
    split_ifs <;> omega

/-- The end of the stream is reported exactly when the pipe is closed and empty. -/
lemma pipePull_status {pipe : Pipe} (n : ℕ) (hin : pipe.head + pipe.len ≤ pipe.cap) :
    (pipePull pipe n).status = paiErrIo ↔ pipe.closed = true ∧ pipe.buffered = [] := by
  have hlen : pipe.buffered.length = pipe.len := length_slice hin
  have hnil : pipe.buffered = [] ↔ pipe.len = 0 := by rw [← hlen, List.length_eq_zero_iff]
  have hok : paiOk ≠ paiErrIo := by decide
  rw [hnil]
  unfold pipePull
  by_cases hzero : pipe.len = 0
  · rw [if_pos hzero]
    cases hclosed : pipe.closed
    · exact ⟨fun h => absurd h hok, fun h => absurd h.1 (by decide)⟩
    · exact ⟨fun _ => ⟨rfl, hzero⟩, fun _ => rfl⟩
  · rw [if_neg hzero]
    exact ⟨fun h => absurd h hok, fun h => absurd h.2 hzero⟩

/-- The invariant is what the pipe promises. -/
lemma PipeInv.law {t : PipeRun} {budget : ℕ} (h : PipeInv t budget) : PipeLaw t where
  fifo := h.fifo
  delivers n := (pipePull_spec n h.inside).1
  eof_iff n := pipePull_status n h.inside

/-- One call that finds room keeps the invariant. -/
lemma PipeInv.step {t : PipeRun} {budget : ℕ} (call : PipeCall)
    (h : PipeInv t (call.bytes + budget)) (hroom : CallInRoom t.pipe call) :
    ∃ t', t.step call = some t' ∧ PipeInv t' budget := by
  have hlen := h.len_lt
  cases call with
  | push data junk =>
    have hbytes : (PipeCall.push data junk).bytes = data.length := rfl
    rw [hbytes] at hlen
    obtain ⟨pipe', status, hpush, hin, hcap, hle, hbuf⟩ :=
      pipePush_of_inRoom junk h.inside h.cap_lt (by omega) hroom
    refine ⟨⟨pipe', if status = paiOk then t.pushed ++ data else t.pushed, t.pulled⟩, ?_, ?_⟩
    · rw [PipeRun.step, hpush]
      rfl
    · refine ⟨hin, hcap, by change pipe'.len + budget < 2 ^ 31; omega, ?_⟩
      change t.pulled ++ pipe'.buffered = if status = paiOk then t.pushed ++ data else t.pushed
      rw [hbuf]
      split_ifs
      · rw [← List.append_assoc, h.fifo]
      · exact h.fifo
  | pull n =>
    obtain ⟨-, hfifo, hin, hcap, hle⟩ := pipePull_spec n h.inside
    have hbytes : (PipeCall.pull n).bytes = 0 := rfl
    refine ⟨_, rfl, ⟨hin, ?_, ?_, ?_⟩⟩
    · change (pipePull t.pipe n).pipe.cap < 2 ^ 32
      rw [hcap]
      exact h.cap_lt
    · change (pipePull t.pipe n).pipe.len + budget < 2 ^ 31
      omega
    · change (t.pulled ++ (pipePull t.pipe n).got) ++ (pipePull t.pipe n).pipe.buffered = t.pushed
      rw [List.append_assoc, hfifo]
      exact h.fifo
  | close =>
    have hbytes : PipeCall.close.bytes = 0 := rfl
    refine ⟨_, rfl, ⟨h.inside, h.cap_lt, ?_, h.fifo⟩⟩
    change t.pipe.len + budget < 2 ^ 31
    omega

/-- A call that finds no room does not return. -/
lemma PipeInv.step_of_not_inRoom {t : PipeRun} {budget : ℕ} (call : PipeCall)
    (h : PipeInv t (call.bytes + budget)) (hroom : ¬ CallInRoom t.pipe call) :
    t.step call = none := by
  have hlen := h.len_lt
  cases call with
  | push data junk =>
    have hbytes : (PipeCall.push data junk).bytes = data.length := rfl
    rw [PipeRun.step, pipePush_of_not_inRoom junk (by omega) hroom]
    rfl
  | pull n => exact absurd trivial hroom
  | close => exact absurd trivial hroom

/-! ## Whole runs -/

/-- From any state with the invariant, a run returns with the pipe's promises kept exactly when
each of its pushes finds room. -/
lemma PipeInv.run_iff {t : PipeRun} (calls : List PipeCall) (h : PipeInv t (totalBytes calls)) :
    (∃ t', t.run calls = some t' ∧ PipeLaw t') ↔ RunInRoom t calls := by
  induction calls generalizing t with
  | nil => exact ⟨fun _ => trivial, fun _ => ⟨t, rfl, h.law⟩⟩
  | cons call calls ih =>
    have hsum : totalBytes (call :: calls) = call.bytes + totalBytes calls := by
      rw [totalBytes, List.map_cons, List.sum_cons, totalBytes]
    rw [hsum] at h
    have hcons : t.run (call :: calls) = (t.step call).bind fun t' => t'.run calls := by
      rw [PipeRun.run, List.foldlM_cons]
      rfl
    rw [hcons, RunInRoom]
    by_cases hroom : CallInRoom t.pipe call
    · obtain ⟨t₁, hstep, hinv⟩ := h.step call hroom
      rw [hstep]
      constructor
      · rintro ⟨t', hrun, hlaw⟩
        refine ⟨hroom, ?_⟩
        rintro t₂ h₂
        rw [← Option.some.inj h₂]
        exact (ih hinv).mp ⟨t', hrun, hlaw⟩
      · rintro ⟨-, hrest⟩
        exact (ih hinv).mpr (hrest t₁ rfl)
    · rw [h.step_of_not_inRoom call hroom]
      constructor
      · rintro ⟨t', hrun, -⟩
        cases hrun
      · rintro ⟨hcall, -⟩
        exact absurd hcall hroom

/-- A fresh pipe with nothing sent. -/
def PipeRun.fresh : PipeRun := ⟨Pipe.empty, [], []⟩

/-- Every run below `2 ^ 31` bytes stays inside the buffer and is a lossless FIFO exactly when each
of its pushes finds room behind the buffered bytes. -/
theorem pipe_lossless_iff (calls : List PipeCall) (hbytes : totalBytes calls < 2 ^ 31) :
    (∃ t, PipeRun.fresh.run calls = some t ∧ PipeLaw t) ↔ RunInRoom PipeRun.fresh calls := by
  apply PipeInv.run_iff
  refine ⟨le_rfl, by decide, ?_, rfl⟩
  change 0 + totalBytes calls < 2 ^ 31
  omega

/-- Pushing three bytes, pulling two and pushing one more finds room each time. -/
theorem pipe_lossless_iff_three_bytes :
    ∃ t, PipeRun.fresh.run [.push [1, 2, 3] fun _ => 0, .pull 2, .push [4] fun _ => 0] = some t ∧
      PipeLaw t := by
  refine (pipe_lossless_iff _ (by decide)).mpr ⟨Or.inr (Or.inr (Or.inl rfl)), ?_⟩
  intro t₁ h₁
  refine ⟨trivial, ?_⟩
  intro t₂ h₂
  have hfits : ((PipeRun.fresh.step (.push [1, 2, 3] fun _ => 0)).bind fun t =>
      (t.step (.pull 2)).map fun t => decide (t.pipe.head + t.pipe.len + 1 ≤ t.pipe.cap)) =
      some true := by
    decide +kernel
  rw [h₁, Option.bind_some, h₂, Option.map_some] at hfits
  have hfit : t₂.pipe.head + t₂.pipe.len + 1 ≤ t₂.pipe.cap :=
    of_decide_eq_true (Option.some.inj hfits)
  exact ⟨Or.inr (Or.inr (Or.inr (Or.inr hfit))), fun _ _ => trivial⟩

/-- Filling the first 256 cells, pulling one byte and pushing one. -/
def fillThenShift : List PipeCall :=
  [.push (List.replicate 256 7) fun _ => 0, .pull 1, .push [8] fun _ => 0]

/-- The check finds the buffer large enough, and the last byte is written at index 256 of 256. -/
theorem pipe_push_past_end :
    totalBytes fillThenShift < 2 ^ 31 ∧
      ¬ ∃ t, PipeRun.fresh.run fillThenShift = some t ∧ PipeLaw t := by
  have hnone : (PipeRun.fresh.run fillThenShift).isNone = true := by decide +kernel
  have htotal : totalBytes fillThenShift < 2 ^ 31 := by decide +kernel
  refine ⟨htotal, ?_⟩
  rintro ⟨t, hrun, -⟩
  rw [Option.isNone_iff_eq_none.mp hnone] at hrun
  cases hrun

end Prospero
