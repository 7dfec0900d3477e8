import Prospero.Compression.DecoderRuns

/-!
# Runs of the stream decoder

`kk_decode_stream` on a destination.  Every access of it is in range (`kkDecodeStream_inRange`).  It ends exactly
if no match has its own place as source (`kkDecodeStream_ends_iff`), and its output is the same for all earlier
contents of the destination exactly if no literals take up the byte at their own place
(`kkDecodeStream_output_iff`).  The decoder checks neither (`stuckStream_forever`, `deltaStream_depends`).
-/

namespace Prospero

open Emission

section Streams

variable (src : List UInt8) (malloc : ℕ → Bool) (dstLen : ℕ)

/-- `kk_decode_stream` on a destination of `dstLen` bytes. -/
def decodeStream (mem : ℕ → UInt8) : Except Halt (Unit × (ℕ → UInt8)) :=
  (kkDecodeStream src malloc dstLen).run (DstOp.run dstLen) mem

variable {src malloc dstLen}

/-- With a stuck operation a run goes on forever. -/
lemma decodeStream_of_stuck {op : DstOp} (hop : op ∈ (kkDecodeStream src malloc dstLen).ops) (hstuck : op.Stuck)
    (mem : ℕ → UInt8) : decodeStream src malloc dstLen mem = .error .forever := by
  obtain ⟨p', hchain, -⟩ := kkDecodeStream_spec src malloc dstLen
  rw [decodeStream, Emit.run, replay_of_stuck hchain hop hstuck]

/-- Without one it succeeds with the whole destination written, or is rejected. -/
lemma decodeStream_of_not_stuck (hstuck : ∀ op ∈ (kkDecodeStream src malloc dstLen).ops, ¬ op.Stuck) :
    (∀ mem, decodeStream src malloc dstLen mem = .error .reject) ∨
      ∃ write : (ℕ → UInt8) → ℕ → UInt8,
        Chain (DstOp.Extends dstLen) 0 (kkDecodeStream src malloc dstLen).ops dstLen ∧
        (∀ mem, replay (DstOp.run dstLen) (kkDecodeStream src malloc dstLen).ops mem = .ok (write mem)) ∧
        (∀ mem, decodeStream src malloc dstLen mem = .ok ((), write mem)) ∧
        ((∀ op ∈ (kkDecodeStream src malloc dstLen).ops, ¬ op.ReadsUnwritten) →
          ∀ mem₁ mem₂, ∀ a < dstLen, write mem₁ a = write mem₂ a) := by
  obtain ⟨p', hchain, hend⟩ := kkDecodeStream_spec src malloc dstLen
  obtain ⟨write, hrun, -, hsame⟩ := replay_of_not_stuck hchain hstuck
  cases hres : (kkDecodeStream src malloc dstLen).result with
  | error e =>
    rw [hres] at hend
    obtain rfl : e = Halt.reject := hend
    refine Or.inl fun mem => ?_
    rw [decodeStream, Emit.run, hrun, hres]
  | ok u =>
    rw [hres] at hend
    obtain rfl : p' = dstLen := hend
    refine Or.inr ⟨write, hchain, hrun, fun mem => ?_, fun hread mem₁ mem₂ =>
      hsame hread mem₁ mem₂ fun a ha => absurd ha (Nat.not_lt_zero a)⟩
    rw [decodeStream, Emit.run, hrun, hres]

/-- Each operation writes inside the destination, and reads from its start up to its own place. -/
lemma extends_of_chain {size p p' : ℕ} {ops : List DstOp} (h : Chain (DstOp.Extends size) p ops p') :
    ∀ op ∈ ops, op.place + op.length ≤ size ∧ op.ReadsUpTo op.place := by
  induction h with
  | nil => exact fun op hop => absurd hop List.not_mem_nil
  | cons hstep _ ih =>
    rw [List.forall_mem_cons]
    refine ⟨⟨?_, ?_⟩, ih⟩
    · rw [hstep.place, ← hstep.stop]
      exact hstep.fits
    · rw [hstep.place]
      exact hstep.reads

variable (src malloc dstLen)

/-- For every stream, destination and contents of it: a run ends, with success or `-1`, exactly if no match of
some bytes has its own place as source. -/
theorem kkDecodeStream_ends_iff (mem : ℕ → UInt8) :
    ((∃ mem', decodeStream src malloc dstLen mem = .ok ((), mem')) ∨
        decodeStream src malloc dstLen mem = .error .reject) ↔
      ∀ op ∈ (kkDecodeStream src malloc dstLen).ops, ¬ op.Stuck := by
  constructor
  · intro hend op hop hstuck
    have hforever := decodeStream_of_stuck hop hstuck mem
    rcases hend with ⟨mem', hok⟩ | hreject
    · rw [hforever] at hok
      cases hok
    · rw [hforever] at hreject
      cases hreject
  · intro hstuck
    rcases decodeStream_of_not_stuck hstuck with hreject | ⟨write, -, -, hok, -⟩
    · exact Or.inr (hreject mem)
    · exact Or.inl ⟨write mem, hok mem⟩

/-- For every stream, destination and contents of it: no access of a run is out of range, to the stream, the
destination or the scratch buffer; every operation writes inside the destination, and reads from its start up
to its own place. -/
theorem kkDecodeStream_inRange (mem : ℕ → UInt8) :
    decodeStream src malloc dstLen mem ≠ .error .fault ∧
      ∀ op ∈ (kkDecodeStream src malloc dstLen).ops,
        op.place + op.length ≤ dstLen ∧ op.ReadsUpTo op.place := by
  obtain ⟨p', hchain, -⟩ := kkDecodeStream_spec src malloc dstLen
  refine ⟨fun hfault => ?_, extends_of_chain hchain⟩
  by_cases hstuck : ∃ op ∈ (kkDecodeStream src malloc dstLen).ops, op.Stuck
  · obtain ⟨op, hop, hs⟩ := hstuck
    rw [decodeStream_of_stuck hop hs] at hfault
    cases hfault
  · have hstuck : ∀ op ∈ (kkDecodeStream src malloc dstLen).ops, ¬ op.Stuck := fun op hop hs =>
      hstuck ⟨op, hop, hs⟩
    rcases decodeStream_of_not_stuck hstuck with hreject | ⟨write, -, -, hok, -⟩
    · rw [hreject] at hfault
      cases hfault
    · rw [hok] at hfault
      cases hfault

/-- What a successful run leaves in the destination is the same for all earlier contents of it exactly if no
literals take up the byte at their own place. -/
theorem kkDecodeStream_output_iff {mem mem' : ℕ → UInt8}
    (hrun : decodeStream src malloc dstLen mem = .ok ((), mem')) :
    (∀ mem₁ mem₂ : ℕ → UInt8, ∃ mem₁' mem₂', decodeStream src malloc dstLen mem₁ = .ok ((), mem₁') ∧
      decodeStream src malloc dstLen mem₂ = .ok ((), mem₂') ∧ ∀ a < dstLen, mem₁' a = mem₂' a) ↔
      ∀ op ∈ (kkDecodeStream src malloc dstLen).ops, ¬ op.ReadsUnwritten := by
  have hstuck : ∀ op ∈ (kkDecodeStream src malloc dstLen).ops, ¬ op.Stuck := by
    intro op hop hs
    rw [decodeStream_of_stuck hop hs] at hrun
    cases hrun
  rcases decodeStream_of_not_stuck hstuck with hreject | ⟨write, hchain, hreplay, hok, hsame⟩
  · rw [hreject] at hrun
    cases hrun
  constructor
  · intro hall op hop hread
    obtain ⟨a, ha, lit, hbyte⟩ := replay_of_readsUnwritten hchain hstuck hop hread
    obtain ⟨mem₁', mem₂', h₁, h₂, heq⟩ := hall (fun _ => 0) fun _ => 1
    obtain ⟨-, rfl⟩ := Prod.mk.inj (Except.ok.inj ((hok _).symm.trans h₁))
    obtain ⟨-, rfl⟩ := Prod.mk.inj (Except.ok.inj ((hok _).symm.trans h₂))
    have heq := heq a ha
    rw [hbyte _ _ (hreplay _), hbyte _ _ (hreplay _)] at heq
    exact absurd (add_left_cancel heq) (by decide)
  · intro hread mem₁ mem₂
    exact ⟨write mem₁, write mem₂, hok mem₁, hok mem₂, hsame hread mem₁ mem₂⟩

end Streams

/-! ## Streams that go wrong -/

/-- A stream for 100 bytes: eight of them, and a literal and a match of one byte behind a near offset of zero. -/
def stuckStream : List UInt8 :=
  [0x0C, 10, 0, 0, 27, 0x88, 0, 25, 1, 2, 3, 4, 5, 6, 7, 8, 0x80, 1, 9, 0x80, 2, 0x89, 1, 2, 0, 0, 0, 8, 0, 0, 0,
    0, 0]

/-- The match is never finished. -/
theorem stuckStream_forever :
    decodeStream stuckStream (fun _ => true) 100 (fun _ => 0) = .error .forever := by
  have hops : DstOp.copyMatch 9 9 1 ∈ (kkDecodeStream stuckStream (fun _ => true) 100).ops := by
    decide +kernel
  exact decodeStream_of_stuck hops ⟨rfl, Nat.one_pos⟩ _

/-- The sample behind its header: bit three of `mode` says whether the literal behind the near offset of zero is
plain. -/
def deltaStream (mode : UInt8) : List UInt8 := (sampleStream mode).drop 16

/-- Streams without stuck operations that the decoder does not reject succeed. -/
lemma exists_decodeStream {src : List UInt8} {malloc : ℕ → Bool} {dstLen : ℕ}
    (hops : ∀ op ∈ (kkDecodeStream src malloc dstLen).ops, ¬ op.Stuck)
    (hres : (kkDecodeStream src malloc dstLen).result = .ok ()) (mem : ℕ → UInt8) :
    ∃ mem', decodeStream src malloc dstLen mem = .ok ((), mem') := by
  rcases decodeStream_of_not_stuck hops with hreject | ⟨write, -, -, hok, -⟩
  · obtain ⟨p', hchain, -⟩ := kkDecodeStream_spec src malloc dstLen
    obtain ⟨write, hrun, -⟩ := replay_of_not_stuck hchain hops
    have hreject := hreject mem
    rw [decodeStream, Emit.run, hrun, hres] at hreject
    cases hreject
  · exact ⟨write mem, hok mem⟩

lemma deltaStream_ops : (kkDecodeStream (deltaStream 0) (fun _ => true) 100).ops =
    [.copyIn 0 [1, 2, 3, 4, 5, 6, 7, 8], .addDelta 8 8 [9], .copyMatch 9 9 0, .copyMatch 9 1 91,
      .addDelta 100 92 []] := by
  decide +kernel

lemma deltaStream_plain : (kkDecodeStream (deltaStream 8) (fun _ => true) 100).ops =
    [.copyIn 0 [1, 2, 3, 4, 5, 6, 7, 8], .copyIn 8 [9], .copyMatch 9 9 0, .copyMatch 9 1 91,
      .copyIn 100 []] := by
  decide +kernel

/-- With plain literals it succeeds, and the output is the same for all destinations. -/
theorem deltaStream_same : ∃ mem',
    decodeStream (deltaStream 8) (fun _ => true) 100 (fun _ => 0) = .ok ((), mem') ∧
    ∀ mem₁ mem₂ : ℕ → UInt8, ∃ mem₁' mem₂',
      decodeStream (deltaStream 8) (fun _ => true) 100 mem₁ = .ok ((), mem₁') ∧
      decodeStream (deltaStream 8) (fun _ => true) 100 mem₂ = .ok ((), mem₂') ∧
      ∀ a < 100, mem₁' a = mem₂' a := by
  have hstuck : ∀ op ∈ (kkDecodeStream (deltaStream 8) (fun _ => true) 100).ops, ¬ op.Stuck := by
    rw [deltaStream_plain]
    simp [DstOp.Stuck]
  obtain ⟨mem', hrun⟩ := exists_decodeStream hstuck rfl fun _ => 0
  refine ⟨mem', hrun, (kkDecodeStream_output_iff (deltaStream 8) (fun _ => true) 100 hrun).mpr ?_⟩
  rw [deltaStream_plain]
  simp [DstOp.ReadsUnwritten]

/-- With delta literals it succeeds and takes up what was there before. -/
theorem deltaStream_depends :
    (∀ mem, ∃ mem', decodeStream (deltaStream 0) (fun _ => true) 100 mem = .ok ((), mem')) ∧
    ∃ a < 100, ∀ mem₁ mem₂ : ℕ → UInt8,
      decodeStream (deltaStream 0) (fun _ => true) 100 (fun _ => 0) = .ok ((), mem₁) →
      decodeStream (deltaStream 0) (fun _ => true) 100 (fun _ => 1) = .ok ((), mem₂) → mem₁ a ≠ mem₂ a := by
  have hstuck : ∀ op ∈ (kkDecodeStream (deltaStream 0) (fun _ => true) 100).ops, ¬ op.Stuck := by
    rw [deltaStream_ops]
    simp [DstOp.Stuck]
  refine ⟨exists_decodeStream hstuck rfl, ?_⟩
  rcases decodeStream_of_not_stuck hstuck with hreject | ⟨write, hchain, hreplay, hok, -⟩
  · obtain ⟨mem', hrun⟩ := exists_decodeStream hstuck rfl fun _ => 0
    rw [hreject] at hrun
    cases hrun
  have hmem : DstOp.addDelta 8 8 [9] ∈ (kkDecodeStream (deltaStream 0) (fun _ => true) 100).ops := by
    rw [deltaStream_ops]
    simp
  obtain ⟨a, ha, lit, hbyte⟩ := replay_of_readsUnwritten hchain hstuck hmem ⟨rfl, by simp⟩
  refine ⟨a, ha, fun mem₁ mem₂ h₁ h₂ heq => ?_⟩
  obtain ⟨-, rfl⟩ := Prod.mk.inj (Except.ok.inj ((hok _).symm.trans h₁))
  obtain ⟨-, rfl⟩ := Prod.mk.inj (Except.ok.inj ((hok _).symm.trans h₂))
  rw [hbyte _ _ (hreplay _), hbyte _ _ (hreplay _)] at heq
  exact absurd (add_left_cancel heq) (by decide)

end Prospero
