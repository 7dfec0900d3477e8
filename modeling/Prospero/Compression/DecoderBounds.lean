import Prospero.Compression.Decoder
import Mathlib.Tactic.Linarith

/-!
# The accesses of the decoder

Every operation of the decoder goes to the place right behind the bytes that it has written, fits the
destination, and reads no place beyond its own (`DstOp.Extends`).  Each function has a specification in
these terms, from the reads of the stream to `kkDecodeStream_spec`; none of them ends with `Halt.fault` or
`Halt.forever`, so that every access to the stream and to the allocated buffer is in range and every loop of
the functions ends.

### Outline

* `spec_rleStep`: a command of `kk_nested_rle` brings the two cursors of its input or its output together.
* `spec_runStep`: a command of `kk_runs` keeps the places of `RunsOk`.
* `kkLzRead_spec`: the first eight bytes of the output fit, as the chunk is longer than its streams.
-/

namespace Prospero

open ByteString Emission

/-! ## Operations -/

/-- The place an operation writes first. -/
def DstOp.place : DstOp → ℕ
  | .copyIn place _ => place
  | .fill place _ _ => place
  | .copyMatch place _ _ => place
  | .addDelta place _ _ => place

/-- The number of bytes an operation writes. -/
def DstOp.length : DstOp → ℕ
  | .copyIn _ bytes => bytes.length
  | .fill _ _ n => n
  | .copyMatch _ _ n => n
  | .addDelta _ _ lits => lits.length

/-- The operation does not read. -/
def DstOp.IsPlain : DstOp → Prop
  | .copyIn _ _ => True
  | .fill _ _ _ => True
  | .copyMatch _ _ _ => False
  | .addDelta _ _ _ => False

/-- The first place an operation reads, if it reads, is from the start of the output up to `p`. -/
def DstOp.ReadsUpTo (p : ℕ) : DstOp → Prop
  | .copyIn _ _ => True
  | .fill _ _ _ => True
  | .copyMatch _ source _ => 0 ≤ source ∧ source ≤ p
  | .addDelta _ base _ => 0 ≤ base ∧ base ≤ p

/-- The operation continues an output of `p` bytes to one of `p'`. -/
structure DstOp.Extends (size p : ℕ) (op : DstOp) (p' : ℕ) : Prop where
  /-- It starts at the end of the output. -/
  place : op.place = p
  /-- It ends at the new end. -/
  stop : p' = p + op.length
  /-- This end is inside the destination. -/
  fits : p' ≤ size
  /-- It reads the output. -/
  reads : op.ReadsUpTo p

/-- The operation does this and does not read. -/
def DstOp.ExtendsPlain (size p : ℕ) (op : DstOp) (p' : ℕ) : Prop :=
  op.Extends size p p' ∧ op.IsPlain

lemma chain_le_size {size p p' : ℕ} {ops : List DstOp} (h : Chain (DstOp.Extends size) p ops p')
    (hp : p ≤ size) : p' ≤ size := by
  induction h with
  | nil => exact hp
  | cons hstep _ ih => exact ih hstep.fits

lemma u32Sub_le {a b : ℕ} (h : b ≤ a) : u32Sub a b ≤ a - b := by
  unfold u32Sub
  omega

lemma u32Sub_eq {a b : ℕ} (h : b ≤ a) (hlt : a - b < 4294967296) : u32Sub a b = a - b := by
  unfold u32Sub
  omega

/-- A comparison with the distance of two places that does not reject. -/
lemma le_of_not_u32Sub_lt {a b n : ℕ} (h : b ≤ a) (hn : ¬ u32Sub a b < n) : b + n ≤ a := by
  have hle := u32Sub_le h
  omega

/-! ## Input -/

section Input

variable {src : List UInt8} {step : ℕ → DstOp → ℕ → Prop} {s : ℕ} {i : KkIn}

lemma spec_byteAt {p : ℕ} (hp : p < src.length) :
    (byteAt src p).Spec step (· = Halt.reject) s fun b s' => s' = s ∧ b < 256 := by
  unfold byteAt
  rw [List.getElem?_eq_getElem hp]
  exact spec_pure ⟨rfl, UInt8.toNat_lt _⟩

lemma spec_sliceAt {p n : ℕ} (hp : p + n ≤ src.length) :
    (sliceAt src p n).Spec step (· = Halt.reject) s fun bytes s' => s' = s ∧ bytes.length = n := by
  unfold sliceAt
  rw [if_pos hp]
  refine spec_pure ⟨rfl, ?_⟩
  rw [List.length_take, List.length_drop]
  omega

lemma spec_kkInU8 (hstop : i.stop ≤ src.length) :
    (kkInU8 src i).Spec step (· = Halt.reject) s fun r s' =>
      s' = s ∧ r.1 < 256 ∧ r.2 = ⟨i.p + 1, i.stop⟩ ∧ i.p + 1 ≤ i.stop := by
  refine spec_ite (fun _ => spec_halt rfl) fun h => ?_
  refine (spec_byteAt (by omega)).bind ?_
  rintro b _ ⟨rfl, hb⟩
  exact spec_pure ⟨rfl, hb, rfl, by omega⟩

lemma spec_kkInU16 (hstop : i.stop ≤ src.length) :
    (kkInU16 src i).Spec step (· = Halt.reject) s fun r s' =>
      s' = s ∧ r.2 = ⟨i.p + 2, i.stop⟩ ∧ i.p + 2 ≤ i.stop := by
  refine spec_ite (fun _ => spec_halt rfl) fun h => ?_
  refine (spec_byteAt (by omega)).bind ?_
  rintro b0 _ ⟨rfl, -⟩
  refine (spec_byteAt (by omega)).bind ?_
  rintro b1 _ ⟨rfl, -⟩
  exact spec_pure ⟨rfl, rfl, by omega⟩

lemma spec_kkInU24 (hstop : i.stop ≤ src.length) :
    (kkInU24 src i).Spec step (· = Halt.reject) s fun r s' =>
      s' = s ∧ r.2 = ⟨i.p + 3, i.stop⟩ ∧ i.p + 3 ≤ i.stop := by
  refine spec_ite (fun _ => spec_halt rfl) fun h => ?_
  refine (spec_byteAt (by omega)).bind ?_
  rintro b0 _ ⟨rfl, -⟩
  refine (spec_byteAt (by omega)).bind ?_
  rintro b1 _ ⟨rfl, -⟩
  refine (spec_byteAt (by omega)).bind ?_
  rintro b2 _ ⟨rfl, -⟩
  exact spec_pure ⟨rfl, rfl, by omega⟩

lemma spec_kkInU24Be (hstop : i.stop ≤ src.length) :
    (kkInU24Be src i).Spec step (· = Halt.reject) s fun r s' =>
      s' = s ∧ r.2 = ⟨i.p + 3, i.stop⟩ ∧ i.p + 3 ≤ i.stop := by
  refine spec_ite (fun _ => spec_halt rfl) fun h => ?_
  refine (spec_byteAt (by omega)).bind ?_
  rintro b0 _ ⟨rfl, -⟩
  refine (spec_byteAt (by omega)).bind ?_
  rintro b1 _ ⟨rfl, -⟩
  refine (spec_byteAt (by omega)).bind ?_
  rintro b2 _ ⟨rfl, -⟩
  exact spec_pure ⟨rfl, rfl, by omega⟩

lemma spec_kkInBytes {n : ℕ} (hle : i.p ≤ i.stop) :
    (kkInBytes i n).Spec step (· = Halt.reject) s fun r s' =>
      s' = s ∧ r = (i.p, ⟨i.p + n, i.stop⟩) ∧ i.p + n ≤ i.stop := by
  refine spec_ite (fun _ => spec_halt rfl) fun h => ?_
  exact spec_pure ⟨rfl, rfl, le_of_not_u32Sub_lt hle h⟩

lemma spec_copyIn {size place : ℕ} {bytes : List UInt8} (h : place + bytes.length ≤ size) :
    (emit (.copyIn place bytes) : Dec Unit).Spec (DstOp.ExtendsPlain size) (· = Halt.reject) place
      fun _ s' => s' = place + bytes.length :=
  spec_emit ⟨⟨rfl, rfl, h, trivial⟩, trivial⟩ rfl

lemma spec_fill {size place n : ℕ} {byte : UInt8} (h : place + n ≤ size) :
    (emit (.fill place byte n) : Dec Unit).Spec (DstOp.ExtendsPlain size) (· = Halt.reject) place
      fun _ s' => s' = place + n :=
  spec_emit ⟨⟨rfl, rfl, h, trivial⟩, trivial⟩ rfl

lemma spec_kkInCopy {size place n : ℕ} (hle : i.p ≤ i.stop) (hstop : i.stop ≤ src.length)
    (hfits : i.p + n ≤ i.stop → place + n ≤ size) :
    (kkInCopy src i n place).Spec (DstOp.ExtendsPlain size) (· = Halt.reject) place fun r s' =>
      s' = place + n ∧ r = ⟨i.p + n, i.stop⟩ ∧ i.p + n ≤ i.stop := by
  refine (spec_kkInBytes hle).bind ?_
  rintro _ _ ⟨rfl, rfl, hp⟩
  refine (spec_sliceAt (by omega)).bind ?_
  rintro bytes _ ⟨rfl, hlen⟩
  refine Emit.Spec.bind (spec_copyIn (by rw [hlen]; exact hfits hp)) ?_
  rintro _ _ rfl
  exact spec_pure ⟨by rw [hlen], rfl, hp⟩

end Input

/-! ## Nested chunks -/

section Nested

variable {src : List UInt8} {size dstEnd : ℕ}

/-- What is left to do for the command loop of `kk_nested_rle`. -/
def Rle.rest (dstEnd : ℕ) (s : Rle) : ℕ := (s.cmdEnd - s.cmd) + (dstEnd - s.cur)

/-- The two writes of a command: bytes of the input, then repetitions. -/
lemma spec_copyFill {α : Type} {place p ncopy nrle : ℕ} {byte : UInt8} {a : α} {Q : α → ℕ → Prop}
    (hread : p + ncopy ≤ src.length) (hfits : place + (ncopy + nrle) ≤ size)
    (h : Q a (place + ncopy + nrle)) :
    (do
      let bytes ← sliceAt src p ncopy
      emit (.copyIn place bytes)
      emit (.fill (place + ncopy) byte nrle)
      pure a : Dec α).Spec (DstOp.ExtendsPlain size) (· = Halt.reject) place Q := by
  refine (spec_sliceAt hread).bind ?_
  rintro bytes _ ⟨rfl, hlen⟩
  refine Emit.Spec.bind (spec_copyIn (by omega)) ?_
  rintro _ _ rfl
  rw [hlen]
  refine Emit.Spec.bind (spec_fill (by omega)) ?_
  rintro _ _ rfl
  exact spec_pure h

/-- One command leaves less to do. -/
lemma spec_rleStep {s : Rle} (hcmd : s.cmd < s.cmdEnd) (hend : s.cmdEnd ≤ src.length)
    (hcur : s.cur ≤ dstEnd) (hsize : dstEnd ≤ size) :
    (rleStep src dstEnd s).Spec (DstOp.ExtendsPlain size) (· = Halt.reject) s.cur fun s' p' =>
      p' = s'.cur ∧ s'.cmdEnd ≤ src.length ∧ s'.cur ≤ dstEnd ∧ s'.rest dstEnd < s.rest dstEnd := by
  unfold rleStep Rle.rest
  refine (spec_byteAt (by omega)).bind ?_
  rintro c p₀ ⟨hp₀, hc⟩
  subst hp₀
  refine spec_ite (fun hlong => ?_) fun _ => spec_ite (fun hmid => ?_) fun _ =>
    spec_ite (fun hone => ?_) fun _ => spec_ite (fun hnine => ?_) fun _ => ?_
  · -- either some bytes are copied or the command stands for three repetitions at least
    have hsome : 0 < ((0xFFFFFFFF - c) &&& 0xF) + c >>> 4 := by
      rcases hlong with rfl | hlong
      · decide
      · rw [Nat.shiftRight_eq_div_pow]
        omega
    generalize (0xFFFFFFFF - c) &&& 0xF = ncopy at hsome ⊢
    refine spec_ite (fun _ => spec_halt rfl) fun h => ?_
    obtain ⟨hbelow, hroom⟩ := not_or.mp h
    have hroom := le_of_not_u32Sub_lt hcur hroom
    refine spec_copyFill (by omega) (by omega) ⟨rfl, ?_, ?_, ?_⟩
    · exact (Nat.sub_le _ _).trans hend
    · change s.cur + _ + _ ≤ dstEnd
      omega
    · change (s.cmdEnd - _ - s.cmd) + (dstEnd - (s.cur + _ + _)) < _
      omega
  · refine spec_ite (fun _ => spec_halt rfl) fun htwo => ?_
    refine (spec_byteAt (by omega)).bind ?_
    rintro c' p₁ ⟨hp₁, -⟩
    subst hp₁
    refine spec_ite (fun _ => spec_halt rfl) fun h => ?_
    obtain ⟨hbelow, hroom⟩ := not_or.mp h
    have hroom := le_of_not_u32Sub_lt hcur hroom
    refine spec_copyFill (by omega) (by omega) ⟨rfl, ?_, ?_, ?_⟩
    · exact (Nat.sub_le _ _).trans hend
    · change s.cur + _ + _ ≤ dstEnd
      omega
    · change (s.cmdEnd - 2 - (s.cmd + _)) + (dstEnd - (s.cur + _ + _)) < _
      omega
  · refine spec_ite (fun _ => spec_halt rfl) fun _ => ?_
    refine (spec_byteAt (by omega)).bind ?_
    rintro b p₁ ⟨hp₁, -⟩
    subst hp₁
    refine spec_pure ⟨rfl, ?_, hcur, ?_⟩
    · exact (Nat.sub_le _ _).trans hend
    · change (s.cmdEnd - 1 - (s.cmd + 1)) + (dstEnd - s.cur) < _
      omega
  · refine spec_ite (fun _ => spec_halt rfl) fun htwo => ?_
    refine (spec_byteAt (by omega)).bind ?_
    rintro c' p₁ ⟨hp₁, -⟩
    subst hp₁
    generalize ((c' ||| c <<< 8) - 0x8FF) * 128 = nrle
    refine spec_ite (fun _ => spec_halt rfl) fun h => ?_
    have hroom := le_of_not_u32Sub_lt hcur h
    refine Emit.Spec.bind (spec_fill (by omega)) ?_
    rintro _ _ rfl
    refine spec_pure ⟨rfl, ?_, ?_, ?_⟩
    · exact (Nat.sub_le _ _).trans hend
    · exact hroom
    · change (s.cmdEnd - 2 - s.cmd) + (dstEnd - (s.cur + _)) < _
      omega
  · refine spec_ite (fun _ => spec_halt rfl) fun htwo => ?_
    refine (spec_byteAt (by omega)).bind ?_
    rintro c' p₁ ⟨hp₁, -⟩
    subst hp₁
    refine spec_ite (fun _ => spec_halt rfl) fun h => ?_
    obtain ⟨hbelow, hroom⟩ := not_or.mp h
    have hroom := le_of_not_u32Sub_lt hcur hroom
    refine (spec_sliceAt (by omega)).bind ?_
    rintro bytes p₂ ⟨hp₂, hlen⟩
    subst hp₂
    refine Emit.Spec.bind (spec_copyIn (by omega)) ?_
    rintro _ _ rfl
    refine spec_pure ⟨?_, ?_, ?_, ?_⟩
    · rw [hlen]
    · exact (Nat.sub_le _ _).trans hend
    · exact hroom
    · change (s.cmdEnd - 2 - (s.cmd + _)) + (dstEnd - (s.cur + _)) < _
      omega

/-- With a round for everything that is left to do the loop comes to its end. -/
lemma spec_rleLoop {rounds : ℕ} {s : Rle} (hrounds : s.rest dstEnd < rounds)
    (hend : s.cmdEnd ≤ src.length) (hcur : s.cur ≤ dstEnd) (hsize : dstEnd ≤ size) :
    (rleLoop src dstEnd rounds s).Spec (DstOp.ExtendsPlain size) (· = Halt.reject) s.cur
      fun s' p' => p' = s'.cur := by
  induction rounds generalizing s with
  | zero => exact absurd hrounds (Nat.not_lt_zero _)
  | succ rounds ih =>
    refine spec_ite (fun hcmd => ?_) fun _ => spec_pure rfl
    refine (spec_rleStep hcmd hend hcur hsize).bind ?_
    rintro s' _ ⟨rfl, hend', hcur', hless⟩
    exact ih (by omega) hend' hcur'

lemma spec_kkNestedRle {i : KkIn} {place dstSize : ℕ} (hle : i.p ≤ i.stop)
    (hstop : i.stop ≤ src.length) (hsize : place + dstSize ≤ size) :
    (kkNestedRle src i place dstSize).Spec (DstOp.ExtendsPlain size) (· = Halt.reject) place
      fun _ p' => p' = place + dstSize := by
  unfold kkNestedRle
  refine spec_ite (fun _ => spec_halt rfl) fun hzero => spec_ite (fun _ => ?_) fun _ => ?_
  · refine (spec_kkInU8 hstop).bind ?_
    rintro ⟨b, _⟩ _ ⟨rfl, -, rfl, -⟩
    exact spec_fill hsize
  · have hsome := u32Sub_le hle
    refine (spec_byteAt (by omega)).bind ?_
    rintro b _ ⟨rfl, -⟩
    refine spec_ite (fun _ => spec_halt rfl) fun _ => ?_
    refine Emit.Spec.bind (R := fun s' p' => p' = s'.cur) (spec_rleLoop ?_ hstop ?_ hsize) ?_
    · unfold Rle.rest
      dsimp only
      omega
    · exact Nat.le_add_right _ _
    · rintro s' _ rfl
      refine spec_ite (fun _ => spec_halt rfl) fun h => ?_
      exact spec_pure (not_not.mp (not_or.mp h).2)

/-- The input has moved on, up to its end at most. -/
structure KkIn.Past (i i' : KkIn) : Prop where
  /-- It has not moved back. -/
  le : i.p ≤ i'.p
  /-- It is not past the end. -/
  le_stop : i'.p ≤ i'.stop
  /-- The end is the same. -/
  stop : i'.stop = i.stop

lemma KkIn.Past.trans {i i' i'' : KkIn} (h : i.Past i') (h' : i'.Past i'') : i.Past i'' :=
  ⟨h.le.trans h'.le, h'.le_stop, h'.stop.trans h.stop⟩

lemma spec_nestedSizes {step : ℕ → DstOp → ℕ → Prop} {s : ℕ} {i : KkIn} {b0 t : ℕ}
    (hstop : i.stop ≤ src.length) :
    (nestedSizes src i b0 t).Spec step (· = Halt.reject) s fun r s' =>
      s' = s ∧ (t = 0 → r.1.1 = r.1.2) ∧ i.Past r.2 := by
  unfold nestedSizes
  refine spec_ite (fun _ => spec_ite (fun _ => ?_) fun _ => ?_) fun ht =>
    spec_ite (fun _ => spec_halt rfl) fun _ => spec_ite (fun _ => ?_) fun _ => ?_
  · refine (spec_kkInU8 hstop).bind ?_
    rintro ⟨b1, _⟩ _ ⟨rfl, -, rfl, h1⟩
    exact spec_pure ⟨rfl, fun _ => rfl, Nat.le_add_right _ _, h1, rfl⟩
  · refine (spec_kkInU8 hstop).bind ?_
    rintro ⟨b1, _⟩ _ ⟨rfl, -, rfl, -⟩
    refine Emit.Spec.bind (spec_kkInU8 (by exact hstop)) ?_
    rintro ⟨b2, _⟩ _ ⟨rfl, -, rfl, h2⟩
    refine spec_ite (fun _ => spec_halt rfl) fun _ => ?_
    exact spec_pure ⟨rfl, fun _ => rfl, Nat.le_add_right _ 2, h2, rfl⟩
  · refine (spec_kkInU8 hstop).bind ?_
    rintro ⟨b1, _⟩ _ ⟨rfl, -, rfl, -⟩
    refine Emit.Spec.bind (spec_kkInU8 (by exact hstop)) ?_
    rintro ⟨b2, _⟩ _ ⟨rfl, -, rfl, h2⟩
    exact spec_pure ⟨rfl, fun h => absurd h ht, Nat.le_add_right _ 2, h2, rfl⟩
  · refine (spec_kkInU8 hstop).bind ?_
    rintro ⟨b1, _⟩ _ ⟨rfl, -, rfl, -⟩
    refine Emit.Spec.bind (spec_kkInU8 (by exact hstop)) ?_
    rintro ⟨b2, _⟩ _ ⟨rfl, -, rfl, -⟩
    refine Emit.Spec.bind (spec_kkInU8 (by exact hstop)) ?_
    rintro ⟨b3, _⟩ _ ⟨rfl, -, rfl, -⟩
    refine Emit.Spec.bind (spec_kkInU8 (by exact hstop)) ?_
    rintro ⟨b4, _⟩ _ ⟨rfl, -, rfl, h4⟩
    refine spec_ite (fun _ => spec_halt rfl) fun _ => ?_
    exact spec_pure ⟨rfl, fun h => absurd h ht, Nat.le_add_right _ 4, h4, rfl⟩

/-- A nested chunk writes as many bytes as it reports, and no more than it is given room for. -/
lemma spec_kkNestedChunkDecode {i : KkIn} {place cap : ℕ} (hstop : i.stop ≤ src.length)
    (hsize : place + cap ≤ size) :
    (kkNestedChunkDecode src i place cap).Spec (DstOp.ExtendsPlain size) (· = Halt.reject) place
      fun r p' => p' = place + r.1 ∧ r.1 ≤ cap ∧ i.Past r.2 := by
  unfold kkNestedChunkDecode
  refine (spec_kkInU8 hstop).bind ?_
  rintro ⟨b0, _⟩ _ ⟨rfl, -, rfl, h0⟩
  refine Emit.Spec.bind (spec_nestedSizes (by exact hstop)) ?_
  rintro ⟨⟨srcSize, dstSize⟩, i'⟩ _ ⟨rfl, hsame, hpast⟩
  have hpast : i.Past i' := ⟨(Nat.le_succ _).trans hpast.le, hpast.le_stop, hpast.stop⟩
  have hstop' : i'.stop ≤ src.length := hpast.stop.trans_le hstop
  refine spec_ite (fun _ => spec_halt rfl) fun hcap => ?_
  have hcap := Nat.not_lt.mp hcap
  refine (spec_kkInBytes hpast.le_stop).bind ?_
  rintro ⟨_, _⟩ _ ⟨rfl, heq, hp⟩
  obtain ⟨rfl, rfl⟩ := Prod.mk.inj heq
  have hpast' : i.Past ⟨i'.p + srcSize, i'.stop⟩ :=
    ⟨hpast.le.trans (Nat.le_add_right _ _), hp, hpast.stop⟩
  refine spec_ite (fun ht => ?_) fun _ => spec_ite (fun _ => ?_) fun _ => spec_halt rfl
  · obtain rfl : srcSize = dstSize := hsame ht
    refine (spec_sliceAt (by omega)).bind ?_
    rintro bytes _ ⟨rfl, hlen⟩
    refine Emit.Spec.bind (spec_copyIn (by omega)) ?_
    rintro _ _ rfl
    exact spec_pure ⟨by rw [hlen], hcap, hpast'⟩
  · refine Emit.Spec.bind (spec_kkNestedRle (Nat.le_add_right _ _) (hp.trans hstop') (by omega)) ?_
    rintro _ _ rfl
    exact spec_pure ⟨rfl, hcap, hpast'⟩

end Nested

/-! ## The allocated buffer -/

section Scratch

variable {src : List UInt8} {step : ℕ → DstOp → ℕ → Prop} {size s : ℕ}

/-- An operation that continues the allocated buffer. -/
lemma runScratch_extends {p p' : ℕ} {op : DstOp} {written : List UInt8}
    (hstep : op.ExtendsPlain size p p') (hlen : written.length = p) :
    ∃ written', op.runScratch size written = .ok written' ∧ written'.length = p' := by
  obtain ⟨⟨hplace, hstop, hfits, -⟩, hplain⟩ := hstep
  subst hlen
  cases op with
  | copyIn place bytes =>
    refine ⟨written ++ bytes, if_pos ⟨hplace, ?_⟩, by rw [List.length_append, hstop]; rfl⟩
    rw [show place = written.length from hplace]
    exact hstop.symm.trans_le hfits
  | fill place byte n =>
    refine ⟨written ++ List.replicate n byte, if_pos ⟨hplace, ?_⟩, ?_⟩
    · rw [List.length_append, List.length_replicate, hstop]
      rfl
    · rw [show place = written.length from hplace]
      exact hstop.symm.trans_le hfits
  | copyMatch place source n => exact absurd hplain id
  | addDelta place base lits => exact absurd hplain id

lemma spec_inScratch {α : Type} {m : Dec α} {scratch : List UInt8} {Q : α → ℕ → Prop}
    (hm : m.Spec (DstOp.ExtendsPlain size) (· = Halt.reject) scratch.length Q) :
    (inScratch size m scratch).Spec step (· = Halt.reject) s fun r s' => s' = s ∧ Q r.1 r.2.length := by
  have hstep (p : ℕ) (op : DstOp) (p' : ℕ) (l : List UInt8) (hop : DstOp.ExtendsPlain size p op p')
      (hl : l.length = p) : (∃ l', DstOp.runScratch size op l = .ok l' ∧ l'.length = p') ∨
        ∃ e, DstOp.runScratch size op l = .error e ∧ False := Or.inl (runScratch_extends hop hl)
  have hrun := hm.run hstep rfl
  unfold inScratch
  rcases hrun with ⟨a, scratch', p', hok, hQ, rfl⟩ | ⟨e, herr, he⟩
  · rw [hok]
    exact spec_pure ⟨rfl, hQ⟩
  · rw [herr]
    exact spec_halt (he.resolve_right id)

/-- A far offset with its high byte. -/
lemma spec_readHigh {base off : ℕ} {i : KkIn} (hstop : i.stop ≤ src.length) (h : i.p + 3 ≤ i.stop) :
    Emit.Spec step (· = Halt.reject)
      (if 0xC00000 - 1 ≤ base ∧ 0xC00000 ≤ off then do
        let (hi, i') ← kkInU8 src ⟨i.p + 3, i.stop⟩
        pure (off + hi <<< 22, i')
      else pure (off, ⟨i.p + 3, i.stop⟩)) s fun r s' => s' = s ∧ i.Past r.2 := by
  refine spec_ite (fun _ => ?_) fun _ => spec_pure ⟨rfl, Nat.le_add_right _ _, h, rfl⟩
  refine Emit.Spec.bind (spec_kkInU8 (by exact hstop)) ?_
  rintro ⟨hi, _⟩ _ ⟨rfl, -, rfl, h4⟩
  exact spec_pure ⟨rfl, Nat.le_add_right _ 4, h4, rfl⟩

/-- The table of far offsets goes behind what is there. -/
lemma spec_readOff32 {base n place : ℕ} {i : KkIn} {scratch : List UInt8} (hle : i.p ≤ i.stop)
    (hstop : i.stop ≤ src.length) (hplace : place = scratch.length) (hroom : place + 4 * n ≤ size) :
    (readOff32 src base size n place i scratch).Spec step (· = Halt.reject) s fun r s' =>
      s' = s ∧ i.Past r.1 ∧ r.2.length = place + 4 * n := by
  induction n generalizing place i scratch with
  | zero => exact spec_pure ⟨rfl, ⟨le_rfl, hle, rfl⟩, hplace.symm⟩
  | succ n ih =>
    subst hplace
    refine (spec_kkInU24 hstop).bind ?_
    rintro ⟨off, _⟩ s₁ ⟨rfl, rfl, h3⟩
    refine (spec_readHigh hstop h3).bind ?_
    rintro ⟨off', i'⟩ _ ⟨rfl, hpast⟩
    refine spec_ite (fun _ => spec_halt rfl) fun _ => ?_
    refine Emit.Spec.bind (spec_inScratch (spec_copyIn ?_)) ?_
    · rw [length_leBytes]
      omega
    · rintro ⟨_, scratch'⟩ _ ⟨rfl, hlen⟩
      rw [length_leBytes] at hlen
      refine (ih hpast.le_stop (hpast.stop.trans_le hstop) (by exact hlen.symm) (by omega)).mono ?_
      rintro ⟨i'', scratch''⟩ _ ⟨rfl, hpast', hlen'⟩
      exact ⟨rfl, hpast.trans hpast', by rw [hlen']; omega⟩

lemma spec_extendedSize {n : ℕ} {i : KkIn} (hle : i.p ≤ i.stop) (hstop : i.stop ≤ src.length) :
    (extendedSize src n i).Spec step (· = Halt.reject) s fun r s' => s' = s ∧ i.Past r.2 := by
  refine spec_ite (fun _ => ?_) fun _ => spec_pure ⟨rfl, le_rfl, hle, rfl⟩
  refine (spec_kkInU16 hstop).mono ?_
  rintro ⟨x, _⟩ _ ⟨rfl, rfl, h2⟩
  exact ⟨rfl, Nat.le_add_right _ _, h2, rfl⟩

/-- The streams of a chunk are inside their buffers. -/
structure KkLz.Within (src scratch : List UInt8) (lz : KkLz) : Prop where
  /-- The commands. -/
  cmd : lz.cmdEnd ≤ scratch.length
  /-- The literals. -/
  lit : lz.litEnd ≤ scratch.length
  /-- The lengths. -/
  len : lz.lenEnd ≤ src.length
  /-- The near offsets. -/
  off16 : lz.off16End ≤ src.length
  /-- The far offsets. -/
  off32 : lz.off32End ≤ scratch.length

/-- What `kk_lz_read` gives for the two halves. -/
structure KkLz.Read (src scratch : List UInt8) (lz : KkLz) : Prop extends lz.Within src scratch where
  /-- The commands are split inside. -/
  split_le : lz.cmdSplit ≤ lz.cmdEnd
  /-- No literal is used. -/
  lit_le : lz.lit ≤ lz.litEnd
  /-- No near offset is used. -/
  off16_le : lz.off16 ≤ lz.off16End
  /-- The first table holds whole offsets. -/
  off32_whole : ∃ n, lz.off32End = lz.off32 + 4 * n
  /-- So does the second. -/
  off32Two_whole : ∃ n, lz.off32TwoEnd = lz.off32Two + 4 * n
  /-- It is inside the buffer too. -/
  off32Two : lz.off32TwoEnd ≤ scratch.length

end Scratch

/-! ## The streams of a chunk -/

section Streams

variable {src : List UInt8} {size : ℕ}

/-- A first action that is there under a condition only. -/
lemma spec_cond {α : Type} {step : ℕ → DstOp → ℕ → Prop} {p : Prop} [Decidable p] {m : Dec α} {a : α}
    {s : ℕ} {Q : α → ℕ → Prop} (hm : p → m.Spec step (· = Halt.reject) s Q) (ha : ¬ p → Q a s) :
    (if p then m else pure a).Spec step (· = Halt.reject) s Q :=
  spec_ite hm fun h => spec_pure (ha h)

/-- Only the first eight bytes of the output are written, and only at its start. -/
lemma kkLzRead_spec {i : KkIn} {dstCount outOffs scratchSize : ℕ} (hle : i.p ≤ i.stop)
    (hstop : i.stop ≤ src.length) (height : outOffs = 0 → i.p + 8 ≤ i.stop → 8 ≤ size) :
    (kkLzRead src i dstCount outOffs scratchSize).Spec (DstOp.ExtendsPlain size) (· = Halt.reject)
      outOffs fun r p' => p' = outOffs + (if outOffs = 0 then 8 else 0) ∧
        (outOffs = 0 → i.p + 8 ≤ i.stop) ∧ r.1.Read src r.2 := by
  unfold kkLzRead
  refine Emit.Spec.bind (R := fun i' p' => p' = outOffs + (if outOffs = 0 then 8 else 0) ∧
    (outOffs = 0 → i.p + 8 ≤ i.stop) ∧ i.Past i')
    (spec_cond (fun h0 => ?_) fun h0 => ⟨by rw [if_neg h0]; rfl, fun h => absurd h h0, le_rfl, hle, rfl⟩) ?_
  · refine (spec_kkInCopy hle hstop fun h8 => ?_).mono ?_
    · rw [h0]
      exact height h0 h8
    · rintro _ _ ⟨rfl, rfl, h8⟩
      exact ⟨by rw [if_pos h0], fun _ => h8, Nat.le_add_right _ _, h8, rfl⟩
  rintro i₁ p₁ ⟨hp₁, h8, hpast₁⟩
  have hstop₁ : i₁.stop ≤ src.length := hpast₁.stop.trans_le hstop
  -- literals
  refine Emit.Spec.bind (spec_inScratch (spec_kkNestedChunkDecode hstop₁ (Nat.zero_add _).le)) ?_
  rintro ⟨⟨lits, i₂⟩, scratch₁⟩ _ ⟨rfl, hlen₁, hlits, hpast₂⟩
  rw [Nat.zero_add] at hlen₁
  have hstop₂ : i₂.stop ≤ src.length := hpast₂.stop.trans_le hstop₁
  -- commands
  refine Emit.Spec.bind (spec_inScratch (Q := fun r p' => p' = scratch₁.length + r.1 ∧
    r.1 ≤ scratchSize - lits ∧ i₂.Past r.2) ?_) ?_
  · have hplace : lits = scratch₁.length := hlen₁.symm
    rw [← hplace]
    exact spec_kkNestedChunkDecode hstop₂ (by dsimp only at hlits; omega)
  rintro ⟨⟨cmds, i₃⟩, scratch₂⟩ p₃ ⟨rfl, hlen₂, hcmds, hpast₃⟩
  dsimp only at hlen₁ hlits hlen₂ hcmds hpast₂ hpast₃
  have hstop₃ : i₃.stop ≤ src.length := hpast₃.stop.trans_le hstop₂
  refine Emit.Spec.bind (R := fun r s' => s' = p₃ ∧ r.1 ≤ lits + cmds ∧ i₃.Past r.2)
    (spec_cond (fun _ => ?_) fun _ => ⟨rfl, le_rfl, le_rfl, hpast₃.le_stop, rfl⟩) ?_
  · refine (spec_kkInU16 hstop₃).bind ?_
    rintro ⟨split, _⟩ _ ⟨rfl, rfl, h2⟩
    refine spec_ite (fun _ => spec_halt rfl) fun hsplit => ?_
    exact spec_pure ⟨rfl, by dsimp only; omega, Nat.le_add_right _ _, h2, rfl⟩
  rintro ⟨cmdSplit, i₄⟩ _ ⟨rfl, hsplit, hpast₄⟩
  dsimp only at hsplit hpast₄
  have hstop₄ : i₄.stop ≤ src.length := hpast₄.stop.trans_le hstop₃
  -- near offsets
  refine (spec_kkInU16 hstop₄).bind ?_
  rintro ⟨off16Count, _⟩ _ ⟨rfl, rfl, h2⟩
  refine spec_ite (fun _ => spec_halt rfl) fun _ => ?_
  refine Emit.Spec.bind (spec_kkInBytes (by exact h2)) ?_
  rintro ⟨off16, _⟩ _ ⟨rfl, heq, hoff16⟩
  obtain ⟨rfl, rfl⟩ := Prod.mk.inj heq
  dsimp only at hoff16 ⊢
  -- far offsets
  refine Emit.Spec.bind (spec_kkInU24 (by exact hstop₄)) ?_
  rintro ⟨tmp, _⟩ s₁ ⟨rfl, rfl, h3⟩
  dsimp only at h3
  generalize hi₅ : (⟨i₄.p + 2 + off16Count * 2 + 3, i₄.stop⟩ : KkIn) = i₅
  have hle₅ : i₅.p ≤ i₅.stop := by
    rw [← hi₅]
    exact h3
  have hstop₅ : i₅.stop ≤ src.length := by
    rw [← hi₅]
    exact hstop₄
  refine Emit.Spec.bind (spec_cond (fun _ => spec_extendedSize hle₅ hstop₅)
    fun _ => ⟨rfl, le_rfl, hle₅, rfl⟩) ?_
  rintro ⟨size1, i₆⟩ s₂ ⟨rfl, hpast₆⟩
  have hstop₆ : i₆.stop ≤ src.length := hpast₆.stop.trans_le hstop₅
  refine Emit.Spec.bind (spec_cond (fun _ => spec_extendedSize hpast₆.le_stop hstop₆)
    fun _ => ⟨rfl, le_rfl, hpast₆.le_stop, rfl⟩) ?_
  rintro ⟨size2, i₇⟩ s₃ ⟨rfl, hpast₇⟩
  have hstop₇ : i₇.stop ≤ src.length := hpast₇.stop.trans_le hstop₆
  refine spec_ite (fun _ => spec_halt rfl) fun hroom => ?_
  refine (spec_readOff32 hpast₇.le_stop hstop₇ ?_ ?_).bind ?_
  · omega
  · omega
  rintro ⟨i₈, scratch₃⟩ _ ⟨rfl, hpast₈, hlen₃⟩
  have hstop₈ : i₈.stop ≤ src.length := hpast₈.stop.trans_le hstop₇
  dsimp only at hlen₃ hpast₈
  refine (spec_readOff32 hpast₈.le_stop hstop₈ hlen₃.symm ?_).bind ?_
  · omega
  rintro ⟨i₉, scratch₄⟩ _ ⟨rfl, hpast₉, hlen₄⟩
  dsimp only at hlen₄ hpast₉
  refine spec_pure ⟨hp₁, h8, ⟨⟨?_, ?_, ?_, ?_, ?_⟩, ?_, ?_, ?_, ?_, ?_, ?_⟩⟩ <;> dsimp only
  · omega
  · omega
  · exact hpast₉.stop.trans_le hstop₈
  · omega
  · omega
  · exact hsplit
  · exact Nat.zero_le _
  · exact Nat.le_add_right _ _
  · exact ⟨size1, rfl⟩
  · exact ⟨size2, by omega⟩
  · omega

end Streams

/-! ## The commands of a half -/

section Commands

variable {src scratch : List UInt8} {lz : KkLz} {size dstEnd chunkStart mode : ℕ}

/-- Where the command loop of `kk_runs` stands. -/
structure RunCursor.Ok (lz : KkLz) (dstEnd chunkStart : ℕ) (r : RunCursor) : Prop where
  /-- The output ends in the half. -/
  cur_le : r.cur ≤ dstEnd
  /-- It has passed the start of the chunk. -/
  chunk_le : chunkStart ≤ r.cur
  /-- The recent offset leads into the output. -/
  recent_le : r.recent ≤ 0
  /-- It does not lead before it. -/
  recent_ge : 0 ≤ r.cur + r.recent
  /-- The literals are not used up. -/
  lit_le : r.lit ≤ lz.litEnd
  /-- Neither are the near offsets. -/
  off16_le : r.off16 ≤ lz.off16End
  /-- The far offsets left are whole. -/
  off32_whole : ∃ n, lz.off32End = r.off32 + 4 * n

lemma spec_emit_extends {op : DstOp} {p : ℕ} (hplace : op.place = p) (hfits : p + op.length ≤ size)
    (hreads : op.ReadsUpTo p) :
    (emit op : Dec Unit).Spec (DstOp.Extends size) (· = Halt.reject) p fun _ s' => s' = p + op.length :=
  spec_emit ⟨hplace, rfl, hfits, hreads⟩ rfl

lemma spec_runLength {step : ℕ → DstOp → ℕ → Prop} {s len base : ℕ} (hlen : lz.lenEnd ≤ src.length) :
    (runLength src lz len base).Spec step (· = Halt.reject) s fun _ s' => s' = s := by
  refine spec_ite (fun _ => spec_halt rfl) fun h => ?_
  refine (spec_byteAt (by omega)).bind ?_
  rintro length _ ⟨rfl, -⟩
  refine spec_ite (fun _ => spec_ite (fun _ => spec_halt rfl) fun h' => ?_) fun _ => spec_pure rfl
  refine (spec_byteAt (by omega)).bind ?_
  rintro b0 _ ⟨rfl, -⟩
  refine (spec_byteAt (by omega)).bind ?_
  rintro b1 _ ⟨rfl, -⟩
  exact spec_pure rfl

lemma spec_nextOff16 {step : ℕ → DstOp → ℕ → Prop} {s off16 : ℕ} (h16 : lz.off16End ≤ src.length) :
    (nextOff16 src lz off16).Spec step (· = Halt.reject) s fun r s' =>
      s' = s ∧ r.1 ≤ 0 ∧ r.2 ≤ lz.off16End := by
  refine spec_ite (fun _ => spec_halt rfl) fun h => ?_
  refine (spec_byteAt (by omega)).bind ?_
  rintro b0 _ ⟨rfl, -⟩
  refine (spec_byteAt (by omega)).bind ?_
  rintro b1 _ ⟨rfl, -⟩
  refine spec_pure ⟨rfl, ?_, Nat.not_lt.mp h⟩
  exact neg_nonpos.mpr (Int.natCast_nonneg _)

lemma spec_nextOff32 {step : ℕ → DstOp → ℕ → Prop} {s off32 : ℕ} (h32 : lz.off32End ≤ scratch.length)
    (hwhole : ∃ n, lz.off32End = off32 + 4 * n) :
    (nextOff32 scratch lz chunkStart off32).Spec step (· = Halt.reject) s fun r s' =>
      s' = s ∧ r.1 ≤ chunkStart ∧ ∃ n, lz.off32End = r.2 + 4 * n := by
  refine spec_ite (fun _ => spec_halt rfl) fun h => ?_
  obtain ⟨_ | n, hn⟩ := hwhole
  · exact absurd hn.symm h
  refine (spec_sliceAt (by omega)).bind ?_
  rintro off _ ⟨rfl, -⟩
  refine spec_pure ⟨rfl, ?_, n, by dsimp only; omega⟩
  exact sub_le_self _ (Int.natCast_nonneg _)

/-- Literals that fit the half are written behind the output. -/
lemma spec_literals {r : RunCursor} {n : ℕ} (hin : lz.Within src scratch) (hr : r.Ok lz dstEnd chunkStart)
    (hsize : dstEnd ≤ size) (hfits : r.cur + n ≤ dstEnd) (hlit : r.lit + n ≤ lz.litEnd) :
    (literals scratch mode r n).Spec (DstOp.Extends size) (· = Halt.reject) r.cur fun r' p' =>
      p' = r.cur + n ∧ r' = { r with cur := r.cur + n, lit := r.lit + n } := by
  have hcur := hr.cur_le
  have hinside := hin.lit
  refine (spec_sliceAt (by omega)).bind ?_
  rintro lits p₀ ⟨rfl, hlen⟩
  refine Emit.Spec.bind (R := fun _ s' => s' = r.cur + n) ?_ ?_
  · by_cases hmode : mode = 1
    · rw [if_pos hmode]
      exact spec_emit ⟨rfl, congrArg _ hlen.symm, by omega, trivial⟩ rfl
    · rw [if_neg hmode]
      have hle := hr.recent_le
      exact spec_emit ⟨rfl, congrArg _ hlen.symm, by omega, hr.recent_ge, by omega⟩ rfl
  · rintro _ _ rfl
    exact spec_pure ⟨rfl, rfl⟩

/-- A match from inside the output. -/
lemma spec_copyMatch {place n : ℕ} {source : ℤ} (hsource : 0 ≤ source ∧ source ≤ place)
    (hfits : place + n ≤ size) :
    (emit (.copyMatch place source n) : Dec Unit).Spec (DstOp.Extends size) (· = Halt.reject) place
      fun _ s' => s' = place + n :=
  spec_emit ⟨rfl, rfl, hfits, hsource⟩ rfl

/-- One command keeps everything in place. -/
lemma spec_runStep {r : RunCursor} (hin : lz.Within src scratch) (hr : r.Ok lz dstEnd chunkStart)
    (hsize : dstEnd ≤ size) (hcmd : r.cmd < lz.cmdEnd) :
    (runStep src scratch lz dstEnd chunkStart mode r).Spec (DstOp.Extends size) (· = Halt.reject) r.cur
      fun r' p' => p' = r'.cur ∧ r'.cmd = r.cmd + 1 ∧ r.cur ≤ r'.cur ∧ r'.Ok lz dstEnd chunkStart := by
  obtain ⟨hcur, hchunk, hneg, hrecent, hlit, h16, h32⟩ := hr
  have hcmds := hin.cmd
  unfold runStep
  refine (spec_byteAt (by omega)).bind ?_
  rintro c p₀ ⟨rfl, -⟩
  refine spec_ite (fun _ => ?_) fun _ => spec_ite (fun _ => ?_) fun _ =>
    spec_ite (fun _ => ?_) fun _ => spec_ite (fun _ => ?_) fun _ => ?_
  · -- literals and a near match
    generalize c &&& 7 = litlen
    generalize c >>> 3 &&& 0xF = matchlen
    refine Emit.Spec.bind (R := fun q s' => s' = r.cur ∧ q.1 ≤ 0 ∧ q.2 ≤ lz.off16End)
      (spec_cond (fun _ => spec_nextOff16 hin.off16) fun _ => ⟨rfl, hneg, h16⟩) ?_
    rintro ⟨recent, off16⟩ p₁ ⟨rfl, hneg', h16'⟩
    refine spec_ite (fun _ => spec_halt rfl) fun h => ?_
    obtain ⟨hroom, hlits, hback⟩ := by simpa only [not_or] using h
    have hroom := le_of_not_u32Sub_lt hcur hroom
    have hlits := le_of_not_u32Sub_lt hlit hlits
    have hok : RunCursor.Ok lz dstEnd chunkStart
        { r with cmd := r.cmd + 1, recent := recent, off16 := off16 } :=
      ⟨hcur, hchunk, hneg', not_lt.mp hback, hlit, h16', h32⟩
    refine Emit.Spec.bind (spec_literals hin hok hsize (by dsimp only; omega) hlits) ?_
    rintro _ _ ⟨rfl, rfl⟩
    dsimp only at hback hneg' ⊢
    refine Emit.Spec.bind (spec_copyMatch ⟨by omega, by omega⟩ (by omega)) ?_
    rintro _ _ rfl
    refine spec_pure ⟨rfl, rfl, ?_, ?_, ?_, hneg', ?_, hlits, h16', h32⟩ <;> dsimp only <;> omega
  · -- a far match with its length in the command
    refine (spec_nextOff32 hin.off32 h32).bind ?_
    rintro ⟨source, off32⟩ p₁ ⟨rfl, hsource, h32'⟩
    refine spec_ite (fun _ => spec_halt rfl) fun h => ?_
    obtain ⟨hafter, hroom⟩ := not_or.mp h
    have hroom := le_of_not_u32Sub_lt hcur hroom
    dsimp only at hafter hsource hroom ⊢
    refine Emit.Spec.bind (spec_copyMatch ⟨by omega, by omega⟩ (by omega)) ?_
    rintro _ _ rfl
    refine spec_pure ⟨rfl, rfl, ?_, ?_, ?_, ?_, ?_, hlit, h16, h32'⟩ <;> dsimp only <;> omega
  · -- a run of literals
    refine (spec_runLength hin.len).bind ?_
    rintro ⟨length, len⟩ p₁ rfl
    refine spec_ite (fun _ => spec_halt rfl) fun h => ?_
    obtain ⟨hroom, hlits⟩ := not_or.mp h
    have hroom := le_of_not_u32Sub_lt hcur hroom
    have hlits := le_of_not_u32Sub_lt hlit hlits
    have hok : RunCursor.Ok lz dstEnd chunkStart { r with cmd := r.cmd + 1, len := len } :=
      ⟨hcur, hchunk, hneg, hrecent, hlit, h16, h32⟩
    refine (spec_literals hin hok hsize hroom hlits).mono ?_
    rintro _ _ ⟨rfl, rfl⟩
    refine ⟨rfl, rfl, ?_, ?_, ?_, hneg, ?_, hlits, h16, h32⟩ <;> dsimp only <;> omega
  · -- a long near match
    refine (spec_runLength hin.len).bind ?_
    rintro ⟨length, len⟩ p₁ rfl
    refine (spec_nextOff16 hin.off16).bind ?_
    rintro ⟨recent, off16⟩ p₂ ⟨rfl, hneg', h16'⟩
    refine spec_ite (fun _ => spec_halt rfl) fun h => ?_
    obtain ⟨hback, hroom⟩ := not_or.mp h
    have hroom := le_of_not_u32Sub_lt hcur hroom
    dsimp only at hback hneg' hroom ⊢
    refine Emit.Spec.bind (spec_copyMatch ⟨by omega, by omega⟩ (by omega)) ?_
    rintro _ _ rfl
    refine spec_pure ⟨rfl, rfl, ?_, ?_, ?_, hneg', ?_, hlit, h16', h32⟩ <;> dsimp only <;> omega
  · -- a long far match
    refine (spec_runLength hin.len).bind ?_
    rintro ⟨length, len⟩ p₁ rfl
    refine (spec_nextOff32 hin.off32 h32).bind ?_
    rintro ⟨source, off32⟩ p₂ ⟨rfl, hsource, h32'⟩
    refine spec_ite (fun _ => spec_halt rfl) fun h => ?_
    obtain ⟨hafter, hroom⟩ := not_or.mp h
    have hroom := le_of_not_u32Sub_lt hcur hroom
    dsimp only at hafter hsource hroom ⊢
    refine Emit.Spec.bind (spec_copyMatch ⟨by omega, by omega⟩ (by omega)) ?_
    rintro _ _ rfl
    refine spec_pure ⟨rfl, rfl, ?_, ?_, ?_, ?_, ?_, hlit, h16, h32'⟩ <;> dsimp only <;> omega

/-- The loop ends, as each command is used once. -/
lemma spec_runLoop {rounds : ℕ} {r : RunCursor} (hin : lz.Within src scratch) (hr : r.Ok lz dstEnd chunkStart)
    (hsize : dstEnd ≤ size) (hrounds : lz.cmdEnd - r.cmd < rounds) :
    (runLoop src scratch lz dstEnd chunkStart mode rounds r).Spec (DstOp.Extends size) (· = Halt.reject)
      r.cur fun r' p' => p' = r'.cur ∧ r.cur ≤ r'.cur ∧ r'.Ok lz dstEnd chunkStart := by
  induction rounds generalizing r with
  | zero => exact absurd hrounds (Nat.not_lt_zero _)
  | succ rounds ih =>
    refine spec_ite (fun hcmd => ?_) fun _ => spec_pure ⟨rfl, le_rfl, hr⟩
    refine (spec_runStep hin hr hsize hcmd).bind ?_
    rintro r' _ ⟨rfl, hcmd', hle, hr'⟩
    refine (ih hr' (by omega)).mono ?_
    rintro r'' _ ⟨rfl, hle', hr''⟩
    exact ⟨rfl, hle.trans hle', hr''⟩

/-- A half is written to its end. -/
lemma spec_kkRuns {start : ℕ} {recent : ℤ} (hin : lz.Within src scratch)
    (hr : RunCursor.Ok lz dstEnd chunkStart ⟨start, lz.cmd, lz.lit, lz.len, lz.off16, lz.off32, recent⟩)
    (hsize : dstEnd ≤ size) (hhalf : dstEnd ≤ start + 0x10000) :
    (kkRuns src scratch lz dstEnd chunkStart mode start recent).Spec (DstOp.Extends size)
      (· = Halt.reject) start fun q p' => p' = dstEnd ∧ q.2 ≤ 0 ∧ 0 ≤ dstEnd + q.2 ∧
        q.1.lit ≤ lz.litEnd ∧ q.1.off16 ≤ lz.off16End := by
  refine (spec_runLoop hin hr hsize (by dsimp only; omega)).bind ?_
  rintro r _ ⟨rfl, hle, hr'⟩
  have hcur := hr'.cur_le
  have hlen : u32Sub dstEnd r.cur = dstEnd - r.cur := u32Sub_eq hcur (by dsimp only at hle; omega)
  refine spec_ite (fun _ => spec_halt rfl) fun hlits => ?_
  have hlits := le_of_not_u32Sub_lt hr'.lit_le hlits
  rw [hlen] at hlits ⊢
  refine (spec_literals hin hr' hsize (by omega) hlits).bind ?_
  rintro _ _ ⟨rfl, rfl⟩
  have hrecent := hr'.recent_ge
  refine spec_pure ⟨by omega, hr'.recent_le, ?_, hlits, hr'.off16_le⟩
  dsimp only
  omega

end Commands

/-! ## Quanta -/

section Quanta

variable {src : List UInt8} {size : ℕ} {i : KkIn}

lemma spec_extends {α : Type} {m : Dec α} {F : Halt → Prop} {s : ℕ} {Q : α → ℕ → Prop}
    (hm : m.Spec (DstOp.ExtendsPlain size) F s Q) : m.Spec (DstOp.Extends size) F s Q :=
  hm.of_step fun _ _ _ h => h.1

/-- A compressed chunk is written to its end; the first one leaves room for the eight bytes. -/
lemma spec_lzChunk {place chunk mode scratchSize : ℕ} (hle : i.p ≤ i.stop) (hstop : i.stop ≤ src.length)
    (hchunk : chunk ≤ 0x20000) (hsize : place + chunk ≤ size) (hplace : place = 0 ∨ 8 ≤ place)
    (height : place = 0 → i.p + 8 ≤ i.stop → 8 ≤ chunk) :
    (lzChunk src i place chunk mode scratchSize).Spec (DstOp.Extends size) (· = Halt.reject) place
      fun _ p' => p' = place + chunk := by
  unfold lzChunk
  have hread : (kkLzRead src i chunk place scratchSize).Spec (DstOp.ExtendsPlain size) _ place _ :=
    kkLzRead_spec hle hstop fun h0 h8 => (height h0 h8).trans ((Nat.le_add_left _ _).trans hsize)
  refine Emit.Spec.bind (spec_extends hread) ?_
  rintro ⟨lz, scratch⟩ _ ⟨rfl, h8, hlz⟩
  dsimp only at hlz ⊢
  obtain ⟨half1, hhalf1⟩ : ∃ half1, half1 = if 0x10000 < chunk then 0x10000 else chunk := ⟨_, rfl⟩
  rw [← hhalf1]
  have hstart : (if place = 0 then 8 else 0) ≤ half1 ∧
      (0 : ℤ) ≤ (place + if place = 0 then 8 else 0 : ℕ) + -8 := by
    rcases hplace with h0 | hfar
    · have hmin := height h0 (h8 h0)
      rw [if_pos h0]
      split at hhalf1 <;> omega
    · rw [if_neg (by omega)]
      omega
  have hhalves : half1 ≤ chunk ∧ half1 ≤ 0x10000 ∧ chunk - half1 ≤ 0x10000 := by
    split at hhalf1 <;> omega
  refine Emit.Spec.bind (spec_kkRuns ⟨hlz.split_le.trans hlz.cmd, hlz.lit, hlz.len, hlz.off16, hlz.off32⟩
    ⟨?_, ?_, show (-8 : ℤ) ≤ 0 by decide, hstart.2, hlz.lit_le, hlz.off16_le, hlz.off32_whole⟩ ?_ ?_) ?_
  · dsimp only
    omega
  · exact Nat.le_add_right _ _
  · omega
  · omega
  rintro ⟨half, recent⟩ _ ⟨rfl, hneg, hrecent, hlit, h16⟩
  dsimp only at hneg hrecent hlit h16 ⊢
  refine Emit.Spec.bind (R := fun _ p' => p' = place + chunk)
    (spec_cond (fun _ => ?_) fun h => by omega) ?_
  · refine Emit.Spec.bind (spec_kkRuns ⟨hlz.cmd, hlz.lit, hlz.len, hlz.off16, hlz.off32Two⟩
      ⟨?_, ?_, hneg, hrecent, hlit, h16, hlz.off32Two_whole⟩ ?_ ?_) ?_
    · exact Nat.le_add_right _ _
    · exact Nat.le_add_right _ _
    · omega
    · omega
    · rintro ⟨half', recent'⟩ _ ⟨rfl, -⟩
      exact spec_pure (by omega)
  · rintro lz' _ rfl
    exact spec_ite (fun _ => spec_halt rfl) fun _ => spec_pure rfl

/-- So is every other chunk. -/
lemma spec_quantumStep {place chunk scratchSize : ℕ} (hstop : i.stop ≤ src.length)
    (hchunk : chunk ≤ 0x20000) (hsize : place + chunk ≤ size) (hplace : place = 0 ∨ 8 ≤ place)
    (height : place = 0 → i.p + 8 ≤ i.stop → 8 ≤ chunk) :
    (quantumStep src i place chunk scratchSize).Spec (DstOp.Extends size) (· = Halt.reject) place
      fun i' p' => p' = place + chunk ∧ i.Past i' := by
  unfold quantumStep
  refine (spec_kkInU24Be hstop).bind ?_
  rintro ⟨h, _⟩ s₁ ⟨rfl, rfl, h3⟩
  refine spec_ite (fun _ => ?_) fun _ => ?_
  · refine Emit.Spec.bind (spec_extends (spec_kkNestedChunkDecode (by exact hstop) hsize)) ?_
    rintro ⟨dec, i'⟩ _ ⟨rfl, -, hpast⟩
    refine spec_ite (fun _ => spec_halt rfl) fun hdec => ?_
    exact spec_pure ⟨by rw [not_not.mp hdec], (Nat.le_add_right _ 3).trans hpast.le, hpast.le_stop,
      hpast.stop⟩
  · refine spec_ite (fun _ => spec_halt rfl) fun hmode => ?_
    have hused := le_of_not_u32Sub_lt h3 (not_or.mp hmode).2
    generalize h &&& 0x7FFFF = srcUsed at hused ⊢
    dsimp only at hused ⊢
    refine spec_ite (fun hraw => ?_) fun _ => ?_
    · have hcopy : (kkInCopy src ⟨i.p + 3, i.stop⟩ srcUsed s₁).Spec (DstOp.ExtendsPlain size) _ s₁ _ :=
        spec_kkInCopy h3 hstop fun _ => by rw [hraw.1]; exact hsize
      refine Emit.Spec.mono (spec_extends hcopy) ?_
      rintro _ _ ⟨rfl, rfl, hp⟩
      exact ⟨by rw [hraw.1], (Nat.le_add_right _ 3).trans (Nat.le_add_right _ _), hp, rfl⟩
    · refine Emit.Spec.bind (spec_lzChunk (Nat.le_add_right _ _) (hused.trans hstop) hchunk hsize hplace
        fun h0 h8 => height h0 (by dsimp only at h8; omega)) ?_
      rintro _ _ rfl
      exact spec_pure ⟨rfl, (Nat.le_add_right _ 3).trans (Nat.le_add_right _ _), hused, rfl⟩

/-- A quantum of chunks is written to its end. -/
lemma spec_kkMermaidQuantumDecode {dstCount outOffs scratchSize rounds produced : ℕ}
    (hle : i.p ≤ i.stop) (hstop : i.stop ≤ src.length) (hproduced : produced ≤ dstCount)
    (hsize : outOffs + dstCount ≤ size) (hrounds : dstCount - produced < rounds)
    (hplace : produced < dstCount → outOffs + produced = 0 ∨ 8 ≤ outOffs + produced)
    (height : outOffs + produced = 0 → i.p + 8 ≤ i.stop → 8 ≤ dstCount) :
    (kkMermaidQuantumDecode src dstCount outOffs scratchSize rounds produced i).Spec
      (DstOp.Extends size) (· = Halt.reject) (outOffs + produced) fun i' p' =>
        p' = outOffs + dstCount ∧ i.Past i' := by
  induction rounds generalizing produced i with
  | zero => exact absurd hrounds (Nat.not_lt_zero _)
  | succ rounds ih =>
    refine spec_ite (fun hmore => ?_) fun hdone => spec_pure ⟨by omega, le_rfl, hle, rfl⟩
    obtain ⟨chunk, hchunk⟩ : ∃ chunk, chunk =
      if 0x20000 < dstCount - produced then 0x20000 else dstCount - produced := ⟨_, rfl⟩
    rw [← hchunk]
    have hbounds : 0 < chunk ∧ chunk ≤ 0x20000 ∧ produced + chunk ≤ dstCount ∧
        (produced + chunk < dstCount → 8 ≤ chunk) ∧ (produced = 0 → 8 ≤ dstCount → 8 ≤ chunk) := by
      split at hchunk <;> omega
    obtain ⟨hpos, hmax, hfit, hlast, hfirst⟩ := hbounds
    refine (spec_quantumStep hstop hmax (by omega) (hplace hmore)
      fun h0 h8 => hfirst (by omega) (height h0 h8)).bind ?_
    rintro i' _ ⟨rfl, hpast⟩
    rw [Nat.add_assoc]
    refine (ih hpast.le_stop (hpast.stop.trans_le hstop) hfit (by omega)
      (fun h => Or.inr (by have := hlast h; omega)) fun h0 => absurd h0 (by omega)).mono ?_
    rintro i'' _ ⟨rfl, hpast'⟩
    exact ⟨rfl, hpast.trans hpast'⟩

end Quanta

/-! ## The container -/

section Container

variable {src : List UInt8} {size : ℕ} {i : KkIn}

lemma spec_kkHeader {step : ℕ → DstOp → ℕ → Prop} {s : ℕ} (hstop : i.stop ≤ src.length) :
    (kkHeader src i).Spec step (· = Halt.reject) s fun r s' => s' = s ∧ i.Past r.2 := by
  unfold kkHeader
  refine (spec_kkInU8 hstop).bind ?_
  rintro ⟨b0, _⟩ s₁ ⟨rfl, -, rfl, h1⟩
  refine Emit.Spec.bind (spec_kkInU8 (by exact hstop)) ?_
  rintro ⟨b1, _⟩ s₂ ⟨rfl, -, rfl, h2⟩
  exact spec_ite (fun _ => spec_halt rfl) fun _ => spec_ite (fun _ => spec_halt rfl) fun _ =>
    spec_pure ⟨rfl, Nat.le_add_right _ 2, h2, rfl⟩

/-- The payload of a quantum fills it. -/
lemma spec_kkPayload {header : KkHeader} {outOffs quantum compSize scratchSize : ℕ}
    (hle : i.p ≤ i.stop) (hstop : i.stop ≤ src.length) (hsize : outOffs + quantum ≤ size)
    (hplace : outOffs = 0 ∨ 8 ≤ outOffs) :
    (kkPayload src header i outOffs quantum compSize scratchSize).Spec (DstOp.Extends size)
      (· = Halt.reject) outOffs fun i' p' => p' = outOffs + quantum ∧ i.Past i' := by
  unfold kkPayload
  refine Emit.Spec.bind (R := fun i' s' => s' = outOffs ∧ i.Past i') (spec_cond (fun _ => ?_)
    fun _ => ⟨rfl, le_rfl, hle, rfl⟩) ?_
  · refine (spec_kkInU24 hstop).bind ?_
    rintro ⟨csum, _⟩ _ ⟨rfl, rfl, h3⟩
    exact spec_pure ⟨rfl, Nat.le_add_right _ _, h3, rfl⟩
  rintro i₁ s₁ ⟨rfl, hpast⟩
  have hstop₁ : i₁.stop ≤ src.length := hpast.stop.trans_le hstop
  refine spec_ite (fun _ => spec_halt rfl) fun h => ?_
  obtain ⟨hroom, hsmall⟩ := not_or.mp h
  have hroom := le_of_not_u32Sub_lt hpast.le_stop hroom
  refine spec_ite (fun heq => ?_) fun _ => spec_ite (fun _ => ?_) fun _ => spec_halt rfl
  · refine (spec_extends (spec_kkInCopy hpast.le_stop hstop₁ fun _ => by rw [heq]; exact hsize)).mono ?_
    rintro _ _ ⟨rfl, rfl, hp⟩
    exact ⟨by rw [heq], hpast.le.trans (Nat.le_add_right _ _), hp, hpast.stop⟩
  · refine Emit.Spec.bind (spec_kkMermaidQuantumDecode (Nat.le_add_right _ _)
      (hroom.trans hstop₁) (Nat.zero_le _) hsize (Nat.lt_succ_self _) (fun _ => hplace)
      fun _ h8 => by dsimp only at h8; omega) ?_
    rintro _ _ ⟨rfl, -⟩
    exact spec_pure ⟨rfl, hpast.le.trans (Nat.le_add_right _ _), hroom, hpast.stop⟩

/-- A quantum is written to its end. -/
lemma spec_containerStep {header : KkHeader} {outOffs quantum scratchSize : ℕ} (hle : i.p ≤ i.stop)
    (hstop : i.stop ≤ src.length) (hsize : outOffs + quantum ≤ size)
    (hplace : outOffs = 0 ∨ 8 ≤ outOffs) :
    (containerStep src header i outOffs quantum scratchSize).Spec (DstOp.Extends size)
      (· = Halt.reject) outOffs fun i' p' => p' = outOffs + quantum ∧ i.Past i' := by
  unfold containerStep
  refine spec_ite (fun _ => ?_) fun _ => ?_
  · refine (spec_extends (spec_kkInCopy hle hstop fun _ => hsize)).mono ?_
    rintro _ _ ⟨rfl, rfl, hp⟩
    exact ⟨rfl, Nat.le_add_right _ _, hp, rfl⟩
  · refine (spec_kkInU24Be hstop).bind ?_
    rintro ⟨v, _⟩ s₁ ⟨rfl, rfl, h3⟩
    have hpayload (compSize : ℕ) : (kkPayload src header ⟨i.p + 3, i.stop⟩ s₁ quantum compSize
        scratchSize).Spec (DstOp.Extends size) (· = Halt.reject) s₁ fun i' p' =>
          p' = s₁ + quantum ∧ i.Past i' := by
      refine Emit.Spec.mono (spec_kkPayload (by exact h3) hstop hsize hplace) ?_
      rintro i' _ ⟨rfl, hpast⟩
      exact ⟨rfl, (Nat.le_add_right _ _).trans hpast.le, hpast.le_stop, hpast.stop⟩
    refine spec_ite (fun _ => spec_ite (fun _ => ?_) fun _ => spec_ite (fun _ => hpayload _) fun _ =>
      spec_halt rfl) fun _ => spec_ite (fun _ => spec_halt rfl) fun _ => hpayload _
    refine Emit.Spec.bind (spec_kkInU8 (by exact hstop)) ?_
    rintro ⟨byte, _⟩ s₂ ⟨rfl, -, rfl, h4⟩
    refine Emit.Spec.bind (spec_extends (spec_fill hsize)) ?_
    rintro _ _ rfl
    exact spec_pure ⟨rfl, Nat.le_add_right _ 4, h4, rfl⟩

/-- The container is written to its end. -/
lemma spec_kkContainerDecode {dstLen scratchSize rounds outOffs : ℕ} {header : KkHeader}
    (hle : i.p ≤ i.stop) (hstop : i.stop ≤ src.length) (hrounds : dstLen - outOffs < rounds)
    (hoffs : outOffs ≤ dstLen) (hplace : outOffs < dstLen → outOffs = 0 ∨ 8 ≤ outOffs) :
    (kkContainerDecode src dstLen scratchSize rounds header outOffs i).Spec (DstOp.Extends dstLen)
      (· = Halt.reject) outOffs fun i' p' => p' = dstLen ∧ i.Past i' := by
  induction rounds generalizing outOffs i header with
  | zero => exact absurd hrounds (Nat.not_lt_zero _)
  | succ rounds ih =>
    refine spec_ite (fun hmore => ?_) fun hdone => spec_pure ⟨by omega, le_rfl, hle, rfl⟩
    obtain ⟨quantum, hquantum⟩ : ∃ quantum, quantum =
      if 0x40000 < dstLen - outOffs then 0x40000 else dstLen - outOffs := ⟨_, rfl⟩
    rw [← hquantum]
    have hbounds : 0 < quantum ∧ outOffs + quantum ≤ dstLen ∧
        (outOffs + quantum < dstLen → 8 ≤ outOffs + quantum) := by
      split at hquantum <;> omega
    obtain ⟨hpos, hfit, hlast⟩ := hbounds
    refine Emit.Spec.bind (R := fun r s' => s' = outOffs ∧ i.Past r.2)
      (spec_cond (fun _ => spec_kkHeader hstop) fun _ => ⟨rfl, le_rfl, hle, rfl⟩) ?_
    rintro ⟨header', i₁⟩ _ ⟨rfl, hpast⟩
    have hstop₁ : i₁.stop ≤ src.length := hpast.stop.trans_le hstop
    refine (spec_containerStep hpast.le_stop hstop₁ hfit (hplace hmore)).bind ?_
    rintro i₂ _ ⟨rfl, hpast'⟩
    refine (ih hpast'.le_stop (hpast'.stop.trans_le hstop₁) (by omega) hfit
      fun h => Or.inr (hlast h)).mono ?_
    rintro i₃ _ ⟨rfl, hpast''⟩
    exact ⟨rfl, hpast.trans (hpast'.trans hpast'')⟩

/-- The operations of the decoder write the destination from its start on, one behind the other, and a
successful run writes all of it. -/
theorem kkDecodeStream_spec (src : List UInt8) (malloc : ℕ → Bool) (dstLen : ℕ) :
    (kkDecodeStream src malloc dstLen).Spec (DstOp.Extends dstLen) (· = Halt.reject) 0
      fun _ p' => p' = dstLen := by
  unfold kkDecodeStream
  refine spec_ite (fun _ => spec_halt rfl) fun _ => ?_
  refine (spec_kkContainerDecode (Nat.zero_le _) le_rfl (Nat.lt_succ_self _) (Nat.zero_le _)
    fun _ => Or.inl rfl).bind ?_
  rintro i _ ⟨rfl, -⟩
  exact spec_ite (fun _ => spec_halt rfl) fun _ => spec_pure rfl

lemma DstOp.Extends.mono {size size' p p' : ℕ} {op : DstOp} (h : op.Extends size p p')
    (hle : size ≤ size') : op.Extends size' p p' :=
  ⟨h.place, h.stop, h.fits.trans hle, h.reads⟩

lemma spec_decodeStatus {m : Dec Unit} {decLen cap : ℕ} (hpos : 0 < decLen) (hcap : decLen ≤ cap)
    (hm : m.Spec (DstOp.Extends decLen) (· = Halt.reject) 0 fun _ p' => p' = decLen) :
    (decodeStatus decLen m).Spec (DstOp.Extends cap) (fun _ => False) 0 fun r p' =>
      p' ≤ cap ∧ ∀ n, r = .ok n → p' = n ∧ 0 < n := by
  obtain ⟨p', hchain, hend⟩ := hm
  have hfits := (chain_le_size hchain (Nat.zero_le _)).trans hcap
  have hchain := hchain.of_step fun _ _ _ h => h.mono hcap
  rcases m with ⟨ops, u | e⟩
  · obtain rfl : u = .reject := hend
    exact ⟨p', hchain, hfits, fun n hn => nomatch hn⟩
  · refine ⟨p', hchain, hfits, fun n hn => ?_⟩
    obtain rfl : decLen = n := Except.ok.inj hn
    exact ⟨hend, hpos⟩

/-- The whole decoder reports no more bytes than there is room for, all of them written, and ends with a
status otherwise. -/
theorem paiCompressDecode_spec (src : List UInt8) (malloc : ℕ → Bool) (cap : ℕ) :
    (paiCompressDecode src malloc cap).Spec (DstOp.Extends cap) (fun _ => False) 0 fun r p' =>
      p' ≤ cap ∧ ∀ n, r = .ok n → p' = n ∧ 0 < n := by
  have herror (status : PaiStatus) : (pure (.error status) : Dec (Except PaiStatus ℕ)).Spec
      (DstOp.Extends cap) (fun _ => False) 0 fun r p' => p' ≤ cap ∧ ∀ n, r = .ok n → p' = n ∧ 0 < n :=
    spec_pure ⟨Nat.zero_le _, fun n h => nomatch h⟩
  unfold paiCompressDecode
  refine spec_ite (fun _ => ?_) fun _ => herror _
  refine spec_ite (fun _ => herror _) fun _ => spec_ite (fun _ => herror _) fun hlen => ?_
  obtain ⟨hcap, hpos⟩ := not_or.mp hlen
  refine spec_decodeStatus (Nat.pos_of_ne_zero hpos) (Nat.not_lt.mp hcap) (kkDecodeStream_spec _ _ _)

end Container

end Prospero
