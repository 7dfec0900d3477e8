import Prospero.Compression.DecoderBounds

/-!
# Runs of the decoder

The operations of the decoder performed on a destination.  Each leaves everything but its own bytes as it was
and has its bytes from the output before it (`DstOp.run_of_extends`), apart from two kinds: a match whose
source is its own place is never finished (`DstOp.Stuck`), and literals with the byte at their own place
added take up what was there before (`DstOp.ReadsUnwritten`).

### Outline

* `exists_matchSource`: which byte of the pattern each byte of a match is, for every memory the same.
* `paiCompressDecode_ends`: a run is never at fault, and goes on forever exactly at a stuck operation.
* `paiCompressDecode_output_iff`: what a run writes depends on the earlier contents exactly if an operation
  reads them.
* `paiCompressDecode_meaning`: otherwise the output is what the operations mean on lists.
-/

namespace Prospero

open Emission

/-! ## Writes -/

lemma placeBytes_apply (mem : ℕ → UInt8) (place : ℕ) (bytes : List UInt8) (a : ℕ) :
    placeBytes mem place bytes a =
      if place ≤ a ∧ a < place + bytes.length then bytes.getD (a - place) 0 else mem a := by
  unfold placeBytes
  by_cases hle : place ≤ a
  · rw [if_pos hle]
    by_cases hlt : a < place + bytes.length
    · have hi : a - place < bytes.length := by omega
      rw [if_pos ⟨hle, hlt⟩, List.getD_eq_getElem _ _ hi, List.getD_eq_getElem _ _ hi]
    · rw [if_neg fun h => hlt h.2, List.getD_eq_default _ _ (by omega)]
  · rw [if_neg hle, if_neg fun h => hle h.1]

lemma placeBytes_of_lt {mem : ℕ → UInt8} {place : ℕ} {bytes : List UInt8} {a : ℕ}
    (h : a < place ∨ place + bytes.length ≤ a) : placeBytes mem place bytes a = mem a := by
  rw [placeBytes_apply, if_neg (by omega)]

lemma placeBytes_congr {mem₁ mem₂ : ℕ → UInt8} {place : ℕ} {bytes : List UInt8}
    (heq : ∀ a < place, mem₁ a = mem₂ a) {a : ℕ} (ha : a < place + bytes.length) :
    placeBytes mem₁ place bytes a = placeBytes mem₂ place bytes a := by
  rw [placeBytes_apply, placeBytes_apply]
  by_cases hin : place ≤ a
  · rw [if_pos ⟨hin, ha⟩, if_pos ⟨hin, ha⟩]
  · rw [if_neg fun h => hin h.1, if_neg fun h => hin h.1]
    exact heq a (Nat.not_le.mp hin)

/-- Bytes away from the literals stay. -/
lemma deltaLiterals_of_lt {mem : ℕ → UInt8} {place base : ℕ} {lits : List UInt8} {a : ℕ}
    (h : a < place ∨ place + lits.length ≤ a) : deltaLiterals mem place base lits a = mem a := by
  induction lits generalizing mem place with
  | nil => rfl
  | cons lit lits ih =>
    rw [List.length_cons] at h
    rw [deltaLiterals, ih (by omega), Function.update_of_ne (by omega)]

/-- With a byte from before their place the literals are that much larger. -/
lemma deltaLiterals_apply {mem : ℕ → UInt8} {place base : ℕ} {lits : List UInt8} (hbase : base < place)
    {a : ℕ} (ha : place ≤ a) (ha' : a < place + lits.length) :
    deltaLiterals mem place base lits a = lits.getD (a - place) 0 + mem base := by
  induction lits generalizing mem place with
  | nil => exact absurd ha' (by rw [List.length_nil]; omega)
  | cons lit lits ih =>
    rw [List.length_cons] at ha'
    rw [deltaLiterals]
    rcases Nat.eq_or_lt_of_le ha with rfl | hlt
    · rw [deltaLiterals_of_lt (Or.inl (Nat.lt_succ_self _)), Function.update_self, Nat.sub_self,
        List.getD_cons_zero]
    · rw [ih (by omega) (by omega) (by omega), Function.update_of_ne (by omega),
        show a - place = a - (place + 1) + 1 by omega, List.getD_cons_succ]

/-- Byte `j` of a match is byte `f j` of the pattern before it. -/
lemma exists_matchSource {place dist : ℕ} (hpos : 0 < dist) (hle : dist ≤ place) (n : ℕ) :
    ∃ f : ℕ → ℕ, (∀ j, f j < dist) ∧ ∀ mem a, kkCopyMatch mem place (place - dist) n a =
      if place ≤ a ∧ a < place + n then mem (place - dist + f (a - place)) else mem a := by
  by_cases heasy : 8 ≤ dist ∨ n ≤ dist
  · refine ⟨fun j => j % dist, fun j => Nat.mod_lt j hpos, fun mem a => ?_⟩
    rw [kkCopyMatch_of_le hle heasy, Lz.copy_apply hpos hle]
  · obtain ⟨hsmall, hn⟩ : dist < 8 ∧ dist < n := by omega
    obtain ⟨hbelow, habove⟩ := log2_period hpos hn
    rw [Nat.pow_succ, ← Nat.mul_assoc] at habove
    have hlast : lastStep dist n ≤ n - lastStep dist n ∧ lastStep dist n ≤ n := by
      unfold lastStep
      omega
    refine ⟨fun j => if j < n - lastStep dist n then j % dist else (j - lastStep dist n) % dist,
      fun j => ?_, fun mem a => ?_⟩
    · dsimp only
      split <;> exact Nat.mod_lt _ hpos
    · rw [kkCopyMatch_of_lt hpos hsmall hle hn, Lz.blit_copy_apply hpos hle hlast.1 le_rfl]
      by_cases hfirst : place ≤ a ∧ a < place + (n - lastStep dist n)
      · dsimp only
        rw [if_pos hfirst, if_pos (by omega), if_pos (by omega)]
      · rw [if_neg hfirst]
        by_cases hin : place ≤ a ∧ a < place + n
        · dsimp only
          rw [if_pos (by omega), if_pos hin, if_neg (by omega)]
        · rw [if_neg (by omega), if_neg hin]

lemma le_of_chain {size p p' : ℕ} {ops : List DstOp} (h : Chain (DstOp.Extends size) p ops p') : p ≤ p' := by
  induction h with
  | nil => exact le_rfl
  | cons hstep _ ih => exact (hstep.stop ▸ Nat.le_add_right _ _ : _ ≤ _).trans ih

/-! ## Operations -/

/-- A match of some bytes whose source is its own place. -/
def DstOp.Stuck : DstOp → Prop
  | .copyMatch place source n => source = place ∧ 0 < n
  | _ => False

/-- Literals to which the byte at their own place is added. -/
def DstOp.ReadsUnwritten : DstOp → Prop
  | .addDelta place base lits => base = place ∧ lits ≠ []
  | _ => False

/-- What an operation that is not stuck writes: elsewhere nothing, and its own bytes in the same way from
every output before it, unless it reads its own place. -/
lemma DstOp.run_of_extends {size p p' : ℕ} {op : DstOp} (h : op.Extends size p p') (hstuck : ¬ op.Stuck) :
    ∃ write : (ℕ → UInt8) → (ℕ → UInt8), (∀ mem, op.run size mem = .ok (write mem)) ∧
      (∀ mem a, a < p ∨ p' ≤ a → write mem a = mem a) ∧
      (¬ op.ReadsUnwritten → ∀ mem₁ mem₂, (∀ a < p, mem₁ a = mem₂ a) →
        ∀ a < p', write mem₁ a = write mem₂ a) := by
  obtain ⟨rfl, rfl, hfits, hreads⟩ := h
  cases op with
  | copyIn place bytes =>
    exact ⟨fun mem => placeBytes mem place bytes, fun mem => if_pos hfits, fun _ _ ha => placeBytes_of_lt ha,
      fun _ _ _ heq _ ha => placeBytes_congr heq ha⟩
  | fill place byte n =>
    have hlen : (List.replicate n byte).length = n := List.length_replicate
    refine ⟨fun mem => placeBytes mem place (List.replicate n byte), fun mem => if_pos hfits,
      fun _ a ha => placeBytes_of_lt ?_, fun _ _ _ heq a ha => placeBytes_congr heq ?_⟩
    · rw [hlen]
      exact ha
    · rw [hlen]
      exact ha
  | copyMatch place source n =>
    change place + n ≤ size at hfits
    rcases Nat.eq_zero_or_pos n with rfl | hn
    · exact ⟨id, fun _ => rfl, fun _ _ _ => rfl, fun _ _ _ heq a ha => heq a ha⟩
    · obtain ⟨hsource, hle⟩ : 0 ≤ source ∧ source ≤ place := hreads
      have hne : source ≠ place := fun heq => hstuck ⟨heq, hn⟩
      obtain ⟨dist, hdist⟩ : ∃ dist, source.toNat = place - dist ∧ 0 < dist ∧ dist ≤ place :=
        ⟨place - source.toNat, by omega, by omega, by omega⟩
      obtain ⟨f, hf, happly⟩ := exists_matchSource hdist.2.1 hdist.2.2 n
      rw [← hdist.1] at happly
      refine ⟨fun mem => kkCopyMatch mem place source.toNat n, fun mem => ?_, fun mem a ha => ?_,
        fun _ mem₁ mem₂ heq a ha => ?_⟩
      · exact (if_neg hn.ne').trans ((if_neg hne).trans (if_pos ⟨hsource, by omega, hfits⟩))
      · change a < place ∨ place + n ≤ a at ha
        dsimp only
        rw [happly, if_neg (by omega)]
      · change a < place + n at ha
        have hlt := hf (a - place)
        dsimp only
        rw [happly, happly]
        by_cases hin : place ≤ a
        · rw [if_pos ⟨hin, ha⟩, if_pos ⟨hin, ha⟩]
          exact heq _ (by change _ < place; omega)
        · rw [if_neg fun h => hin h.1, if_neg fun h => hin h.1]
          exact heq a (Nat.not_le.mp hin)
  | addDelta place base lits =>
    change place + lits.length ≤ size at hfits
    by_cases hlits : lits = []
    · subst hlits
      exact ⟨id, fun _ => rfl, fun _ _ _ => rfl, fun _ _ _ heq a ha => heq a ha⟩
    · obtain ⟨hbase, hle⟩ : 0 ≤ base ∧ base ≤ place := hreads
      have hlen : 0 < lits.length := List.length_pos_iff.mpr hlits
      refine ⟨fun mem => deltaLiterals mem place base.toNat lits, fun mem => ?_, fun mem a ha => ?_,
        fun hread mem₁ mem₂ heq a ha => ?_⟩
      · exact (if_neg hlits).trans (if_pos ⟨hbase, by omega, hfits⟩)
      · exact deltaLiterals_of_lt ha
      · change a < place + lits.length at ha
        have hne : base ≠ place := fun heq => hread ⟨heq, hlits⟩
        dsimp only
        by_cases hin : place ≤ a
        · rw [deltaLiterals_apply (by omega) hin ha, deltaLiterals_apply (by omega) hin ha,
            heq _ (by change _ < place; omega)]
        · rw [deltaLiterals_of_lt (Or.inl (Nat.not_le.mp hin)),
            deltaLiterals_of_lt (Or.inl (Nat.not_le.mp hin))]
          exact heq a (Nat.not_le.mp hin)

/-- A stuck operation goes on forever. -/
lemma DstOp.run_of_stuck {op : DstOp} (h : op.Stuck) (size : ℕ) (mem : ℕ → UInt8) :
    op.run size mem = .error .forever := by
  cases op with
  | copyMatch place source n =>
    obtain ⟨rfl, hn⟩ := h
    exact (if_neg hn.ne').trans (if_pos rfl)
  | copyIn place bytes => exact absurd h id
  | fill place byte n => exact absurd h id
  | addDelta place base lits => exact absurd h id

/-! ## Runs -/

section Runs

variable {size p p' : ℕ} {ops : List DstOp}

/-- Operations that are not stuck write their own bytes only, in the same way from every output before
them, unless one reads its own place. -/
lemma replay_of_not_stuck (h : Chain (DstOp.Extends size) p ops p') (hstuck : ∀ op ∈ ops, ¬ op.Stuck) :
    ∃ write : (ℕ → UInt8) → (ℕ → UInt8), (∀ mem, replay (DstOp.run size) ops mem = .ok (write mem)) ∧
      (∀ mem a, a < p ∨ p' ≤ a → write mem a = mem a) ∧
      ((∀ op ∈ ops, ¬ op.ReadsUnwritten) → ∀ mem₁ mem₂, (∀ a < p, mem₁ a = mem₂ a) →
        ∀ a < p', write mem₁ a = write mem₂ a) := by
  induction h with
  | nil p => exact ⟨id, fun _ => rfl, fun _ _ _ => rfl, fun _ _ _ heq a ha => heq a ha⟩
  | @cons p p₁ p' op ops hstep hrest ih =>
    obtain ⟨write, hrun, hframe, hsame⟩ := DstOp.run_of_extends hstep (hstuck op List.mem_cons_self)
    obtain ⟨write', hrun', hframe', hsame'⟩ := ih fun op hop => hstuck op (List.mem_cons_of_mem _ hop)
    have hle : p ≤ p₁ := hstep.stop ▸ Nat.le_add_right _ _
    have hle' := le_of_chain hrest
    refine ⟨write' ∘ write, fun mem => ?_, fun mem a ha => ?_, fun hread mem₁ mem₂ heq => ?_⟩
    · rw [replay, hrun]
      exact hrun' _
    · exact (hframe' _ a (by omega)).trans (hframe mem a (by omega))
    · exact hsame' (fun op hop => hread op (List.mem_cons_of_mem _ hop)) _ _
        (hsame (hread op List.mem_cons_self) mem₁ mem₂ heq)

/-- With a stuck one among them they go on forever. -/
lemma replay_of_stuck (h : Chain (DstOp.Extends size) p ops p') {op : DstOp} (hop : op ∈ ops)
    (hstuck : op.Stuck) (mem : ℕ → UInt8) : replay (DstOp.run size) ops mem = .error .forever := by
  induction h generalizing mem with
  | nil p => exact absurd hop List.not_mem_nil
  | @cons p p₁ p' op₁ ops hstep hrest ih =>
    by_cases hfirst : op₁.Stuck
    · rw [replay, DstOp.run_of_stuck hfirst]
    · obtain ⟨write, hrun, -⟩ := DstOp.run_of_extends hstep hfirst
      rw [replay, hrun]
      rcases List.mem_cons.mp hop with rfl | hop
      · exact absurd hstuck hfirst
      · exact ih hop _

/-- Literals that read their own place leave a byte there that depends on it. -/
lemma replay_of_readsUnwritten (h : Chain (DstOp.Extends size) p ops p')
    (hstuck : ∀ op ∈ ops, ¬ op.Stuck) {op : DstOp} (hop : op ∈ ops) (hread : op.ReadsUnwritten) :
    ∃ a < p', ∃ lit, ∀ mem mem', replay (DstOp.run size) ops mem = .ok mem' → mem' a = lit + mem a := by
  obtain ⟨pre, post, rfl⟩ := List.append_of_mem hop
  obtain ⟨p₁, hpre, hlast⟩ := h.exists_append
  cases hlast with
  | @cons _ p₂ _ _ _ hstep hpost =>
    obtain ⟨write, hrun, hframe, -⟩ := replay_of_not_stuck hpre fun op hop =>
      hstuck op (List.mem_append_left _ hop)
    obtain ⟨write', hrun', hframe', -⟩ := replay_of_not_stuck hpost fun op hop =>
      hstuck op (List.mem_append_right _ (List.mem_cons_of_mem _ hop))
    have hle := le_of_chain hpost
    cases op with
    | addDelta place base lits =>
      obtain ⟨rfl, hne⟩ := hread
      obtain ⟨rfl, rfl, hfits, -⟩ := hstep
      obtain ⟨lit, lits, rfl⟩ := List.exists_cons_of_ne_nil hne
      change place + (lits.length + 1) ≤ size at hfits
      change place + (lits.length + 1) ≤ p' at hle
      refine ⟨place, by omega, lit, fun mem mem' hmem => ?_⟩
      rw [replay_append (hrun mem), replay, DstOp.run, if_neg hne,
        if_pos ⟨Int.natCast_nonneg _, by omega, hfits⟩, Int.toNat_natCast] at hmem
      simp only [hrun'] at hmem
      obtain rfl := Except.ok.inj hmem
      rw [hframe' _ _ (Or.inl (by change place < place + (lits.length + 1); omega)), deltaLiterals,
        deltaLiterals_of_lt (Or.inl (Nat.lt_succ_self _)), Function.update_self,
        hframe mem place (Or.inr le_rfl)]
    | copyIn place bytes => exact absurd hread id
    | fill place byte n => exact absurd hread id
    | copyMatch place source n => exact absurd hread id

end Runs

section Decoded

variable (src : List UInt8) (malloc : ℕ → Bool) (cap : ℕ)

/-- `pai_compress_decode` on a destination of `cap` bytes. -/
def decodeInto (mem : ℕ → UInt8) : Except Halt (Except PaiStatus ℕ × (ℕ → UInt8)) :=
  (paiCompressDecode src malloc cap).run (DstOp.run cap) mem

variable {src malloc cap} in
/-- A run without a stuck operation. -/
lemma decodeInto_of_not_stuck (hstuck : ∀ op ∈ (paiCompressDecode src malloc cap).ops, ¬ op.Stuck) :
    ∃ (r : Except PaiStatus ℕ) (p' : ℕ) (write : (ℕ → UInt8) → ℕ → UInt8), p' ≤ cap ∧ (∀ n, r = .ok n → p' = n ∧ 0 < n) ∧
      Chain (DstOp.Extends cap) 0 (paiCompressDecode src malloc cap).ops p' ∧
      (∀ mem, replay (DstOp.run cap) (paiCompressDecode src malloc cap).ops mem = .ok (write mem)) ∧
      (∀ mem, decodeInto src malloc cap mem = .ok (r, write mem)) ∧
      (∀ mem a, p' ≤ a → write mem a = mem a) ∧
      ((∀ op ∈ (paiCompressDecode src malloc cap).ops, ¬ op.ReadsUnwritten) →
        ∀ mem₁ mem₂, ∀ a < p', write mem₁ a = write mem₂ a) := by
  obtain ⟨p', hchain, hend⟩ := paiCompressDecode_spec src malloc cap
  obtain ⟨write, hrun, hframe, hsame⟩ := replay_of_not_stuck hchain hstuck
  cases hres : (paiCompressDecode src malloc cap).result with
  | error e =>
    rw [hres] at hend
    exact hend.elim
  | ok r =>
    rw [hres] at hend
    refine ⟨r, p', write, hend.1, hend.2, hchain, hrun, fun mem => ?_, fun mem a ha => hframe mem a (Or.inr ha),
      fun hread mem₁ mem₂ => hsame hread mem₁ mem₂ fun a ha => absurd ha (Nat.not_lt_zero a)⟩
    rw [decodeInto, Emit.run, hrun, hres]

/-- For every stream, destination and contents of it: either a match is reached whose source is its own
place, and the decoder goes on forever; or it ends, with a status or a positive number of bytes that fit,
every access of it has been in range, and no byte behind the destination has changed. -/
theorem paiCompressDecode_ends (mem : ℕ → UInt8) :
    (decodeInto src malloc cap mem = .error .forever ∧
      ∃ op ∈ (paiCompressDecode src malloc cap).ops, op.Stuck) ∨
    ((∀ op ∈ (paiCompressDecode src malloc cap).ops, ¬ op.Stuck) ∧
      ∃ r mem', decodeInto src malloc cap mem = .ok (r, mem') ∧ (∀ a, cap ≤ a → mem' a = mem a) ∧
        ∀ n, r = .ok n → 0 < n ∧ n ≤ cap) := by
  by_cases hstuck : ∃ op ∈ (paiCompressDecode src malloc cap).ops, op.Stuck
  · obtain ⟨op, hop, hs⟩ := hstuck
    obtain ⟨p', hchain, -⟩ := paiCompressDecode_spec src malloc cap
    refine Or.inl ⟨?_, op, hop, hs⟩
    rw [decodeInto, Emit.run, replay_of_stuck hchain hop hs]
  · have hstuck : ∀ op ∈ (paiCompressDecode src malloc cap).ops, ¬ op.Stuck := fun op hop hs =>
      hstuck ⟨op, hop, hs⟩
    obtain ⟨r, p', write, hcap, hr, -, -, hrun, hframe, -⟩ := decodeInto_of_not_stuck hstuck
    refine Or.inr ⟨hstuck, r, write mem, hrun mem, fun a ha => hframe mem a (hcap.trans ha), fun n hn => ?_⟩
    obtain ⟨rfl, hpos⟩ := hr n hn
    exact ⟨hpos, hcap⟩

/-- What a successful run leaves in the destination is the same for all earlier contents of it exactly if
no literals take up the byte at their own place. -/
theorem paiCompressDecode_output_iff {n : ℕ} {mem mem' : ℕ → UInt8}
    (hrun : decodeInto src malloc cap mem = .ok (.ok n, mem')) :
    (∀ mem₁ mem₂ : ℕ → UInt8, ∃ mem₁' mem₂', decodeInto src malloc cap mem₁ = .ok (.ok n, mem₁') ∧
      decodeInto src malloc cap mem₂ = .ok (.ok n, mem₂') ∧ ∀ a < n, mem₁' a = mem₂' a) ↔
      ∀ op ∈ (paiCompressDecode src malloc cap).ops, ¬ op.ReadsUnwritten := by
  have hstuck : ∀ op ∈ (paiCompressDecode src malloc cap).ops, ¬ op.Stuck := by
    rcases paiCompressDecode_ends src malloc cap mem with ⟨hforever, -⟩ | ⟨hstuck, -⟩
    · rw [hrun] at hforever
      cases hforever
    · exact hstuck
  obtain ⟨r, p', write, hcap, hr, hchain, hreplay, hdecode, -, hsame⟩ := decodeInto_of_not_stuck hstuck
  obtain ⟨rfl, -⟩ := Prod.mk.inj (Except.ok.inj ((hdecode mem).symm.trans hrun))
  obtain ⟨rfl, -⟩ := hr n rfl
  constructor
  · intro hall op hop hread
    obtain ⟨a, ha, lit, hbyte⟩ := replay_of_readsUnwritten hchain hstuck hop hread
    obtain ⟨mem₁', mem₂', h₁, h₂, heq⟩ := hall (fun _ => 0) fun _ => 1
    obtain ⟨-, rfl⟩ := Prod.mk.inj (Except.ok.inj ((hdecode _).symm.trans h₁))
    obtain ⟨-, rfl⟩ := Prod.mk.inj (Except.ok.inj ((hdecode _).symm.trans h₂))
    have heq := heq a ha
    rw [hbyte _ _ (hreplay _), hbyte _ _ (hreplay _)] at heq
    exact absurd (add_left_cancel heq) (by decide)
  · intro hread mem₁ mem₂
    exact ⟨write mem₁, write mem₂, hdecode mem₁, hdecode mem₂, hsame hread mem₁ mem₂⟩

end Decoded

/-- A stream for 100 bytes: eight of them, a literal behind a near offset of zero, and a match of 91 bytes at
a distance of eight.  Bit three of `mode` says whether the literal is plain. -/
def sampleStream (mode : UInt8) : List UInt8 :=
  [0x50, 0x41, 0x4B, 0x43, 1, 0, 0, 0, 100, 0, 0, 0, 0, 0, 0, 0, 0x0C, 10, 0, 0, 27, 0x80 + mode, 0, 25,
    1, 2, 3, 4, 5, 6, 7, 8, 0x80, 1, 9, 0x80, 2, 0x81, 1, 2, 0, 0, 0, 8, 0, 0, 0, 0, 0]

/-- The decoded length of the sample, whatever the destination holds. -/
lemma exists_decode_sample {mode : UInt8}
    (hops : ∀ op ∈ (paiCompressDecode (sampleStream mode) (fun _ => true) 100).ops, ¬ op.Stuck)
    (hres : (paiCompressDecode (sampleStream mode) (fun _ => true) 100).result = .ok (.ok 100))
    (mem : ℕ → UInt8) :
    ∃ mem', decodeInto (sampleStream mode) (fun _ => true) 100 mem = .ok (.ok 100, mem') := by
  obtain ⟨r, p', write, -, -, -, hreplay, hdecode, -⟩ := decodeInto_of_not_stuck hops
  refine ⟨write mem, ?_⟩
  rw [decodeInto, Emit.run, hreplay, hres]

lemma sampleStream_delta : (paiCompressDecode (sampleStream 0) (fun _ => true) 100).ops =
    [.copyIn 0 [1, 2, 3, 4, 5, 6, 7, 8], .addDelta 8 8 [9], .copyMatch 9 9 0, .copyMatch 9 1 91,
      .addDelta 100 92 []] := by
  decide +kernel

lemma sampleStream_plain : (paiCompressDecode (sampleStream 8) (fun _ => true) 100).ops =
    [.copyIn 0 [1, 2, 3, 4, 5, 6, 7, 8], .copyIn 8 [9], .copyMatch 9 9 0, .copyMatch 9 1 91,
      .copyIn 100 []] := by
  decide +kernel

/-- With literals that are not plain the sample gives different bytes for different destinations. -/
theorem sampleStream_output : ∃ mem', decodeInto (sampleStream 0) (fun _ => true) 100 (fun _ => 0) =
    .ok (.ok 100, mem') ∧
    ¬ ∀ mem₁ mem₂ : ℕ → UInt8, ∃ mem₁' mem₂',
      decodeInto (sampleStream 0) (fun _ => true) 100 mem₁ = .ok (.ok 100, mem₁') ∧
      decodeInto (sampleStream 0) (fun _ => true) 100 mem₂ = .ok (.ok 100, mem₂') ∧
      ∀ a < 100, mem₁' a = mem₂' a := by
  have hstuck : ∀ op ∈ (paiCompressDecode (sampleStream 0) (fun _ => true) 100).ops, ¬ op.Stuck := by
    rw [sampleStream_delta]
    simp [DstOp.Stuck]
  obtain ⟨mem', hrun⟩ := exists_decode_sample hstuck rfl fun _ => 0
  refine ⟨mem', hrun, fun hall => ?_⟩
  have hnone := (paiCompressDecode_output_iff (sampleStream 0) (fun _ => true) 100 hrun).mp hall
  rw [sampleStream_delta] at hnone
  exact hnone (.addDelta 8 8 [9]) (by simp) ⟨rfl, by simp⟩

/-! ## Meaning -/

/-- What an operation means for the output before it. -/
def DstOp.meaning (out : List UInt8) : DstOp → List UInt8
  | .copyIn _ bytes => out ++ bytes
  | .fill _ byte n => out ++ List.replicate n byte
  | .copyMatch place source n => Lz.extend out (place - source).toNat n
  | .addDelta _ base lits => out ++ lits.map (· + out.getD base.toNat 0)

/-- The operation ends, does not read its own place, and copies byte by byte. -/
structure DstOp.Clean (op : DstOp) : Prop where
  /-- It is not stuck. -/
  ends : ¬ op.Stuck
  /-- It reads the output. -/
  reads : ¬ op.ReadsUnwritten
  /-- The distance of a match is eight at least, or its length is up to the distance or a multiple of it. -/
  inPhase : ∀ place source n, op = .copyMatch place source n →
    8 ≤ (place - source).toNat ∨ n ≤ (place - source).toNat ∨ (place - source).toNat ∣ n

lemma front_placeBytes (mem : ℕ → UInt8) (place : ℕ) (bytes : List UInt8) :
    Lz.front (placeBytes mem place bytes) (place + bytes.length) = Lz.front mem place ++ bytes := by
  refine Lz.front_append (fun a ha => placeBytes_of_lt (Or.inl ha)) fun i hi => ?_
  rw [placeBytes_apply, if_pos ⟨Nat.le_add_right _ _, by omega⟩, Nat.add_sub_cancel_left,
    List.getD_eq_getElem _ _ hi, List.getElem?_eq_getElem hi]

/-- A clean operation turns the output before it into what it means. -/
lemma DstOp.front_run {size p p' : ℕ} {op : DstOp} (h : op.Extends size p p') (hclean : op.Clean)
    {mem mem' : ℕ → UInt8} (hrun : op.run size mem = .ok mem') :
    Lz.front mem' p' = op.meaning (Lz.front mem p) := by
  obtain ⟨rfl, rfl, hfits, hreads⟩ := h
  cases op with
  | copyIn place bytes =>
    obtain rfl := Except.ok.inj ((if_pos hfits).symm.trans hrun)
    exact front_placeBytes mem place bytes
  | fill place byte n =>
    obtain rfl := Except.ok.inj ((if_pos hfits).symm.trans hrun)
    have hfront := front_placeBytes mem place (List.replicate n byte)
    rw [List.length_replicate] at hfront
    exact hfront
  | copyMatch place source n =>
    change place + n ≤ size at hfits
    change Lz.front mem' (place + n) = Lz.extend (Lz.front mem place) (place - source).toNat n
    rcases Nat.eq_zero_or_pos n with rfl | hn
    · cases hrun
      rfl
    · obtain ⟨hsource, hle⟩ : 0 ≤ source ∧ source ≤ place := hreads
      have hne : source ≠ place := fun heq => hclean.ends ⟨heq, hn⟩
      have hphase := hclean.inPhase place source n rfl
      rw [DstOp.run, if_neg hn.ne', if_neg hne, if_pos ⟨hsource, by omega, hfits⟩] at hrun
      obtain rfl := Except.ok.inj hrun
      obtain ⟨dist, hdist, hpos, hback⟩ : ∃ dist, (place - source).toNat = dist ∧ 0 < dist ∧
          dist ≤ place := ⟨_, rfl, by omega, by omega⟩
      rw [hdist] at hphase ⊢
      rw [show source.toNat = place - dist by omega, kkCopyMatch_of_inPhase hpos hback hphase]
      exact Lz.front_copy hpos hback n
  | addDelta place base lits =>
    change place + lits.length ≤ size at hfits
    change Lz.front mem' (place + lits.length) =
      Lz.front mem place ++ lits.map (· + (Lz.front mem place).getD base.toNat 0)
    by_cases hlits : lits = []
    · subst hlits
      cases hrun
      exact (List.append_nil _).symm
    · obtain ⟨hbase, hle⟩ : 0 ≤ base ∧ base ≤ place := hreads
      have hne : base ≠ place := fun heq => hclean.reads ⟨heq, hlits⟩
      have hlen : 0 < lits.length := List.length_pos_iff.mpr hlits
      have hadd : (Lz.front mem place).getD base.toNat 0 = mem base.toNat := by
        rw [List.getD_eq_getElem?_getD, Lz.getElem?_front (by omega), Option.getD_some]
      rw [DstOp.run, if_neg hlits, if_pos ⟨hbase, by omega, hfits⟩] at hrun
      obtain rfl := Except.ok.inj hrun
      have hfront := @Lz.front_append _ mem (deltaLiterals mem place base.toNat lits) place
        (lits.map (· + mem base.toNat)) (fun a ha => deltaLiterals_of_lt (Or.inl ha)) fun i hi => by
          rw [List.length_map] at hi
          rw [deltaLiterals_apply (by omega) (Nat.le_add_right _ _) (by omega), Nat.add_sub_cancel_left,
            List.getElem?_map, List.getElem?_eq_getElem hi, List.getD_eq_getElem _ _ hi, Option.map_some]
      rw [List.length_map] at hfront
      rw [hadd, hfront]

lemma front_replay {size p p' : ℕ} {ops : List DstOp} (h : Chain (DstOp.Extends size) p ops p')
    (hclean : ∀ op ∈ ops, op.Clean) {mem mem' : ℕ → UInt8}
    (hrun : replay (DstOp.run size) ops mem = .ok mem') :
    Lz.front mem' p' = ops.foldl DstOp.meaning (Lz.front mem p) := by
  induction h generalizing mem with
  | nil p =>
    cases hrun
    rfl
  | @cons p p₁ p' op ops hstep _ ih =>
    have hop := hclean op List.mem_cons_self
    obtain ⟨write, hwrite, -⟩ := DstOp.run_of_extends hstep hop.ends
    rw [replay, hwrite] at hrun
    rw [ih (fun op hop => hclean op (List.mem_cons_of_mem _ hop)) hrun, List.foldl_cons,
      DstOp.front_run hstep hop (hwrite mem)]

/-- If every operation is clean, the decoded bytes are what the operations mean, one after the other, from
an empty output on. -/
theorem paiCompressDecode_meaning (src : List UInt8) (malloc : ℕ → Bool) (cap n : ℕ)
    (mem mem' : ℕ → UInt8) (hrun : decodeInto src malloc cap mem = .ok (.ok n, mem'))
    (hclean : ∀ op ∈ (paiCompressDecode src malloc cap).ops, op.Clean) :
    Lz.front mem' n = (paiCompressDecode src malloc cap).ops.foldl DstOp.meaning [] := by
  obtain ⟨r, p', write, -, hr, hchain, hreplay, hdecode, -⟩ :=
    decodeInto_of_not_stuck fun op hop => (hclean op hop).ends
  obtain ⟨rfl, rfl⟩ := Prod.mk.inj (Except.ok.inj ((hdecode mem).symm.trans hrun))
  obtain ⟨rfl, -⟩ := hr n rfl
  exact front_replay hchain hclean (hreplay mem)

/-- The sample with plain literals. -/
theorem sampleStream_meaning : ∃ mem', decodeInto (sampleStream 8) (fun _ => true) 100 (fun _ => 0) =
    .ok (.ok 100, mem') ∧
    Lz.front mem' 100 = (paiCompressDecode (sampleStream 8) (fun _ => true) 100).ops.foldl
      DstOp.meaning [] := by
  have hclean : ∀ op ∈ (paiCompressDecode (sampleStream 8) (fun _ => true) 100).ops, op.Clean := by
    rw [sampleStream_plain]
    simp only [List.forall_mem_cons]
    refine ⟨⟨id, id, by simp⟩, ⟨id, id, by simp⟩, ⟨?_, id, ?_⟩, ⟨?_, id, ?_⟩, ⟨id, id, by simp⟩, by simp⟩
    · exact fun h => absurd h.2 (lt_irrefl 0)
    · rintro place source n ⟨⟩
      exact Or.inr (Or.inl (Nat.zero_le _))
    · exact fun h => absurd h.1 (by decide)
    · rintro place source n ⟨⟩
      exact Or.inl (by decide)
  obtain ⟨mem', hrun⟩ := exists_decode_sample (fun op hop => (hclean op hop).ends) rfl fun _ => 0
  exact ⟨mem', hrun, paiCompressDecode_meaning (sampleStream 8) (fun _ => true) 100 100 (fun _ => 0) mem'
    hrun hclean⟩

end Prospero
