import Prospero.Adapters.GgufDequant

/-!
# The accesses of dequantization

Every layout of `dequant_block` loads only bytes of its block and stores every float of its block once
(`IsLayout`).  The block loop then covers the tensor.

The claim about `pai_gguf_dequant` is `DequantSound`; it holds for the tensors whose extents have a product
below `2 ^ 62`.  From there on `numel * sizeof(float)` wraps, and from `2 ^ 64` on `numel` itself does, in
spite of the bound on every extent.

### Outline

* Loads and stores of the loops.
* The layouts.
* Tensors.
-/

namespace Prospero

open Arrays Buffer ByteString Reader

/-! ## Loops -/

/-- A load among the `n` bytes from `lo` on. -/
def LoadsIn (lo n : ℕ) (acc : Access DequantArray) : Prop :=
  acc.array = .src ∧ lo ≤ acc.first ∧ acc.first + acc.count ≤ lo + n

section Loops

variable {F : Type} {lo n p dst : ℕ}

lemma sweeps_readByte (h : lo ≤ p) (h' : p + 1 ≤ lo + n) :
    (readByte p : Dequant F UInt8).Sweeps (LoadsIn lo n) [] fun _ => True :=
  (sweeps_load ⟨rfl, h, h'⟩).bind_nil fun _ _ => sweeps_pure trivial

lemma sweeps_readU16 (h : lo ≤ p) (h' : p + 2 ≤ lo + n) :
    (readU16 p : Dequant F UInt16).Sweeps (LoadsIn lo n) [] fun _ => True := by
  refine (sweeps_readByte h (by omega)).bind_nil fun b0 _ => ?_
  refine (sweeps_readByte (by omega) (by omega)).bind_nil fun b1 _ => ?_
  exact sweeps_pure trivial

lemma sweeps_readU32 (h : lo ≤ p) (h' : p + 4 ≤ lo + n) :
    (readU32 p : Dequant F UInt32).Sweeps (LoadsIn lo n) [] fun _ => True := by
  refine (sweeps_readByte h (by omega)).bind_nil fun b0 _ => ?_
  refine (sweeps_readByte (by omega) (by omega)).bind_nil fun b1 _ => ?_
  refine (sweeps_readByte (by omega) (by omega)).bind_nil fun b2 _ => ?_
  refine (sweeps_readByte (by omega) (by omega)).bind_nil fun b3 _ => ?_
  exact sweeps_pure trivial

lemma sweeps_leF16 (fl : FloatOps F) (h : lo ≤ p) (h' : p + 2 ≤ lo + n) :
    (leF16 fl p).Sweeps (LoadsIn lo n) [] fun _ => True :=
  (sweeps_readU16 h h').bind_nil fun _ _ => sweeps_pure trivial

/-- The scales of the eight sub-blocks are in twelve bytes. -/
lemma sweeps_getScaleMinK4 {j : ℕ} (hj : j < 8) (h : lo ≤ p) (h' : p + 12 ≤ lo + n) :
    (getScaleMinK4 j p : Dequant F _).Sweeps (LoadsIn lo n) [] fun _ => True := by
  unfold getScaleMinK4
  split_ifs with hj4
  · refine (sweeps_readByte (by omega) (by omega)).bind_nil fun d _ => ?_
    refine (sweeps_readByte (by omega) (by omega)).bind_nil fun m _ => ?_
    exact sweeps_pure trivial
  · refine (sweeps_readByte (by omega) (by omega)).bind_nil fun a _ => ?_
    refine (sweeps_readByte (by omega) (by omega)).bind_nil fun b _ => ?_
    refine (sweeps_readByte (by omega) (by omega)).bind_nil fun c _ => ?_
    exact sweeps_pure trivial

lemma sweeps_writeFloat {P : Access DequantArray → Prop} (i : ℕ) (x : F) :
    (writeFloat i x).Sweeps P (cells .dst i 1) fun _ => True := sweeps_store

/-- The loop over the elements of the unblocked types. -/
lemma sweeps_floatLoop {width numel : ℕ} {convert : ℕ → Dequant F F}
    (hconvert : ∀ q, lo ≤ q → q + width ≤ lo + numel * width →
      (convert q).Sweeps (LoadsIn lo (numel * width)) [] fun _ => True) :
    (floatLoop width convert lo dst numel).Sweeps (LoadsIn lo (numel * width)) (cells .dst dst numel)
      fun _ => True := by
  rw [← flatMap_cell]
  refine Prog.Sweeps.mono (sweeps_rounds (fun i p => p = lo + i * width) _ (by omega)
    fun i p _ hi hp => ?_) fun _ _ => trivial
  have hlast : i * width + width ≤ numel * width := by
    rw [← Nat.succ_mul]
    exact Nat.mul_le_mul_right width (by omega)
  refine (hconvert p (by omega) (by omega)).bind_nil fun x _ => ?_
  refine ((sweeps_writeFloat (dst + i) x).bind fun _ _ => sweeps_pure ?_).perm (by rw [List.append_nil])
  rw [hp, Nat.succ_mul, Nat.add_assoc]

lemma sweeps_nibbleLoop (lo' hi' : ℕ → UInt8 → F) (h : lo ≤ p) (h' : p + 16 ≤ lo + n) :
    (nibbleLoop p dst lo' hi').Sweeps (LoadsIn lo n) (cells .dst dst 32) fun _ => True := by
  have hcells : ((List.range' 0 16).flatMap fun j =>
      cells DequantArray.dst (dst + j) 1 ++ cells .dst (dst + (j + 16)) 1).Perm (cells .dst dst 32) := by
    refine (List.flatMap_append_perm _ _ _).symm.trans ?_
    rw [flatMap_cell, flatMap_cell_add, cells_append]
  refine (sweeps_rounds (fun _ _ => True) _ trivial fun j _ _ hj _ => ?_).perm hcells
  refine (sweeps_readByte (by omega) (by omega)).bind_nil fun q _ => ?_
  exact (sweeps_writeFloat _ _).bind fun _ _ => sweeps_writeFloat _ _

lemma sweeps_int8Loop (fl : FloatOps F) {k : ℕ} (d : F) (h : lo ≤ p) (h' : p + k ≤ lo + n) :
    (int8Loop fl p dst k d).Sweeps (LoadsIn lo n) (cells .dst dst k) fun _ => True := by
  rw [← flatMap_cell]
  refine sweeps_rounds (fun _ _ => True) _ trivial fun j _ _ hj _ => ?_
  exact (sweeps_readByte (by omega) (by omega)).bind_nil fun q _ => sweeps_writeFloat _ _

lemma sweeps_pushLoop {value : ℕ → UInt8 → Dequant F F} (h : lo ≤ p) (h' : p + 16 ≤ lo + n)
    (hvalue : ∀ l < 16, ∀ b, (value l b).Sweeps (LoadsIn lo n) [] fun _ => True) :
    (pushLoop p value dst).Sweeps (LoadsIn lo n) (cells .dst dst 16) (· = dst + 16) := by
  rw [← flatMap_cell]
  refine sweeps_rounds (fun l d => d = dst + l) _ rfl fun l d _ hl hd => ?_
  refine (sweeps_readByte (by omega) (by omega)).bind_nil fun b _ => ?_
  refine (hvalue l (by omega) b).bind_nil fun x _ => ?_
  subst hd
  refine ((sweeps_writeFloat _ x).bind fun _ _ => sweeps_pure rfl).perm ?_
  rw [List.append_nil]

lemma sweeps_putLoop {value : ℕ → UInt8 → Dequant F F} (h : lo ≤ p) (h' : p + 32 ≤ lo + n)
    (hvalue : ∀ l < 32, ∀ b, (value l b).Sweeps (LoadsIn lo n) [] fun _ => True) :
    (putLoop p dst value).Sweeps (LoadsIn lo n) (cells .dst dst 32) fun _ => True := by
  rw [← flatMap_cell]
  refine sweeps_rounds (fun _ _ => True) _ trivial fun l _ _ hl _ => ?_
  refine (sweeps_readByte (by omega) (by omega)).bind_nil fun b _ => ?_
  exact (hvalue l (by omega) b).bind_nil fun x _ => sweeps_writeFloat _ _

end Loops

/-! ## The layouts -/

/-- A layout of blocks of `per` bytes and `len` floats. -/
def IsLayout {F : Type} (layout : ℕ → ℕ → Dequant F (ℕ × ℕ)) (per len : ℕ) : Prop :=
  ∀ src dst, (layout src dst).Sweeps (LoadsIn src per) (cells .dst dst len) (· = (src + per, dst + len))

section Layouts

variable {F : Type} (fl : FloatOps F)

/-- The pointers behind the block are returned last. -/
lemma sweeps_block {m : Dequant F Unit} {src dst per len : ℕ}
    (h : m.Sweeps (LoadsIn src per) (cells .dst dst len) fun _ => True) :
    (do m; pure (src + per, dst + len) : Dequant F (ℕ × ℕ)).Sweeps (LoadsIn src per)
      (cells .dst dst len) (· = (src + per, dst + len)) :=
  (h.bind fun _ _ => sweeps_pure rfl).perm (by rw [List.append_nil])

lemma isLayout_q40 : IsLayout (dequantQ40 fl) 18 32 := fun src dst =>
  (sweeps_leF16 fl le_rfl (by omega)).bind_nil fun d _ =>
  sweeps_block (sweeps_nibbleLoop _ _ (by omega) (by omega))

lemma isLayout_q41 : IsLayout (dequantQ41 fl) 20 32 := fun src dst =>
  (sweeps_leF16 fl le_rfl (by omega)).bind_nil fun d _ =>
  (sweeps_leF16 fl (by omega) (by omega)).bind_nil fun m _ =>
  sweeps_block (sweeps_nibbleLoop _ _ (by omega) (by omega))

lemma isLayout_q50 : IsLayout (dequantQ50 fl) 22 32 := fun src dst =>
  (sweeps_leF16 fl le_rfl (by omega)).bind_nil fun d _ =>
  (sweeps_readU32 (by omega) (by omega)).bind_nil fun qh _ =>
  sweeps_block (sweeps_nibbleLoop _ _ (by omega) (by omega))

lemma isLayout_q51 : IsLayout (dequantQ51 fl) 24 32 := fun src dst =>
  (sweeps_leF16 fl le_rfl (by omega)).bind_nil fun d _ =>
  (sweeps_leF16 fl (by omega) (by omega)).bind_nil fun m _ =>
  (sweeps_readU32 (by omega) (by omega)).bind_nil fun qh _ =>
  sweeps_block (sweeps_nibbleLoop _ _ (by omega) (by omega))

lemma isLayout_q80 : IsLayout (dequantQ80 fl) 34 32 := fun src dst =>
  (sweeps_leF16 fl le_rfl (by omega)).bind_nil fun d _ =>
  sweeps_block (sweeps_int8Loop fl d (by omega) (by omega))

lemma isLayout_q81 : IsLayout (dequantQ81 fl) 36 32 := fun src dst =>
  (sweeps_leF16 fl le_rfl (by omega)).bind_nil fun d _ =>
  sweeps_block (sweeps_int8Loop fl d (by omega) (by omega))

lemma isLayout_q8K : IsLayout (dequantQ8K fl) 292 256 := fun src dst =>
  (sweeps_readU32 le_rfl (by omega)).bind_nil fun bits _ =>
  sweeps_block (sweeps_int8Loop fl _ (by omega) (by omega))

lemma cells_16_16 (d : ℕ) :
    cells DequantArray.dst d 32 = cells .dst d 16 ++ cells .dst (d + 16) 16 :=
  (cells_append _ _ 16 16).symm

lemma cells_32_32 (d : ℕ) :
    cells DequantArray.dst d 64 = cells .dst d 32 ++ cells .dst (d + 32) 32 :=
  (cells_append _ _ 32 32).symm

lemma isLayout_q2K : IsLayout (dequantQ2K fl) 84 256 := by
  intro src dst
  refine (sweeps_leF16 fl (by omega) (by omega)).bind_nil fun d _ => ?_
  refine (sweeps_leF16 fl (by omega) (by omega)).bind_nil fun min _ => ?_
  rw [← List.append_nil (cells _ dst 256)]
  refine Prog.Sweeps.bind (sweeps_rounds_cells (n := 2) (k := 128)
    (fun n b => b = (src + 16 + n * 32, n * 8, dst + n * 128)) ?_ ?_) fun b hb => ?_
  · rfl
  · rintro n _ hn rfl
    rw [← List.append_nil (cells _ _ 128)]
    refine Prog.Sweeps.bind (sweeps_rounds_cells (n := 4) (k := 32)
      (fun j b => b.1 = n * 8 + j * 2 ∧ b.2.2 = dst + n * 128 + j * 32) ?_ ?_) fun b hb => ?_
    · exact ⟨rfl, rfl⟩
    · rintro j ⟨is, shift, d'⟩ hj ⟨rfl, rfl⟩
      rw [cells_16_16]
      refine (sweeps_readByte (by omega) (by omega)).bind_nil fun s _ => ?_
      refine Prog.Sweeps.bind (sweeps_pushLoop (by omega) (by omega) fun _ _ _ => ?_) ?_
      · exact sweeps_pure trivial
      rintro _ rfl
      rw [← List.append_nil (cells _ _ 16)]
      refine (sweeps_readByte (by omega) (by omega)).bind_nil fun s _ => ?_
      refine Prog.Sweeps.bind (sweeps_pushLoop (by omega) (by omega) fun _ _ _ => ?_) ?_
      · exact sweeps_pure trivial
      rintro _ rfl
      exact sweeps_pure ⟨by ring, by ring⟩
    · obtain ⟨is, shift, d'⟩ := b
      obtain ⟨rfl, rfl⟩ := hb
      exact sweeps_pure (by ring_nf)
  · subst hb
    exact sweeps_pure rfl

lemma isLayout_q3K : IsLayout (dequantQ3K fl) 110 256 := by
  intro src dst
  refine (sweeps_leF16 fl (by omega) (by omega)).bind_nil fun dAll _ => ?_
  refine (sweeps_readU32 (by omega) (by omega)).bind_nil fun aux0 _ => ?_
  refine (sweeps_readU32 (by omega) (by omega)).bind_nil fun aux1 _ => ?_
  refine (sweeps_readU32 (by omega) (by omega)).bind_nil fun tmp _ => ?_
  rw [← List.append_nil (cells _ dst 256)]
  refine Prog.Sweeps.bind (sweeps_rounds_cells (n := 2) (k := 128)
    (fun n b => b.1 = src + 32 + n * 32 ∧ b.2.2.2 = dst + n * 128) ?_ ?_) fun b hb => ?_
  · exact ⟨rfl, rfl⟩
  · rintro n ⟨q, is, m, d⟩ hn ⟨rfl, rfl⟩
    rw [← List.append_nil (cells _ _ 128)]
    refine Prog.Sweeps.bind (sweeps_rounds_cells (n := 4) (k := 32)
      (fun j b => b.2.2.2 = dst + n * 128 + j * 32) ?_ ?_) fun b hb => ?_
    · exact rfl
    · rintro j ⟨is, shift, m, d⟩ hj rfl
      rw [cells_16_16]
      refine Prog.Sweeps.bind (sweeps_pushLoop (by omega) (by omega) fun l hl _ => ?_) ?_
      · exact (sweeps_readByte (by omega) (by omega)).bind_nil fun h _ => sweeps_pure trivial
      rintro _ rfl
      rw [← List.append_nil (cells _ _ 16)]
      refine Prog.Sweeps.bind (sweeps_pushLoop (by omega) (by omega) fun l hl _ => ?_) ?_
      · exact (sweeps_readByte (by omega) (by omega)).bind_nil fun h _ => sweeps_pure trivial
      rintro _ rfl
      exact sweeps_pure (by ring)
    · obtain ⟨is, shift, m, d⟩ := b
      subst hb
      exact sweeps_pure ⟨by ring, by ring⟩
  · obtain ⟨q, is, m, d⟩ := b
    obtain ⟨rfl, rfl⟩ := hb
    exact sweeps_pure rfl

lemma isLayout_q4K : IsLayout (dequantQ4K fl) 144 256 := by
  intro src dst
  refine (sweeps_leF16 fl (by omega) (by omega)).bind_nil fun d _ => ?_
  refine (sweeps_leF16 fl (by omega) (by omega)).bind_nil fun min _ => ?_
  rw [← List.append_nil (cells _ dst 256)]
  refine Prog.Sweeps.bind (sweeps_rounds_cells (n := 4) (k := 64)
    (fun j b => b = (src + 16 + j * 32, j * 2, dst + j * 64)) ?_ ?_) fun b hb => ?_
  · rfl
  · rintro j _ hj rfl
    refine (sweeps_getScaleMinK4 (by omega) (by omega) (by omega)).bind_nil fun sm _ => ?_
    refine (sweeps_getScaleMinK4 (by omega) (by omega) (by omega)).bind_nil fun sm' _ => ?_
    rw [cells_32_32]
    refine Prog.Sweeps.bind (sweeps_putLoop (by omega) (by omega) fun _ _ _ => ?_) fun _ _ => ?_
    · exact sweeps_pure trivial
    rw [← List.append_nil (cells _ _ 32)]
    refine Prog.Sweeps.bind (sweeps_putLoop (by omega) (by omega) fun _ _ _ => ?_) fun _ _ => ?_
    · exact sweeps_pure trivial
    exact sweeps_pure (by ring_nf)
  · subst hb
    exact sweeps_pure rfl

lemma isLayout_q5K : IsLayout (dequantQ5K fl) 176 256 := by
  intro src dst
  refine (sweeps_leF16 fl (by omega) (by omega)).bind_nil fun d _ => ?_
  refine (sweeps_leF16 fl (by omega) (by omega)).bind_nil fun min _ => ?_
  rw [← List.append_nil (cells _ dst 256)]
  refine Prog.Sweeps.bind (sweeps_rounds_cells (n := 4) (k := 64)
    (fun j b => b.1 = src + 48 + j * 32 ∧ b.2.1 = j * 2 ∧ b.2.2.2.2 = dst + j * 64) ?_ ?_) fun b hb => ?_
  · exact ⟨rfl, rfl, rfl⟩
  · rintro j ⟨ql, is, u1, u2, d⟩ hj ⟨rfl, rfl, rfl⟩
    refine (sweeps_getScaleMinK4 (by omega) (by omega) (by omega)).bind_nil fun sm _ => ?_
    refine (sweeps_getScaleMinK4 (by omega) (by omega) (by omega)).bind_nil fun sm' _ => ?_
    rw [cells_32_32]
    refine Prog.Sweeps.bind (sweeps_putLoop (by omega) (by omega) fun l hl _ => ?_) fun _ _ => ?_
    · exact (sweeps_readByte (by omega) (by omega)).bind_nil fun h _ => sweeps_pure trivial
    rw [← List.append_nil (cells _ _ 32)]
    refine Prog.Sweeps.bind (sweeps_putLoop (by omega) (by omega) fun l hl _ => ?_) fun _ _ => ?_
    · exact (sweeps_readByte (by omega) (by omega)).bind_nil fun h _ => sweeps_pure trivial
    exact sweeps_pure ⟨by ring, by ring, by ring⟩
  · obtain ⟨ql, is, u1, u2, d⟩ := b
    obtain ⟨rfl, rfl, rfl⟩ := hb
    exact sweeps_pure rfl

/-- The four strided stores of the inner loop of `Q6_K` cover half a block. -/
lemma strided_cells (d : ℕ) :
    ((List.range' 0 32).flatMap fun l =>
      cells DequantArray.dst (d + l) 1 ++ (cells .dst (d + (l + 32)) 1 ++
        (cells .dst (d + (l + 64)) 1 ++ cells .dst (d + (l + 96)) 1))).Perm (cells .dst d 128) := by
  have hsplit (f g : ℕ → List (Access DequantArray)) :
      ((List.range' 0 32).flatMap fun l => f l ++ g l).Perm
        ((List.range' 0 32).flatMap f ++ (List.range' 0 32).flatMap g) :=
    (List.flatMap_append_perm _ _ _).symm
  refine (hsplit _ _).trans ?_
  rw [flatMap_cell, ← cells_append _ d 32 96]
  refine List.Perm.append_left _ ((hsplit _ _).trans ?_)
  rw [flatMap_cell_add, ← cells_append _ (d + 32) 32 64]
  refine List.Perm.append_left _ ((hsplit _ _).trans ?_)
  rw [flatMap_cell_add, flatMap_cell_add, ← cells_append _ (d + 32 + 32) 32 32]

lemma isLayout_q6K : IsLayout (dequantQ6K fl) 210 256 := by
  intro src dst
  refine (sweeps_leF16 fl (by omega) (by omega)).bind_nil fun d _ => ?_
  rw [← List.append_nil (cells _ dst 256)]
  refine Prog.Sweeps.bind (sweeps_rounds_cells (n := 2) (k := 128)
    (fun n b => b = (src + n * 64, src + 128 + n * 32, src + 192 + n * 8, dst + n * 128)) ?_ ?_)
    fun b hb => ?_
  · rfl
  · rintro n _ hn rfl
    rw [← List.append_nil (cells _ _ 128)]
    refine Prog.Sweeps.bind ((sweeps_rounds (fun _ _ => True) _ trivial fun l _ _ hl _ => ?_).perm
      (strided_cells _)) fun _ _ => ?_
    · refine (sweeps_readByte (by omega) (by omega)).bind_nil fun a _ => ?_
      refine (sweeps_readByte (by omega) (by omega)).bind_nil fun b _ => ?_
      refine (sweeps_readByte (by omega) (by omega)).bind_nil fun h _ => ?_
      refine (sweeps_readByte (by omega) (by omega)).bind_nil fun s1 _ => ?_
      refine (sweeps_writeFloat _ _).bind fun _ _ => ?_
      refine (sweeps_readByte (by omega) (by omega)).bind_nil fun s2 _ => ?_
      refine (sweeps_writeFloat _ _).bind fun _ _ => ?_
      refine (sweeps_readByte (by omega) (by omega)).bind_nil fun s3 _ => ?_
      refine (sweeps_writeFloat _ _).bind fun _ _ => ?_
      refine (sweeps_readByte (by omega) (by omega)).bind_nil fun s4 _ => ?_
      exact sweeps_writeFloat _ _
    · exact sweeps_pure (by ring_nf)
  · subst hb
    exact sweeps_pure rfl

end Layouts

/-! ## Tensors -/

section Tensors

variable {F : Type} {fl : FloatOps F}

/-- The block loop covers the tensor. -/
lemma sweeps_blockLoop {layout : ℕ → ℕ → Dequant F (ℕ × ℕ)} {per len : ℕ} (h : IsLayout layout per len)
    (nb src dst : ℕ) :
    (blockLoop layout nb src dst).Sweeps (LoadsIn src (nb * per)) (cells .dst dst (nb * len))
      fun _ => True := by
  rw [← List.append_nil (cells _ _ _)]
  refine Prog.Sweeps.bind (sweeps_rounds_cells (fun b s => s = (src + b * per, dst + b * len)) ?_ ?_)
    fun _ _ => sweeps_pure trivial
  · rw [Nat.zero_mul, Nat.zero_mul, Nat.add_zero, Nat.add_zero]
  · rintro b _ hb rfl
    have hlast : b * per + per ≤ nb * per := by
      rw [← Nat.succ_mul]
      exact Nat.mul_le_mul_right per hb
    refine ((h _ _).loads ?_).mono ?_
    · rintro acc ⟨hsrc, hlo, hhi⟩
      exact ⟨hsrc, by omega, by omega⟩
    · rintro _ rfl
      rw [Nat.succ_mul, Nat.succ_mul, Nat.add_assoc, Nat.add_assoc]

lemma sweeps_convertF32 {lo n p : ℕ} (h : lo ≤ p) (h' : p + 4 ≤ lo + n) :
    (convertF32 fl p).Sweeps (LoadsIn lo n) [] fun _ => True :=
  (sweeps_readU32 h h').bind_nil fun _ _ => sweeps_pure trivial

lemma sweeps_convertBf16 {lo n p : ℕ} (h : lo ≤ p) (h' : p + 2 ≤ lo + n) :
    (convertBf16 fl p).Sweeps (LoadsIn lo n) [] fun _ => True :=
  (sweeps_readU16 h h').bind_nil fun _ _ => sweeps_pure trivial

/-- The two kinds of types: plain floats, and blocks. -/
inductive DequantKind (fl : FloatOps F) (type : UInt32) (numel : UInt64) (src : ℕ)
    (run : Dequant F Unit) : Prop where
  /-- An element has `width` bytes. -/
  | plain (width : ℕ) (convert : ℕ → Dequant F F) (small : width ≤ 4)
      (bytes : paiGgufTypeBytes type numel = numel * UInt64.ofNat width)
      (elem : ∀ {lo n q}, lo ≤ q → q + width ≤ lo + n →
        (convert q).Sweeps (LoadsIn lo n) [] fun _ => True)
      (run_eq : run = do let _ ← floatLoop width convert src 0 numel.toNat)
  /-- `len` elements have `per` bytes. -/
  | blocked {len per : ℕ} {layout : ℕ → ℕ → Dequant F (ℕ × ℕ)}
      (sizes : 0 < len ∧ per ≤ 2 * len ∧ len ≤ 256)
      (bytes : paiGgufTypeBytes type numel = blockedBytes (UInt64.ofNat len) (UInt64.ofNat per) numel)
      (block : IsLayout layout per len)
      (run_eq : run = blockLoop layout (numel.toNat / len) src 0)

/-- Every type `dequant_block` supports is of one of the kinds. -/
lemma dequantKind {type : UInt32} {numel : UInt64} {src : ℕ} {run : Dequant F Unit}
    (h : dequantBlock fl type src 0 numel.toNat = some run) : DequantKind fl type numel src run := by
  have hbytes : ∀ k, type.toNat = k →
      paiGgufTypeBytes type numel = paiGgufTypeBytes (UInt32.ofNat k) numel := by
    rintro _ rfl
    rw [UInt32.ofNat_toNat]
  unfold dequantBlock at h
  split at h <;> cases h
  case h_1 ht => exact .plain 4 _ (by decide) (hbytes 0 ht) sweeps_convertF32 rfl
  case h_2 ht => exact .plain 2 _ (by decide) (hbytes 1 ht) (sweeps_leF16 fl) rfl
  case h_3 ht => exact .plain 2 _ (by decide) (hbytes 20 ht) sweeps_convertBf16 rfl
  case h_4 ht => exact .blocked (by decide) (hbytes 2 ht) (isLayout_q40 fl) rfl
  case h_5 ht => exact .blocked (by decide) (hbytes 3 ht) (isLayout_q41 fl) rfl
  case h_6 ht => exact .blocked (by decide) (hbytes 6 ht) (isLayout_q50 fl) rfl
  case h_7 ht => exact .blocked (by decide) (hbytes 7 ht) (isLayout_q51 fl) rfl
  case h_8 ht => exact .blocked (by decide) (hbytes 8 ht) (isLayout_q80 fl) rfl
  case h_9 ht => exact .blocked (by decide) (hbytes 9 ht) (isLayout_q81 fl) rfl
  case h_10 ht => exact .blocked (by decide) (hbytes 10 ht) (isLayout_q2K fl) rfl
  case h_11 ht => exact .blocked (by decide) (hbytes 11 ht) (isLayout_q3K fl) rfl
  case h_12 ht => exact .blocked (by decide) (hbytes 12 ht) (isLayout_q4K fl) rfl
  case h_13 ht => exact .blocked (by decide) (hbytes 13 ht) (isLayout_q5K fl) rfl
  case h_14 ht => exact .blocked (by decide) (hbytes 14 ht) (isLayout_q6K fl) rfl
  case h_15 ht => exact .blocked (by decide) (hbytes 15 ht) (isLayout_q8K fl) rfl

/-- Below `2 ^ 62` elements the sizes do not wrap, and the run keeps to them. -/
lemma DequantKind.sweeps {type : UInt32} {numel : UInt64} {src : ℕ} {run : Dequant F Unit}
    (h : DequantKind fl type numel src run) (hsmall : numel.toNat < 0x4000000000000000)
    (hbytes : paiGgufTypeBytes type numel ≠ 0) :
    run.Sweeps (LoadsIn src (paiGgufTypeBytes type numel).toNat) (cells .dst 0 numel.toNat)
      fun _ => True := by
  cases h with
  | plain width convert small bytes elem run_eq =>
    have hsize : (paiGgufTypeBytes type numel).toNat = numel.toNat * width := by
      rw [bytes, UInt64.toNat_mul, UInt64.toNat_ofNat', Nat.mod_eq_of_lt (by omega : width < 2 ^ 64)]
      exact Nat.mod_eq_of_lt (by nlinarith)
    rw [hsize, run_eq, ← List.append_nil (cells _ _ _)]
    exact (sweeps_floatLoop fun q h h' => elem h h').bind fun _ _ => sweeps_pure trivial
  | @blocked len per layout sizes bytes block run_eq =>
    obtain ⟨-, hper, hshort⟩ := sizes
    have hlen : (UInt64.ofNat len).toNat = len := by
      rw [UInt64.toNat_ofNat']
      exact Nat.mod_eq_of_lt (by omega)
    have hmod : numel % UInt64.ofNat len = 0 := by
      by_contra hne
      rw [bytes, blockedBytes, if_neg hne] at hbytes
      exact hbytes rfl
    have hdvd : numel.toNat / len * len = numel.toNat := by
      refine Nat.div_mul_cancel (Nat.dvd_of_mod_eq_zero ?_)
      have hnat := congrArg UInt64.toNat hmod
      rwa [UInt64.toNat_mod, hlen] at hnat
    have hsize : (paiGgufTypeBytes type numel).toNat = numel.toNat / len * per := by
      rw [bytes, blockedBytes, if_pos hmod, UInt64.toNat_mul, UInt64.toNat_div, hlen, UInt64.toNat_ofNat',
        Nat.mod_eq_of_lt (by omega : per < 2 ^ 64)]
      refine Nat.mod_eq_of_lt ?_
      calc numel.toNat / len * per ≤ numel.toNat / len * (2 * len) := Nat.mul_le_mul_left _ hper
        _ = 2 * (numel.toNat / len * len) := by ring
        _ < 2 ^ 64 := by rw [hdvd]; omega
    have hrun := sweeps_blockLoop block (numel.toNat / len) src 0
    rwa [← hsize, hdvd, ← run_eq] at hrun

end Tensors

/-- The number of elements of a tensor. -/
def GgufTensor.numel (t : GgufTensor) : ℕ := (t.dims.map UInt64.toNat).prod

/-- The loop of `pai_gguf_tensor_numel` multiplies modulo `2 ^ 64`. -/
lemma toNat_foldl_mul_mod (dims : List UInt64) (n : UInt64) :
    (dims.foldl (· * ·) n).toNat = n.toNat * (dims.map UInt64.toNat).prod % 2 ^ 64 := by
  induction dims generalizing n with
  | nil =>
    rw [List.foldl_nil, List.map_nil, List.prod_nil, Nat.mul_one]
    exact (Nat.mod_eq_of_lt n.toNat_lt).symm
  | cons d dims ih =>
    rw [List.foldl_cons, ih, UInt64.toNat_mul, Nat.mod_mul_mod, List.map_cons, List.prod_cons,
      Nat.mul_assoc]

lemma toNat_paiGgufTensorNumel {t : GgufTensor} (h : paiGgufTensorNumel t ≠ 0) :
    (paiGgufTensorNumel t).toNat = t.numel % 2 ^ 64 := by
  unfold paiGgufTensorNumel at h ⊢
  split_ifs at h ⊢ with hdims
  · exact absurd rfl h
  · rw [toNat_foldl_mul_mod]
    simp only [GgufTensor.numel, UInt64.toNat_one, Nat.one_mul]

/-- What is claimed of `pai_gguf_dequant` on a tensor of the file `data`: the size it returns is that of
the tensor, it loads only the bytes of the tensor, which are in the file, and it stores every float of its
allocation once and nothing else. -/
structure DequantSound {F : Type} (data : List UInt8) (f : GgufFile) (t : GgufTensor) (r : Dequantized F) :
    Prop where
  /-- `out_n` is the exact product of the extents. -/
  outN : r.outN.toNat = t.numel
  /-- The bytes of the tensor lie inside the file. -/
  inside : f.dataStart + t.offset.toNat + (paiGgufTypeBytes t.type r.outN).toNat ≤ data.length
  /-- Only they are loaded. -/
  loads : ∀ acc ∈ r.accesses, acc.isStore = false →
    LoadsIn (f.dataStart + t.offset.toNat) (paiGgufTypeBytes t.type r.outN).toNat acc
  /-- Every float is stored once. -/
  stores : (r.accesses.filter Access.isStore).Perm (cells .dst 0 r.outN.toNat)
  /-- The floats lie inside the allocation. -/
  allocated : 4 * r.outN.toNat ≤ r.allocated

/-- What `pai_gguf_dequant` has tested when it succeeds. -/
lemma paiGgufDequant_eq_ok {F : Type} {fl : FloatOps F} {malloc : ℕ → Bool} {garbage : ℕ → F}
    {f : GgufFile} {t : GgufTensor} {r : Dequantized F}
    (h : paiGgufDequant fl malloc garbage f t = .ok r) :
    ∃ run memory, paiGgufTensorNumel t ≠ 0 ∧ paiGgufTypeBytes t.type (paiGgufTensorNumel t) ≠ 0 ∧
      f.dataStart + t.offset.toNat + (paiGgufTypeBytes t.type (paiGgufTensorNumel t)).toNat ≤
        f.data.length ∧
      dequantBlock fl t.type (f.dataStart + t.offset.toNat) 0 (paiGgufTensorNumel t).toNat = some run ∧
      r.outN = paiGgufTensorNumel t ∧
      r.allocated = (paiGgufTensorNumel t).toNat * 4 % 0x10000000000000000 ∧
      r.accesses = (run memory).2.2 := by
  unfold paiGgufDequant at h
  simp only at h
  split_ifs at h with hnumel hbytes hregion hmalloc
  split at h
  · cases h
  · next run hrun =>
    cases h
    have hpos : 0 < (paiGgufTypeBytes t.type (paiGgufTensorNumel t)).toNat :=
      Nat.pos_of_ne_zero fun h0 => hbytes (UInt64.toNat_inj.mp h0)
    exact ⟨run, _, hnumel, hbytes, by omega, hrun, rfl, rfl, rfl⟩

/-- `pai_gguf_dequant` succeeds when all its tests do. -/
lemma exists_paiGgufDequant {F : Type} (fl : FloatOps F) {malloc : ℕ → Bool} (garbage : ℕ → F)
    {f : GgufFile} {t : GgufTensor} (hnumel : paiGgufTensorNumel t ≠ 0)
    (hbytes : paiGgufTypeBytes t.type (paiGgufTensorNumel t) ≠ 0)
    (hinside : ¬ (f.data.length - f.dataStart < t.offset.toNat ∨
      f.data.length - f.dataStart - t.offset.toNat <
        (paiGgufTypeBytes t.type (paiGgufTensorNumel t)).toNat))
    (hmalloc : ∀ n, malloc n = true) (htype : t.type = 0) :
    ∃ r, paiGgufDequant fl malloc garbage f t = .ok r := by
  have hrun : ∃ run, dequantBlock fl t.type (f.dataStart + t.offset.toNat) 0
      (paiGgufTensorNumel t).toNat = some run := by
    rw [htype]
    exact ⟨_, rfl⟩
  obtain ⟨run, hrun⟩ := hrun
  unfold paiGgufDequant
  simp only [if_neg hnumel, if_neg hbytes, if_neg hinside, hmalloc, hrun, Bool.true_eq_false, if_false]
  exact ⟨_, rfl⟩

/-- Dequantization is sound for exactly the tensors with fewer than `2 ^ 62` elements. -/
theorem ggufDequant_iff {F : Type} (fl : FloatOps F) (calloc malloc : ℕ → Bool) (garbage : ℕ → F)
    (fuel : ℕ) (local64 : UInt64) (data : List UInt8) (hfuel : data.length < fuel) (f : GgufFile)
    (hopen : paiGgufOpen calloc fuel local64 data = .ok f) :
    ∀ t ∈ f.tensors, ∀ r, paiGgufDequant fl malloc garbage f t = .ok r →
      (DequantSound data f t r ↔ t.numel < 0x4000000000000000) := by
  intro t _ r hr
  have hdata : f.data = data := ((returns_paiGgufOpen calloc local64 hfuel).of_ok hopen).1
  subst hdata
  obtain ⟨run, memory, hnumel, hbytes, hinside, hrun, hout, halloc, hacc⟩ := paiGgufDequant_eq_ok hr
  have hexact := toNat_paiGgufTensorNumel hnumel
  constructor
  · intro hsound
    have hout' := hsound.outN
    have hfits := hsound.allocated
    rw [halloc, hout] at hfits
    rw [hout] at hout'
    by_contra hlarge
    omega
  · intro hsmall
    have hnat : (paiGgufTensorNumel t).toNat = t.numel := by
      rw [hexact]
      exact Nat.mod_eq_of_lt (by omega)
    obtain ⟨-, hstores, hloads⟩ := (dequantKind hrun).sweeps (by omega) hbytes memory
    rw [← hacc, ← hout] at hloads hstores
    refine ⟨by rw [hout, hnat], ?_, hloads, hstores, ?_⟩
    · rwa [hout]
    · rw [halloc, hout]
      omega

/-- Floats as their bits.  Of the operations, tensors of type F32 use only `ofBits`. -/
def bitFloats : FloatOps UInt32 where
  ofBits := id
  ofInt n := UInt32.ofInt n
  mul := (· * ·)
  add := (· + ·)
  sub := (· - ·)

/-- A file with one tensor, `t` of type F32, and four bytes of data. -/
def oneTensorFile (dims : List UInt64) : List UInt8 :=
  u32le paiGgufMagic ++ u32le 3 ++ u64le 1 ++ u64le 0 ++ (u64le 1 ++ [116]) ++
    u32le (UInt32.ofNat dims.length) ++ dims.flatMap u64le ++ u32le 0 ++ u64le 0 ++
    List.replicate (51 - 8 * dims.length) 0

/-- What `pai_gguf_open` makes of it. -/
def oneTensorOpened (dims : List UInt64) : GgufFile :=
  ⟨oneTensorFile dims, 3, [⟨[116], dims, 0, 0⟩], 0, 32, (80 + 8 * dims.length) / 32 * 32⟩

/-- A tensor of one float. -/
theorem ggufDequant_iff_single :
    ∃ r, paiGgufDequant bitFloats (fun _ => true) (fun _ => 0) (oneTensorOpened [1])
        ⟨[116], [1], 0, 0⟩ = .ok r ∧
      DequantSound (oneTensorFile [1]) (oneTensorOpened [1]) ⟨[116], [1], 0, 0⟩ r := by
  obtain ⟨r, hr⟩ := exists_paiGgufDequant bitFloats (fun _ => 0)
    (f := oneTensorOpened [1]) (t := ⟨[116], [1], 0, 0⟩) (by decide +kernel) (by decide +kernel)
    (by decide +kernel) (fun _ => rfl) rfl
  refine ⟨r, hr, ?_⟩
  exact (ggufDequant_iff bitFloats (fun _ => true) (fun _ => true) (fun _ => 0) 101 0 (oneTensorFile [1])
    (by decide +kernel) (oneTensorOpened [1]) (by decide +kernel) _ (by decide +kernel) r hr).mpr
    (by decide +kernel)

/-- Four extents below the bound whose product is `2 ^ 62 + 1`.  The tensor seems to have four bytes and
gets an allocation of four. -/
def wrappingDims : List UInt64 := [27905, 8681, 49477, 384773]

/-- The destination of `wrappingDims` has room for one float. -/
theorem ggufDequant_fails :
    paiGgufOpen (fun _ => true) 101 0 (oneTensorFile wrappingDims) = .ok (oneTensorOpened wrappingDims) ∧
      ∃ r, paiGgufDequant bitFloats (fun _ => true) (fun _ => 0) (oneTensorOpened wrappingDims)
          ⟨[116], wrappingDims, 0, 0⟩ = .ok r ∧
        ¬ DequantSound (oneTensorFile wrappingDims) (oneTensorOpened wrappingDims)
          ⟨[116], wrappingDims, 0, 0⟩ r := by
  obtain ⟨r, hr⟩ := exists_paiGgufDequant bitFloats (fun _ => 0)
    (f := oneTensorOpened wrappingDims) (t := ⟨[116], wrappingDims, 0, 0⟩) (by decide +kernel)
    (by decide +kernel) (by decide +kernel) (fun _ => rfl) rfl
  refine ⟨by decide +kernel, r, hr, fun h => ?_⟩
  obtain ⟨-, -, -, -, -, -, hout, halloc, -⟩ := paiGgufDequant_eq_ok hr
  have hsize := h.allocated
  rw [hout, halloc] at hsize
  exact absurd hsize (by decide +kernel)

end Prospero
