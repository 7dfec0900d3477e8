import Prospero.Lib.Binary64
import Prospero.Lib.XorShift

/-!
# The generator of the sampler

`pai_sampler_init`, `pai_sampler_next_u64` and `pai_sampler_next_double`: a xorshift64* generator whose state
is the field `seed`.

### Outline

* `xorshift`, the update of the state, is a composition of three xor-shifts, so it is a bijection that leaves
  only zero at zero;
* a run of draws iterates it (`seed_drawAll`), whichever of the two functions draws;
* `paiSamplerNextDouble` scales the upper 53 bits of the output, without rounding.
-/

namespace Prospero

open Binary64

/-- `pai_sampler_t`.  `K` is the type of its `float` fields. -/
structure PaiSampler (K : Type*) where
  /-- State of the generator. -/
  seed : UInt64
  /-- `0` picks the largest. -/
  temperature : K
  /-- `0` is disabled; else the number of candidates to keep. -/
  topK : UInt32
  /-- `1` is disabled; else the mass to keep. -/
  topP : K

section Definitions

variable {K : Type*}

/-- `pai_sampler_init`. -/
def paiSamplerInit [Zero K] [One K] (seed : UInt64) : PaiSampler K where
  seed := if seed ≠ 0 then seed else 0x9E3779B97F4A7C15
  temperature := 0
  topK := 0
  topP := 1

/-- The three updates of `x` in `pai_sampler_next_u64`. -/
def xorshift (x : UInt64) : UInt64 :=
  let x := x ^^^ (x >>> 12)
  let x := x ^^^ (x <<< 25)
  x ^^^ (x >>> 27)

/-- `pai_sampler_next_u64`. -/
def paiSamplerNextU64 (sampler : PaiSampler K) : UInt64 × PaiSampler K :=
  let x := xorshift sampler.seed
  (x * 0x2545F4914F6CDD1D, { sampler with seed := x })

/-- `pai_sampler_next_double`. -/
def paiSamplerNextDouble (sampler : PaiSampler K) : Float × PaiSampler K :=
  let (next, sampler) := paiSamplerNextU64 sampler
  ((next >>> 11).toFloat * (1.0 / 9007199254740992.0), sampler)

/-- The functions that draw. -/
inductive SamplerDraw where
  /-- `pai_sampler_next_u64`. -/
  | u64
  /-- `pai_sampler_next_double`. -/
  | double

/-- The sampler behind a draw. -/
def SamplerDraw.run (sampler : PaiSampler K) : SamplerDraw → PaiSampler K
  | .u64 => (paiSamplerNextU64 sampler).2
  | .double => (paiSamplerNextDouble sampler).2

/-- The sampler behind some draws. -/
def PaiSampler.drawAll (sampler : PaiSampler K) (draws : List SamplerDraw) : PaiSampler K :=
  draws.foldl SamplerDraw.run sampler

end Definitions

/-! ## The state -/

/-- The update of the state is three xor-shifts of its bits. -/
lemma toBitVec_xorshift (x : UInt64) :
    (xorshift x).toBitVec = XorShift.right 27 (XorShift.left 25 (XorShift.right 12 x.toBitVec)) := rfl

lemma xorshift_injective : Function.Injective xorshift := by
  intro x y h
  have hbits := congrArg UInt64.toBitVec h
  rw [toBitVec_xorshift, toBitVec_xorshift] at hbits
  have hright := XorShift.right_injective (by decide : 0 < 27) hbits
  have hleft := XorShift.left_injective (by decide : 0 < 25) hright
  exact UInt64.toBitVec_inj.mp (XorShift.right_injective (by decide : 0 < 12) hleft)

/-- An injective map of the states, of which there are finitely many, is a bijection. -/
lemma xorshift_bijective : Function.Bijective xorshift :=
  have : Finite UInt64 := Finite.of_injective UInt64.toFin fun _ _ => UInt64.toFin_inj.mp
  Finite.injective_iff_bijective.mp xorshift_injective

lemma xorshift_eq_zero_iff {x : UInt64} : xorshift x = 0 ↔ x = 0 :=
  xorshift_injective.eq_iff' (by decide)

section Draws

variable {K : Type*}

/-- Both functions leave the updated state. -/
lemma seed_run (sampler : PaiSampler K) (draw : SamplerDraw) :
    (draw.run sampler).seed = xorshift sampler.seed := by
  cases draw
  · rfl
  · rfl

/-- Draws iterate the update. -/
lemma seed_drawAll (sampler : PaiSampler K) (draws : List SamplerDraw) :
    (sampler.drawAll draws).seed = xorshift^[draws.length] sampler.seed := by
  induction draws generalizing sampler with
  | nil => rfl
  | cons draw draws ih =>
    change ((draw.run sampler).drawAll draws).seed = _
    rw [ih, seed_run, List.length_cons, Function.iterate_succ_apply]

lemma seed_drawAll_eq_iff {s t : PaiSampler K} {ds es : List SamplerDraw} (h : ds.length = es.length) :
    (s.drawAll ds).seed = (t.drawAll es).seed ↔ s.seed = t.seed := by
  rw [seed_drawAll, seed_drawAll, h]
  exact (xorshift_injective.iterate es.length).eq_iff

/-- Zero is reached from zero only. -/
lemma seed_drawAll_ne_zero {sampler : PaiSampler K} (h : sampler.seed ≠ 0) (draws : List SamplerDraw) :
    (sampler.drawAll draws).seed ≠ 0 := by
  have hfix : xorshift^[draws.length] 0 = 0 := Function.iterate_fixed (by decide) _
  rw [seed_drawAll]
  exact fun hzero => h (xorshift_injective.iterate _ (hzero.trans hfix.symm))

lemma seed_init_ne_zero [Zero K] [One K] (seed : UInt64) : (paiSamplerInit seed : PaiSampler K).seed ≠ 0 := by
  unfold paiSamplerInit
  dsimp only
  split_ifs with h
  · exact h
  · decide

/-! ## The doubles -/

lemma is_scale : Is (1.0 / 9007199254740992.0) (2 ^ (-53 : ℤ)) :=
  @is_of_unpack _ (2 ^ 52) (-105) (by norm_num) _ rfl (by norm_num)

/-- An integer below `2 ^ 53` is scaled without rounding. -/
lemma is_scaled {x : Float} {m : ℕ} (hx : Is x m) (hm : m < 2 ^ 53) :
    Is (x * (1.0 / 9007199254740992.0)) (m / 9007199254740992) := by
  have hvalue : (m : ℚ) * (2 : ℚ) ^ (-53 : ℤ) = m / 9007199254740992 := by
    rw [div_eq_mul_inv]
    norm_num
  have hexact : rnd ((m : ℚ) * (2 : ℚ) ^ (-53 : ℤ)) = m / 9007199254740992 := by
    rw [rnd_of_representable ⟨m, -53, hm, by norm_num, rfl⟩, hvalue]
  have hlt : (m : ℚ) / 9007199254740992 < 2 ^ 1024 := by
    have hcast : (m : ℚ) < 2 ^ 53 := by exact_mod_cast hm
    have hpow : (1 : ℚ) < 2 ^ 1024 := one_lt_pow₀ one_lt_two (by norm_num)
    refine lt_trans ((div_lt_one (by norm_num)).mpr ?_) hpow
    linarith
  rw [← hexact] at hlt ⊢
  exact hx.mul is_scale hlt

/-- The upper 53 bits of the output, as a number. -/
lemma toNat_upper_lt (next : UInt64) : (next >>> 11).toNat < 2 ^ 53 := by
  rw [UInt64.toNat_shiftRight, Nat.shiftRight_eq_div_pow]
  have hnext := next.toNat_lt
  change _ / 2 ^ 11 < _
  omega

/-- The upper 53 bits of the output are scaled. -/
lemma is_paiSamplerNextDouble (sampler : PaiSampler K) :
    Is (paiSamplerNextDouble sampler).1
      (((paiSamplerNextU64 sampler).1 >>> 11).toNat / 9007199254740992) :=
  is_scaled (is_toFloat (toNat_upper_lt _)) (toNat_upper_lt _)

end Draws

/-- The generator does not degenerate.  Its update is a bijection of the states that leaves only zero at zero,
so the state stays nonzero from `pai_sampler_init` on, samplers with different states stay apart, and the
doubles are multiples of `2 ^ -53` in `[0, 1)`. -/
theorem paiSampler_nondegenerate (K : Type*) [Zero K] [One K] :
    (∀ sampler : PaiSampler K,
      Function.Bijective (fun seed => (paiSamplerNextU64 { sampler with seed }).2.seed) ∧
      ((paiSamplerNextU64 sampler).2.seed = 0 ↔ sampler.seed = 0)) ∧
    (∀ seed draws, ((paiSamplerInit seed : PaiSampler K).drawAll draws).seed ≠ 0) ∧
    (∀ (s t : PaiSampler K) (ds es : List SamplerDraw), ds.length = es.length → s.seed ≠ t.seed →
      (s.drawAll ds).seed ≠ (t.drawAll es).seed) ∧
    ∀ sampler : PaiSampler K, ∃ m : ℕ, m < 9007199254740992 ∧
      Is (paiSamplerNextDouble sampler).1 (m / 9007199254740992) := by
  refine ⟨fun sampler => ⟨xorshift_bijective, xorshift_eq_zero_iff⟩, fun seed draws => ?_, ?_, ?_⟩
  · exact seed_drawAll_ne_zero (seed_init_ne_zero seed) draws
  · exact fun s t ds es hlen hne heq => hne ((seed_drawAll_eq_iff hlen).mp heq)
  · exact fun sampler => ⟨_, toNat_upper_lt _, is_paiSamplerNextDouble sampler⟩

/-- A draw from the seeds one and two. -/
theorem paiSampler_nondegenerate_two :
    ((paiSamplerInit 1 : PaiSampler ℚ).drawAll [.u64]).seed ≠
      ((paiSamplerInit 2 : PaiSampler ℚ).drawAll [.double]).seed :=
  (paiSampler_nondegenerate ℚ).2.2.1 _ _ [.u64] [.double] rfl (by decide)

end Prospero
