import Mathlib.Data.Nat.ModEq
import Mathlib.Tactic.Linarith
import Prospero.Lib.Lz

/-!
# Copying a match

`kk_copy_match` of `compression/kraken_decode.c`.  From a distance of eight on it copies words of eight bytes.
Below, it copies one period and then doubles what is written; the last step is cut to what is missing, and
takes the bytes just before its destination.  These are in phase only when the missing part is a multiple of
the distance, so that the copy is the byte-by-byte one exactly under the condition of
`kkCopyMatch_eq_copy_iff`.

### Outline

* `matchWords_spec` and `matchBytes_spec`: the loops of the first path continue the byte-by-byte copy.
* `kkDouble_spec`: each full step of the second path goes back a multiple of the distance
  (`Lz.blit_copy_of_dvd`), until the last one, which `Lz.blit_copy_eq_iff` compares with the copy.
-/

namespace Prospero

/-! ## The function -/

/-- `while (i < n) { dst[i] = match[i]; i++; }`. -/
def matchBytes (mem : ℕ → UInt8) (dst src n i : ℕ) : ℕ → UInt8 :=
  if i < n then matchBytes (Function.update mem (dst + i) (mem (src + i))) dst src n (i + 1) else mem
termination_by n - i

/-- The loop over words of eight bytes; each is read before it is written. -/
def matchWords (mem : ℕ → UInt8) (dst src n i : ℕ) : (ℕ → UInt8) × ℕ :=
  if i + 8 ≤ n then matchWords (Lz.blit mem (dst + i) (src + i) 8) dst src n (i + 8) else (mem, i)
termination_by n - i

/-- The loop that doubles the written region; `memcpy` copies between disjoint areas.  A step of no bytes
would go on forever and does not occur, since the region starts with a whole period. -/
def kkDouble (mem : ℕ → UInt8) (dst n i : ℕ) : ℕ → UInt8 :=
  if _h : i < n ∧ 0 < i then
    let step := if n - i < i then n - i else i
    kkDouble (Lz.blit mem (dst + i) (dst + i - step) step) dst n (i + step)
  else mem
termination_by n - i
decreasing_by
  split <;> omega

/-- `kk_copy_match`. -/
def kkCopyMatch (mem : ℕ → UInt8) (dst src n : ℕ) : ℕ → UInt8 :=
  let dist := dst - src
  if 8 ≤ dist then
    let r := matchWords mem dst src n 0
    matchBytes r.1 dst src n r.2
  else
    kkDouble (matchBytes mem dst src (min dist n) 0) dst n (min dist n)

/-! ## The first path -/

/-- The byte loop continues the copy. -/
lemma matchBytes_spec {mem : ℕ → UInt8} {dst dist : ℕ} (hle : dist ≤ dst) {n i : ℕ} (hi : i ≤ n) :
    matchBytes (Lz.copy mem dst dist i) dst (dst - dist) n i = Lz.copy mem dst dist n := by
  induction hk : n - i generalizing i with
  | zero =>
    obtain rfl : i = n := by omega
    rw [matchBytes, if_neg (lt_irrefl i)]
  | succ k ih =>
    rw [matchBytes, if_pos (by omega), show dst - dist + i = dst + i - dist by omega]
    exact ih (i := i + 1) (by omega) (by omega)

/-- The word loop continues the copy: within a distance of eight no word reads what it writes. -/
lemma matchWords_spec {mem : ℕ → UInt8} {dst dist : ℕ} (hdist : 8 ≤ dist) (hle : dist ≤ dst) {n i : ℕ}
    (hi : i ≤ n) :
    ∃ j ≤ n, matchWords (Lz.copy mem dst dist i) dst (dst - dist) n i = (Lz.copy mem dst dist j, j) := by
  induction hk : n - i using Nat.strong_induction_on generalizing i with
  | _ k ih =>
    rw [matchWords]
    by_cases hfit : i + 8 ≤ n
    · have hword : Lz.blit (Lz.copy mem dst dist i) (dst + i) (dst - dist + i) 8 =
          Lz.copy mem dst dist (i + 8) := by
        rw [Lz.copy_add, Lz.copy_eq_blit (by omega) hdist, show dst - dist + i = dst + i - dist by omega]
      rw [if_pos hfit, hword]
      exact ih (n - (i + 8)) (by omega) hfit rfl
    · rw [if_neg hfit]
      exact ⟨i, hi, rfl⟩

/-! ## The second path -/

/-- The bytes that the last, partial step writes: what `n` exceeds the largest doubled period below it by. -/
def lastStep (dist n : ℕ) : ℕ := n - dist * 2 ^ Nat.log2 ((n - 1) / dist)

/-- The doubling loop from `dist * 2 ^ k` on: full steps up to the largest doubled period below `n`, and
the last step. -/
lemma kkDouble_spec {mem : ℕ → UInt8} {dst dist n : ℕ} (hpos : 0 < dist) (hle : dist ≤ dst) (m k : ℕ)
    (hbelow : dist * 2 ^ (k + m) < n) (habove : n ≤ dist * 2 ^ (k + m + 1)) :
    kkDouble (Lz.copy mem dst dist (dist * 2 ^ k)) dst n (dist * 2 ^ k) =
      Lz.blit (Lz.copy mem dst dist (dist * 2 ^ (k + m))) (dst + dist * 2 ^ (k + m))
        (dst + dist * 2 ^ (k + m) - (n - dist * 2 ^ (k + m))) (n - dist * 2 ^ (k + m)) := by
  have hpow : ∀ j, dist * 2 ^ (j + 1) = dist * 2 ^ j + dist * 2 ^ j := fun j => by
    rw [Nat.pow_succ, ← Nat.mul_assoc]
    omega
  have hstart : ∀ j, 0 < dist * 2 ^ j := fun j => Nat.mul_pos hpos (Nat.two_pow_pos j)
  induction m generalizing k with
  | zero =>
    rw [Nat.add_zero] at hbelow habove ⊢
    have hdouble := hpow k
    have hstep : (if n - dist * 2 ^ k < dist * 2 ^ k then n - dist * 2 ^ k else dist * 2 ^ k) =
        n - dist * 2 ^ k := by
      split_ifs <;> omega
    rw [kkDouble, dif_pos ⟨hbelow, hstart k⟩]
    simp only [hstep]
    rw [show dist * 2 ^ k + (n - dist * 2 ^ k) = n by omega, kkDouble, dif_neg (by omega)]
  | succ m ih =>
    have hdouble := hpow k
    have hmono : dist * 2 ^ (k + 1) ≤ dist * 2 ^ (k + (m + 1)) :=
      Nat.mul_le_mul_left _ (Nat.pow_le_pow_right (by omega) (by omega))
    have hfull : ¬ n - dist * 2 ^ k < dist * 2 ^ k := by omega
    have hcopy : Lz.blit (Lz.copy mem dst dist (dist * 2 ^ k)) (dst + dist * 2 ^ k)
        (dst + dist * 2 ^ k - dist * 2 ^ k) (dist * 2 ^ k) =
        Lz.copy mem dst dist (dist * 2 ^ (k + 1)) := by
      rw [Lz.blit_copy_of_dvd hpos hle le_rfl le_rfl (Nat.dvd_mul_right dist _), hdouble]
    have hlt : dist * 2 ^ k < n := by omega
    rw [kkDouble, dif_pos ⟨hlt, hstart k⟩]
    simp only [if_neg hfull, hcopy]
    rw [← hdouble, ih (k + 1) (by rw [Nat.add_right_comm]; exact hbelow)
      (by rw [Nat.add_right_comm k 1 m]; exact habove), Nat.add_right_comm k 1 m]
    rfl

/-- The largest doubled period below `n`. -/
lemma log2_period {dist n : ℕ} (hpos : 0 < dist) (hn : dist < n) :
    dist * 2 ^ Nat.log2 ((n - 1) / dist) < n ∧
      n ≤ dist * 2 ^ (Nat.log2 ((n - 1) / dist) + 1) := by
  have hq : (n - 1) / dist ≠ 0 := by
    have hone : 1 ≤ (n - 1) / dist := (Nat.le_div_iff_mul_le hpos).mpr (by omega)
    omega
  constructor
  · have hle := (Nat.le_div_iff_mul_le hpos).mp (Nat.log2_self_le hq)
    rw [Nat.mul_comm] at hle
    omega
  · have hlt := (Nat.div_lt_iff_lt_mul hpos).mp (@Nat.lt_log2_self ((n - 1) / dist))
    rw [Nat.mul_comm] at hlt
    omega

/-- The second path: a copy of whole periods, and the last step. -/
lemma kkCopyMatch_of_lt {mem : ℕ → UInt8} {dst dist n : ℕ} (hpos : 0 < dist) (hsmall : dist < 8)
    (hle : dist ≤ dst) (hn : dist < n) :
    kkCopyMatch mem dst (dst - dist) n =
      Lz.blit (Lz.copy mem dst dist (n - lastStep dist n)) (dst + (n - lastStep dist n))
        (dst + (n - lastStep dist n) - lastStep dist n) (lastStep dist n) := by
  obtain ⟨hbelow, habove⟩ := log2_period hpos hn
  have hwhole : n - lastStep dist n = dist * 2 ^ Nat.log2 ((n - 1) / dist) := by
    unfold lastStep
    omega
  have hfirst := @matchBytes_spec mem dst dist hle dist 0 (Nat.zero_le _)
  have hdouble := @kkDouble_spec mem dst dist n hpos hle (Nat.log2 ((n - 1) / dist)) 0
    (by rw [Nat.zero_add]; exact hbelow) (by rw [Nat.zero_add]; exact habove)
  rw [Nat.zero_add, Nat.pow_zero, Nat.mul_one] at hdouble
  rw [Lz.copy_zero] at hfirst
  unfold kkCopyMatch
  simp only [Nat.sub_sub_self hle, if_neg (not_le.mpr hsmall), Nat.min_eq_left hn.le, hfirst]
  rw [hdouble, hwhole]
  rfl

/-! ## The copy -/

/-- Up to the distance, and from a distance of eight on, the match is copied byte by byte. -/
lemma kkCopyMatch_of_le {mem : ℕ → UInt8} {dst dist n : ℕ} (hle : dist ≤ dst)
    (h : 8 ≤ dist ∨ n ≤ dist) : kkCopyMatch mem dst (dst - dist) n = Lz.copy mem dst dist n := by
  unfold kkCopyMatch
  simp only [Nat.sub_sub_self hle]
  by_cases hdist : 8 ≤ dist
  · obtain ⟨j, hj, hwords⟩ := @matchWords_spec mem dst dist hdist hle n 0 (Nat.zero_le _)
    rw [Lz.copy_zero] at hwords
    rw [if_pos hdist, hwords]
    exact matchBytes_spec hle hj
  · have hn : n ≤ dist := h.resolve_left hdist
    have hbytes := @matchBytes_spec mem dst dist hle n 0 (Nat.zero_le _)
    rw [Lz.copy_zero] at hbytes
    rw [if_neg hdist, Nat.min_eq_right hn, hbytes, kkDouble, dif_neg (by omega)]

/-- Going back by the last step is going back by `n`, up to whole periods. -/
lemma lastStep_mod {dist n : ℕ} (hpos : 0 < dist) (hn : dist < n) (j : ℕ) :
    (n - lastStep dist n + j - lastStep dist n) % dist = (j + (dist - n % dist)) % dist := by
  obtain ⟨hbelow, habove⟩ := log2_period hpos hn
  rw [Nat.pow_succ, ← Nat.mul_assoc] at habove
  unfold lastStep
  set whole := dist * 2 ^ Nat.log2 ((n - 1) / dist) with hwhole
  have hdvd : whole ≡ 0 [MOD dist] := Nat.modEq_zero_iff_dvd.mpr (Nat.dvd_mul_right dist _)
  have hmod : n % dist < dist := Nat.mod_lt n hpos
  -- both sides plus `n`
  have hleft : n - (n - whole) + j - (n - whole) + n ≡ j [MOD dist] := by
    rw [show n - (n - whole) + j - (n - whole) + n = j + whole + whole by omega]
    calc j + whole + whole ≡ j + 0 + 0 [MOD dist] :=
          (Nat.ModEq.add_left j hdvd).add hdvd
      _ = j := rfl
  have hright : j + (dist - n % dist) + n ≡ j [MOD dist] := by
    calc j + (dist - n % dist) + n ≡ j + (dist - n % dist) + n % dist [MOD dist] :=
          Nat.ModEq.add_left _ (Nat.mod_modEq n dist).symm
      _ = j + dist := by omega
      _ ≡ j [MOD dist] := Nat.add_mod_right j dist
  exact Nat.ModEq.add_right_cancel' n (hleft.trans hright.symm)

/-- The match is copied byte by byte exactly when the distance is at least eight, or the last step finds
the bytes of the right phase: the pattern, the `dist` bytes before `dst`, is the same `n % dist` places
before, as far as the last step goes. -/
theorem kkCopyMatch_eq_copy_iff (mem : ℕ → UInt8) {dst dist : ℕ} (hpos : 0 < dist) (hle : dist ≤ dst)
    (n : ℕ) :
    kkCopyMatch mem dst (dst - dist) n = Lz.copy mem dst dist n ↔
      8 ≤ dist ∨ ∀ j < lastStep dist n,
        mem (dst - dist + (j + (dist - n % dist)) % dist) = mem (dst - dist + j % dist) := by
  by_cases heasy : 8 ≤ dist ∨ n ≤ dist
  · refine iff_of_true (kkCopyMatch_of_le hle heasy) ?_
    rcases heasy with hdist | hn
    · exact Or.inl hdist
    · refine Or.inr fun j hj => ?_
      have hzero : (n - 1) / dist = 0 := Nat.div_eq_of_lt (by omega)
      rw [lastStep, hzero, Nat.log2_zero, Nat.pow_zero, Nat.mul_one] at hj
      omega
  · rw [not_or, not_le, not_le] at heasy
    obtain ⟨hsmall, hn⟩ := heasy
    obtain ⟨hbelow, habove⟩ := log2_period hpos hn
    rw [Nat.pow_succ, ← Nat.mul_assoc] at habove
    have hlast : lastStep dist n ≤ n - lastStep dist n := by
      unfold lastStep
      omega
    have hsum : n - lastStep dist n + lastStep dist n = n := by omega
    have hiff := @Lz.blit_copy_eq_iff _ mem dst dist hpos hle _ _ _ hlast le_rfl
    rw [hsum] at hiff
    rw [kkCopyMatch_of_lt hpos hsmall hle hn, hiff, or_iff_right (not_le.mpr hsmall)]
    refine forall_congr' fun j => forall_congr' fun _ => ?_
    have hphase : (n - lastStep dist n + j) % dist = j % dist := by
      have hwhole : n - lastStep dist n = dist * 2 ^ Nat.log2 ((n - 1) / dist) := by
        unfold lastStep
        omega
      rw [hwhole, Nat.mul_add_mod]
    rw [lastStep_mod hpos hn, hphase]

/-- Two periods of three bytes. -/
theorem wholePeriods_copied :
    (0 < 3 ∧ 3 ≤ 3) ∧ kkCopyMatch (fun a => UInt8.ofNat a) 3 (3 - 3) 6 =
      Lz.copy (fun a => UInt8.ofNat a) 3 3 6 :=
  ⟨by decide, (kkCopyMatch_eq_copy_iff _ (by decide) (by decide) 6).mpr (Or.inr (by decide +kernel))⟩

/-- Three bytes at a distance of two: the last byte is the second of the pattern instead of the first. -/
theorem kkCopyMatch_out_of_phase :
    kkCopyMatch (fun a => UInt8.ofNat a) 2 (2 - 2) 3 ≠ Lz.copy (fun a => UInt8.ofNat a) 2 2 3 := by
  intro heq
  have hlast := congrFun heq 4
  rw [Lz.copy_apply (by decide) (by decide), kkCopyMatch] at hlast
  simp [matchBytes, kkDouble, Lz.blit, Function.update] at hlast

/-- With a distance of at least eight, or a length up to the distance or a multiple of it, every buffer is
copied byte by byte. -/
lemma kkCopyMatch_of_inPhase {mem : ℕ → UInt8} {dst dist n : ℕ} (hpos : 0 < dist) (hle : dist ≤ dst)
    (h : 8 ≤ dist ∨ n ≤ dist ∨ dist ∣ n) :
    kkCopyMatch mem dst (dst - dist) n = Lz.copy mem dst dist n := by
  by_cases heasy : 8 ≤ dist ∨ n ≤ dist
  · exact kkCopyMatch_of_le hle heasy
  · obtain ⟨hsmall, hn⟩ : dist < 8 ∧ dist < n := by omega
    have hdvd : dist ∣ n := by tauto
    obtain ⟨-, habove⟩ := log2_period hpos hn
    rw [Nat.pow_succ, ← Nat.mul_assoc] at habove
    have hlast : lastStep dist n ≤ n - lastStep dist n ∧ n - lastStep dist n + lastStep dist n = n := by
      unfold lastStep
      omega
    have hwhole : dist ∣ lastStep dist n := Nat.dvd_sub hdvd (Nat.dvd_mul_right dist _)
    rw [kkCopyMatch_of_lt hpos hsmall hle hn, Lz.blit_copy_of_dvd hpos hle hlast.1 le_rfl hwhole, hlast.2]

end Prospero
