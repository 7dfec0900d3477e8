import Prospero.Models.Optimize
import Prospero.Pai.Codec

/-!
# The search of the planner

The search gives one tensor after the other the next cheaper precision, always the one with the largest
difference of sizes, taken as an unsigned number.  A group has a scale of four bytes, so that eight bits
can take more space than floats: such a difference wraps, and the search prefers it to every saving.

`optPlan_iff` says when the search does what it is for: the storage fits the budget from the start, or no
tensor that may leave `f32` takes more space in eight bits (`Grows`).

### Outline

* Downgrades and assignments.
* Sizes.
* The most profitable downgrade.
* One round of the search.
* Runs.
-/

namespace Prospero

open ByteString Reader

/-! ## Assignments -/

/-- The second scheme is reached from the first by downgrades that the role allows. -/
inductive Downgrades (role : OptRole) : OptScheme → OptScheme → Prop
  | refl (scheme : OptScheme) : Downgrades role scheme scheme
  | step {a b c : OptScheme} (before : Downgrades role a b) (next : b.next = some c)
      (allowed : roleAllows role c = true) : Downgrades role a c

/-- The tensors `ts` are those of `ts₀` with schemes reached from the current ones. -/
def Assigned (ts₀ ts : List OptTensor) : Prop :=
  List.Forall₂ (fun t₀ t => ∃ c, Downgrades t₀.role t₀.curScheme c ∧ t = t₀.choose c) ts₀ ts

/-- The bytes of the chosen schemes. -/
def bytesTotal (ts : List OptTensor) : ℕ := (ts.map fun t => t.chosenBytes.toNat).sum

/-- The bytes of all tensors as floats. -/
def floatTotal (ts : List OptTensor) : ℕ := (ts.map fun t => 4 * t.numel.toNat).sum

section Downgrades

variable {role : OptRole} {a b c : OptScheme}

lemma downgrade_eq_some {t : OptTensor} :
    t.downgrade = some c ↔ t.chosen.next = some c ∧ roleAllows t.role c = true := by
  unfold OptTensor.downgrade
  rw [Option.filter_eq_some_iff]

lemma Downgrades.trans (h : Downgrades role a b) (h' : Downgrades role b c) : Downgrades role a c := by
  induction h' with
  | refl => exact h
  | step before next allowed ih => exact .step ih next allowed

/-- The first step of a downgrade. -/
lemma Downgrades.head (h : Downgrades role a c) :
    a = c ∨ ∃ b, a.next = some b ∧ roleAllows role b = true ∧ Downgrades role b c := by
  induction h with
  | refl => exact .inl rfl
  | step before next allowed ih =>
    rcases ih with rfl | ⟨b, hb, hallowed, hrest⟩
    · exact .inr ⟨_, next, allowed, .refl _⟩
    · exact .inr ⟨b, hb, hallowed, .step hrest next allowed⟩

/-- The schemes reached from one are in a row. -/
lemma Downgrades.linear (h : Downgrades role a b) (h' : Downgrades role a c) :
    Downgrades role b c ∨ Downgrades role c b := by
  induction h with
  | refl => exact .inl h'
  | step before next allowed ih =>
    rcases ih with hfwd | hback
    · rcases hfwd.head with rfl | ⟨b', hb', -, hrest⟩
      · exact .inr (.step (.refl _) next allowed)
      · obtain rfl := Option.some.inj (next.symm.trans hb')
        exact .inl hrest
    · exact .inr (.step hback next allowed)

/-- Nothing is before `f32`. -/
lemma Downgrades.eq_f32 (h : Downgrades role a .f32) : a = .f32 := by
  cases h with
  | refl => rfl
  | step before next allowed =>
    rename_i b
    cases b <;> cases next

end Downgrades

/-! ## Sizes -/

section Sizes

variable {gs : UInt16} {t : OptTensor}

/-- The groups of `n` elements; the same for both widths. -/
def optGroups (gs : UInt16) (n : UInt64) : ℕ := paiQuantNumGroups n.toNat ⟨8, 1, gs⟩

lemma optGroups_four (gs : UInt16) (n : UInt64) :
    paiQuantNumGroups n.toNat ⟨4, 1, gs⟩ = optGroups gs n := rfl

lemma optGroups_le (gs : UInt16) (n : UInt64) : optGroups gs n ≤ n.toNat := by
  unfold optGroups paiQuantNumGroups
  split_ifs
  · exact Nat.zero_le _
  · split
    · next hgs => exact groupCount_le (quantGroupSize_ok hgs).1
    · exact Nat.zero_le _

/-- The bytes under the schemes, as long as nothing wraps. -/
lemma toNat_optSizeBytes (gs : UInt16) {n : UInt64} (hn : n.toNat < 0x2000000000000000)
    (scheme : OptScheme) :
    (optSizeBytes n gs scheme).toNat =
      match scheme with
      | .f32 => 4 * n.toNat
      | .q8 => n.toNat + 4 * optGroups gs n
      | .q4 => (n.toNat + 1) / 2 + 4 * optGroups gs n := by
  have hgroups := optGroups_le gs n
  cases scheme with
  | f32 =>
    rw [optSizeBytes, UInt64.toNat_mul]
    change n.toNat * 4 % 2 ^ 64 = 4 * n.toNat
    omega
  | q8 =>
    have hvalues : paiQuantValueBytes n.toNat ⟨8, 1, gs⟩ = n.toNat := by
      unfold paiQuantValueBytes
      split_ifs with hz h4
      · exact hz.symm
      · exact absurd h4 (by simp)
      · rfl
    have hscales : paiQuantScaleBytes n.toNat ⟨8, 1, gs⟩ = 4 * optGroups gs n := by
      rw [paiQuantScaleBytes, u64_of_lt (by change optGroups gs n * 4 < _; omega)]
      exact Nat.mul_comm _ _
    rw [optSizeBytes, paiQuantWeightsBytes, hvalues, hscales, UInt64.toNat_ofNat']
    exact Nat.mod_eq_of_lt (by omega)
  | q4 =>
    have hvalues : paiQuantValueBytes n.toNat ⟨4, 1, gs⟩ = (n.toNat + 1) / 2 := by
      unfold paiQuantValueBytes
      split_ifs with hz h4
      · rw [hz]
      · rw [u64_of_lt (by omega)]
      · exact absurd rfl h4
    have hscales : paiQuantScaleBytes n.toNat ⟨4, 1, gs⟩ = 4 * optGroups gs n := by
      rw [paiQuantScaleBytes, optGroups_four, u64_of_lt (by omega)]
      exact Nat.mul_comm _ _
    rw [optSizeBytes, paiQuantWeightsBytes, hvalues, hscales, UInt64.toNat_ofNat']
    exact Nat.mod_eq_of_lt (by omega)

/-- The sizes of a tensor are those of its elements, which are not too many. -/
structure Sized (gs : UInt16) (t : OptTensor) : Prop where
  sizes : t.sizeBytes = optSizeBytes t.numel gs
  small : t.numel.toNat < 0x2000000000000000

/-- A tensor that may leave `f32` and takes more space in eight bits. -/
def Grows (gs : UInt16) (t : OptTensor) : Prop :=
  t.curScheme = .f32 ∧ roleAllows t.role .q8 = true ∧ 3 * t.numel.toNat < 4 * optGroups gs t.numel

lemma Sized.bytes_le (h : Sized gs t) (scheme : OptScheme) :
    (t.sizeBytes scheme).toNat ≤ 5 * t.numel.toNat := by
  have hgroups := optGroups_le gs t.numel
  have hsmall := h.small
  rw [h.sizes, toNat_optSizeBytes gs h.small]
  cases scheme <;> simp only <;> omega

/-- A downgrade of a tensor that does not grow saves space. -/
lemma Sized.bytes_next_le (h : Sized gs t) {a b : OptScheme} (ha : Downgrades t.role t.curScheme a)
    (hnext : a.next = some b) (hallowed : roleAllows t.role b = true) (hgrows : ¬ Grows gs t) :
    (t.sizeBytes b).toNat ≤ (t.sizeBytes a).toNat := by
  rw [h.sizes, toNat_optSizeBytes gs h.small, toNat_optSizeBytes gs h.small]
  cases a with
  | f32 =>
    cases hnext
    have hle : ¬ 3 * t.numel.toNat < 4 * optGroups gs t.numel := fun hlt =>
      hgrows ⟨ha.eq_f32, hallowed, hlt⟩
    simp only
    omega
  | q8 =>
    cases hnext
    simp only
    omega
  | q4 => cases hnext

lemma Sized.bytes_le_of_downgrades (h : Sized gs t) {a b : OptScheme}
    (ha : Downgrades t.role t.curScheme a) (hab : Downgrades t.role a b) (hgrows : ¬ Grows gs t) :
    (t.sizeBytes b).toNat ≤ (t.sizeBytes a).toNat := by
  induction hab with
  | refl => exact le_rfl
  | step before next allowed ih =>
    exact (h.bytes_next_le (ha.trans before) next allowed hgrows).trans ih

end Sizes

/-! ## Totals -/

section Totals

/-- Replacing one entry replaces its summand. -/
lemma sum_map_modify {α : Type} (f : α → ℕ) (g : α → α) {l : List α} {i : ℕ} {a : α}
    (h : l[i]? = some a) : ((l.modify i g).map f).sum + f a = (l.map f).sum + f (g a) := by
  induction l generalizing i with
  | nil => cases h
  | cons b l ih =>
    cases i with
    | zero =>
      obtain rfl := Option.some.inj h
      rw [List.modify_zero_cons, List.map_cons, List.map_cons, List.sum_cons, List.sum_cons]
      omega
    | succ i =>
      rw [List.modify_succ_cons, List.map_cons, List.map_cons, List.sum_cons, List.sum_cons]
      have hrest := ih h
      omega

lemma toNat_planTotal {ts : List OptTensor} (h : bytesTotal ts < 2 ^ 64) :
    (planTotal ts).toNat = bytesTotal ts := by
  have hfold : ∀ (l : List OptTensor) (total : UInt64), total.toNat + bytesTotal l < 2 ^ 64 →
      (l.foldl (fun total t => total + t.chosenBytes) total).toNat = total.toNat + bytesTotal l := by
    intro l
    induction l with
    | nil => exact fun total _ => rfl
    | cons t l ih =>
      intro total hlt
      have hcons : bytesTotal (t :: l) = t.chosenBytes.toNat + bytesTotal l := rfl
      rw [hcons] at hlt ⊢
      have hadd : (total + t.chosenBytes).toNat = total.toNat + t.chosenBytes.toNat := by
        rw [UInt64.toNat_add]
        exact Nat.mod_eq_of_lt (by omega)
      rw [List.foldl_cons, ih _ (by omega), hadd, Nat.add_assoc]
  rw [planTotal, hfold ts 0 (by rw [UInt64.toNat_zero, Nat.zero_add]; exact h), UInt64.toNat_zero,
    Nat.zero_add]

variable {gs : UInt16} {ts₀ ts : List OptTensor}

/-- No assignment of tensors of less than `2 ^ 63` bytes as floats has `2 ^ 64` bytes. -/
lemma Assigned.bytesTotal_le (h : Assigned ts₀ ts) (hsized : ∀ t ∈ ts₀, Sized gs t) :
    4 * bytesTotal ts ≤ 5 * floatTotal ts₀ := by
  induction h with
  | nil => exact le_rfl
  | cons hc hrest ih =>
    rename_i t₀ t l₀ l
    obtain ⟨c, -, rfl⟩ := hc
    have ht := (hsized t₀ List.mem_cons_self).bytes_le c
    have hl := ih fun t ht => hsized t (List.mem_cons_of_mem _ ht)
    have hbytes : bytesTotal (t₀.choose c :: l) = (t₀.sizeBytes c).toNat + bytesTotal l := rfl
    have hfloats : floatTotal (t₀ :: l₀) = 4 * t₀.numel.toNat + floatTotal l₀ := rfl
    omega

lemma Assigned.mem (h : Assigned ts₀ ts) {t : OptTensor} (ht : t ∈ ts) :
    ∃ t₀ ∈ ts₀, ∃ c, Downgrades t₀.role t₀.curScheme c ∧ t = t₀.choose c := by
  induction h with
  | nil => cases ht
  | cons hc hrest ih =>
    rcases List.mem_cons.mp ht with rfl | ht
    · exact ⟨_, List.mem_cons_self, hc⟩
    · obtain ⟨t₀, ht₀, hc'⟩ := ih ht
      exact ⟨t₀, List.mem_cons_of_mem _ ht₀, hc'⟩

/-- A downgrade of one tensor. -/
lemma Assigned.modify (h : Assigned ts₀ ts) {i : ℕ} {t : OptTensor} {c : OptScheme}
    (ht : ts[i]? = some t) (hc : t.downgrade = some c) :
    Assigned ts₀ (ts.modify i fun t => t.choose (t.downgrade.getD t.chosen)) := by
  induction h generalizing i with
  | nil => cases ht
  | cons hfirst hrest ih =>
    rename_i t₀ t' l₀ l
    cases i with
    | zero =>
      obtain rfl := Option.some.inj ht
      rw [List.modify_zero_cons, hc]
      obtain ⟨a, ha, rfl⟩ := hfirst
      obtain ⟨hnext, hallowed⟩ := downgrade_eq_some.mp hc
      exact .cons ⟨c, .step ha hnext hallowed, rfl⟩ hrest
    | succ i =>
      rw [List.modify_succ_cons]
      exact .cons hfirst (ih ht)

/-- The search starts from the storage. -/
lemma assigned_startTensors (ts : List OptTensor) : Assigned ts (startTensors ts) := by
  unfold startTensors Assigned
  rw [List.forall₂_map_right_iff]
  exact List.forall₂_same.mpr fun t _ => ⟨_, .refl _, rfl⟩

/-- When nothing can be downgraded and no tensor grows, no assignment is smaller. -/
lemma Assigned.bytesTotal_le_of_stuck (h : Assigned ts₀ ts) (hsized : ∀ t ∈ ts₀, Sized gs t)
    (hgrows : ∀ t ∈ ts₀, ¬ Grows gs t) (hstuck : ∀ t ∈ ts, t.downgrade = none) {ts' : List OptTensor}
    (h' : Assigned ts₀ ts') : bytesTotal ts ≤ bytesTotal ts' := by
  induction h generalizing ts' with
  | nil =>
    cases h'
    exact le_rfl
  | cons hc hrest ih =>
    rename_i t₀ t l₀ l
    cases h' with
    | cons hc' hrest' =>
      rename_i t' l'
      obtain ⟨c, hreach, rfl⟩ := hc
      obtain ⟨c', hreach', rfl⟩ := hc'
      have hend : Downgrades t₀.role c' c := by
        rcases hreach.linear hreach' with hfwd | hback
        · rcases hfwd.head with rfl | ⟨b, hb, hallowed, -⟩
          · exact .refl _
          · -- there would be a further downgrade
            have hnone := hstuck _ List.mem_cons_self
            have hsome : (t₀.choose c).downgrade = some b := downgrade_eq_some.mpr ⟨hb, hallowed⟩
            rw [hnone] at hsome
            cases hsome
        · exact hback
      have hfirst := (hsized t₀ List.mem_cons_self).bytes_le_of_downgrades hreach' hend
        (hgrows t₀ List.mem_cons_self)
      have hl := ih (fun t ht => hsized t (List.mem_cons_of_mem _ ht))
        (fun t ht => hgrows t (List.mem_cons_of_mem _ ht))
        (fun t ht => hstuck t (List.mem_cons_of_mem _ ht)) hrest'
      have hleft : bytesTotal (t₀.choose c :: l) = (t₀.sizeBytes c).toNat + bytesTotal l := rfl
      have hright : bytesTotal (t₀.choose c' :: l') = (t₀.sizeBytes c').toNat + bytesTotal l' := rfl
      omega

end Totals

/-! ## The most profitable downgrade -/

/-- The saving of the downgrade of a tensor, as the source computes it. -/
def OptTensor.saving (t : OptTensor) : Option UInt64 :=
  t.downgrade.map fun next => t.sizeBytes t.chosen - t.sizeBytes next

/-- What the loop has found among the tensors `seen` before the current one. -/
def BestOf (all seen : List OptTensor) (best : UInt64 × ℕ) : Prop :=
  (best = (0, all.length) ∧ ∀ t ∈ seen, t.saving = none) ∨
    (best.2 < all.length ∧ ∃ t, all[best.2]? = some t ∧ t.saving = some best.1 ∧
      ∀ t' ∈ seen, ∀ save, t'.saving = some save → save ≤ best.1)

lemma bestOf_nil (all : List OptTensor) : BestOf all [] (0, all.length) :=
  .inl ⟨rfl, fun _ h => absurd h List.not_mem_nil⟩

lemma bestOf_bestLoop {all seen ts : List OptTensor} (hall : seen ++ ts = all) {best : UInt64 × ℕ}
    (h : BestOf all seen best) : BestOf all all (bestLoop ts seen.length best.1 best.2) := by
  induction ts generalizing seen best with
  | nil =>
    rw [List.append_nil] at hall
    subst hall
    exact h
  | cons t ts ih =>
    have hnext : (seen ++ [t]) ++ ts = all := by rw [List.append_assoc]; exact hall
    have hlen : (seen ++ [t]).length = seen.length + 1 := by simp
    have hsplit (P : OptTensor → Prop) (hseen : ∀ t ∈ seen, P t) (ht : P t) :
        ∀ t' ∈ seen ++ [t], P t' := by
      intro t' ht'
      rcases List.mem_append.mp ht' with hold | hnew
      · exact hseen t' hold
      · exact List.mem_singleton.mp hnew ▸ ht
    have hindex : seen.length < all.length := by
      rw [← hall, List.length_append, List.length_cons]
      omega
    have hget : all[seen.length]? = some t := by
      rw [← hall, List.getElem?_append_right le_rfl, Nat.sub_self, List.getElem?_cons_zero]
    rw [bestLoop]
    cases hdown : t.downgrade with
    | none =>
      have hsaving : t.saving = none := by rw [OptTensor.saving, hdown, Option.map_none]
      simp only
      rw [← hlen]
      refine ih hnext ?_
      rcases h with ⟨hbest, hnone⟩ | ⟨hlt, t', ht', hsave, hmax⟩
      · exact .inl ⟨hbest, hsplit _ hnone hsaving⟩
      · refine .inr ⟨hlt, t', ht', hsave, hsplit _ hmax fun save hs => ?_⟩
        rw [hsaving] at hs
        cases hs
    | some next =>
      have hsaving : t.saving = some (t.sizeBytes t.chosen - t.sizeBytes next) := by
        rw [OptTensor.saving, hdown, Option.map_some]
      simp only
      generalize t.sizeBytes t.chosen - t.sizeBytes next = save at hsaving ⊢
      have hself (bound : UInt64) (hle : save ≤ bound) :
          ∀ save', t.saving = some save' → save' ≤ bound := by
        intro save' hs
        rw [hsaving] at hs
        exact Option.some.inj hs ▸ hle
      split_ifs with hbetter
      · rw [← hlen]
        have htaken : BestOf all (seen ++ [t]) (save, seen.length) := by
          refine .inr ⟨hindex, t, hget, hsaving, ?_⟩
          refine hsplit _ (fun t' ht' save' hs => ?_) (hself save (UInt64.le_refl save))
          rcases h with ⟨-, hnone⟩ | ⟨-, -, -, -, hmax⟩
          · rw [hnone t' ht'] at hs
            cases hs
          · have hle := hmax t' ht' save' hs
            rcases hbetter with hlt | ⟨heq, -⟩
            · exact UInt64.le_trans hle (UInt64.le_of_lt hlt)
            · exact heq ▸ hle
        exact ih hnext htaken
      · rw [not_or, UInt64.not_lt, not_and] at hbetter
        rw [← hlen]
        refine ih hnext ?_
        rcases h with ⟨hbest, hnone⟩ | ⟨hlt, t', ht', hsave, hmax⟩
        · -- the first tensor with a downgrade is always taken
          rw [hbest] at hbetter
          exact absurd hindex (hbetter.2 (UInt64.le_antisymm hbetter.1 (UInt64.zero_le)))
        · exact .inr ⟨hlt, t', ht', hsave, hsplit _ hmax (hself _ hbetter.1)⟩

/-! ## One round -/

/-- A round of the search downgrades a tensor with the largest saving. -/
structure GreedyRound (budget : UInt64) (s s' : GreedyState) (t : OptTensor) (next : OptScheme) :
    Prop where
  /-- The total is over the budget. -/
  above : budget < s.2
  /-- The tensor has a downgrade. -/
  downgrade : t.downgrade = some next
  /-- It is one of the tensors, and is replaced. -/
  replaced : ∃ i, s.1[i]? = some t ∧ s'.1 = s.1.modify i fun t => t.choose (t.downgrade.getD t.chosen)
  /-- The saving is subtracted from the total. -/
  total : s'.2 = s.2 - (t.sizeBytes t.chosen - t.sizeBytes next)
  /-- No saving is larger. -/
  best : ∀ t' ∈ s.1, ∀ save, t'.saving = some save → save ≤ t.sizeBytes t.chosen - t.sizeBytes next

lemma greedyNext_eq_some {budget : UInt64} {s s' : GreedyState} (h : greedyNext budget s = some s') :
    ∃ t next, GreedyRound budget s s' t next := by
  unfold greedyNext at h
  split_ifs at h with hover
  simp only at h
  split_ifs at h with hidx
  cases h
  have hbest : BestOf s.1 s.1 (bestLoop s.1 0 0 s.1.length) :=
    bestOf_bestLoop (List.nil_append _) (bestOf_nil s.1)
  rcases hbest with ⟨hnone, -⟩ | ⟨-, t, ht, hsave, hmax⟩
  · rw [hnone] at hidx
    exact absurd rfl hidx
  · obtain ⟨next, hnext, heq⟩ := Option.map_eq_some_iff.mp hsave
    exact ⟨t, next, hover, hnext, ⟨_, ht, rfl⟩, by rw [heq], by rw [heq]; exact hmax⟩

lemma greedyNext_eq_none {budget : UInt64} {s : GreedyState} (h : greedyNext budget s = none) :
    s.2 ≤ budget ∨ ∀ t ∈ s.1, t.downgrade = none := by
  unfold greedyNext at h
  split_ifs at h with hover
  · simp only at h
    split_ifs at h with hidx
    have hbest : BestOf s.1 s.1 (bestLoop s.1 0 0 s.1.length) :=
      bestOf_bestLoop (List.nil_append _) (bestOf_nil s.1)
    rcases hbest with ⟨-, hnone⟩ | ⟨hlt, -⟩
    · exact .inr fun t ht => Option.map_eq_none_iff.mp (hnone t ht)
    · exact absurd hidx hlt.ne
  · exact .inl (UInt64.not_lt.mp hover)

/-- The state of the search: an assignment and its total. -/
structure GreedyInv (ts₀ : List OptTensor) (s : GreedyState) : Prop where
  assigned : Assigned ts₀ s.1
  total : s.2.toNat = bytesTotal s.1

section Rounds

variable {gs : UInt16} {ts₀ : List OptTensor} {budget : UInt64} {s s' : GreedyState} {t : OptTensor}
  {next : OptScheme}

lemma bytes_le_bytesTotal {ts : List OptTensor} (h : t ∈ ts) : t.chosenBytes.toNat ≤ bytesTotal ts :=
  List.le_sum_of_mem (List.mem_map_of_mem h)

/-- The total after a round. -/
lemma GreedyRound.bytesTotal_eq (h : GreedyRound budget s s' t next) :
    bytesTotal s'.1 + (t.sizeBytes t.chosen).toNat = bytesTotal s.1 + (t.sizeBytes next).toNat := by
  obtain ⟨i, hi, hs'⟩ := h.replaced
  have hsum := sum_map_modify (fun t => t.chosenBytes.toNat)
    (fun t => t.choose (t.downgrade.getD t.chosen)) hi
  rw [← hs'] at hsum
  rw [h.downgrade] at hsum
  exact hsum

lemma GreedyRound.mem (h : GreedyRound budget s s' t next) : t ∈ s.1 := by
  obtain ⟨i, hi, -⟩ := h.replaced
  exact List.mem_of_getElem? hi

/-- Subtracting an unsigned saving adds what the tensor grows by. -/
lemma toNat_sub_sub {total old new : UInt64} (hold : old.toNat ≤ total.toNat)
    (hnew : total.toNat - old.toNat + new.toNat < 2 ^ 64) :
    (total - (old - new)).toNat = total.toNat - old.toNat + new.toNat := by
  have hold' := old.toNat_lt
  have hnew' := new.toNat_lt
  have htotal := total.toNat_lt
  rw [UInt64.toNat_sub, UInt64.toNat_sub]
  omega

variable (hsized : ∀ t ∈ ts₀, Sized gs t) (hsmall : floatTotal ts₀ < 0x8000000000000000)

include hsized hsmall in
lemma Assigned.bytesTotal_lt {ts : List OptTensor} (h : Assigned ts₀ ts) : bytesTotal ts < 2 ^ 64 := by
  have hle := h.bytesTotal_le hsized
  omega

include hsized hsmall in
lemma GreedyRound.inv (h : GreedyRound budget s s' t next) (hinv : GreedyInv ts₀ s) :
    GreedyInv ts₀ s' := by
  have hassigned : Assigned ts₀ s'.1 := by
    obtain ⟨i, hi, hs'⟩ := h.replaced
    rw [hs']
    exact hinv.assigned.modify hi h.downgrade
  refine ⟨hassigned, ?_⟩
  have hmem := bytes_le_bytesTotal h.mem
  have heq := h.bytesTotal_eq
  have hlt := hassigned.bytesTotal_lt hsized hsmall
  have hold : (t.sizeBytes t.chosen).toNat ≤ s.2.toNat := by
    rw [hinv.total]
    exact hmem
  have htotal := hinv.total
  rw [h.total, toNat_sub_sub hold (by omega)]
  omega

/-- A round that downgrades a tensor which does not grow does not increase the total. -/
lemma GreedyRound.le (h : GreedyRound budget s s' t next) (hinv : GreedyInv ts₀ s)
    (hinv' : GreedyInv ts₀ s') (hle : (t.sizeBytes next).toNat ≤ (t.sizeBytes t.chosen).toNat) :
    s'.2 ≤ s.2 := by
  have heq := h.bytesTotal_eq
  rw [UInt64.le_iff_toNat_le, hinv.total, hinv'.total]
  omega

include hsized in
/-- Without tensors that grow, no round increases the total. -/
lemma GreedyRound.le_of_not_grows (hgrows : ∀ t ∈ ts₀, ¬ Grows gs t)
    (h : GreedyRound budget s s' t next) (hinv : GreedyInv ts₀ s) (hinv' : GreedyInv ts₀ s') :
    s'.2 ≤ s.2 := by
  obtain ⟨t₀, ht₀, c, hc, rfl⟩ := hinv.assigned.mem h.mem
  obtain ⟨hnext, hallowed⟩ := downgrade_eq_some.mp h.downgrade
  exact h.le hinv hinv' ((hsized t₀ ht₀).bytes_next_le hc hnext hallowed (hgrows t₀ ht₀))

include hsized in
/-- The first round increases the total when a tensor grows. -/
lemma GreedyRound.lt_of_grows (h : GreedyRound budget s s' t next) (hinv : GreedyInv ts₀ s)
    (hinv' : GreedyInv ts₀ s') {u : OptTensor} (hu : u ∈ ts₀) (hgrows : Grows gs u)
    (hmem : u.choose u.curScheme ∈ s.1) : s.2 < s'.2 := by
  obtain ⟨hcur, hallowed, hgroups⟩ := hgrows
  have husized := hsized u hu
  have hdown : (u.choose u.curScheme).downgrade = some .q8 :=
    downgrade_eq_some.mpr ⟨congrArg OptScheme.next hcur, hallowed⟩
  have hsave : (u.choose u.curScheme).saving =
      some (u.sizeBytes .f32 - u.sizeBytes .q8) := by
    rw [OptTensor.saving, hdown, Option.map_some]
    change some (u.sizeBytes u.curScheme - u.sizeBytes .q8) = _
    rw [hcur]
  have hbest := UInt64.le_iff_toNat_le.mp (h.best _ hmem _ hsave)
  -- the difference of `u` wraps, and so does the largest one
  have hbefore := toNat_optSizeBytes gs husized.small .f32
  have hafter := toNat_optSizeBytes gs husized.small .q8
  rw [← husized.sizes] at hbefore hafter
  simp only at hbefore hafter
  have hgroups' := optGroups_le gs u.numel
  have husmall := husized.small
  have hwraps : 0xE000000000000000 ≤ (u.sizeBytes .f32 - u.sizeBytes .q8).toNat := by
    have hdiff : 2 ^ 64 - (u.numel.toNat + 4 * optGroups gs u.numel) + 4 * u.numel.toNat =
        2 ^ 64 - (4 * optGroups gs u.numel - 3 * u.numel.toNat) := by omega
    rw [UInt64.toNat_sub, hbefore, hafter, hdiff, Nat.mod_eq_of_lt (by omega)]
    omega
  obtain ⟨t₀, ht₀, c, -, rfl⟩ := hinv.assigned.mem h.mem
  have hold := (hsized t₀ ht₀).bytes_le c
  have ht₀small := (hsized t₀ ht₀).small
  change (t₀.sizeBytes c).toNat ≤ _ at hold
  have heq := h.bytesTotal_eq
  have hchosen : (t₀.choose c).sizeBytes (t₀.choose c).chosen = t₀.sizeBytes c := rfl
  rw [hchosen] at hbest heq
  rw [UInt64.lt_iff_toNat_lt, hinv.total, hinv'.total]
  by_contra hle
  have hshrinks : ((t₀.choose c).sizeBytes next).toNat ≤ (t₀.sizeBytes c).toNat := by omega
  rw [UInt64.toNat_sub_of_le _ _ (UInt64.le_iff_toNat_le.mpr hshrinks)] at hbest
  omega

/-- The downgrades that are left at most. -/
def slack (ts : List OptTensor) : ℕ := (ts.map fun t => 2 - t.chosen.code).sum

lemma GreedyRound.slack_lt (h : GreedyRound budget s s' t next) : slack s'.1 < slack s.1 := by
  obtain ⟨i, hi, hs'⟩ := h.replaced
  have hsum := sum_map_modify (fun t => 2 - t.chosen.code)
    (fun t => t.choose (t.downgrade.getD t.chosen)) hi
  rw [← hs', h.downgrade] at hsum
  have hcode : 2 - next.code < 2 - t.chosen.code := by
    obtain ⟨hnext, -⟩ := downgrade_eq_some.mp h.downgrade
    revert hnext
    cases t.chosen <;> intro hnext <;> cases hnext <;> decide
  change slack s'.1 + (2 - t.chosen.code) = slack s.1 + (2 - next.code) at hsum
  omega

end Rounds

/-! ## Runs -/

section Runs

variable {gs : UInt16} {ts₀ : List OptTensor} {budget : UInt64}

/-- The states of the search. -/
abbrev Searches (budget : UInt64) : GreedyState → GreedyState → Prop :=
  Relation.ReflTransGen fun s s' => greedyNext budget s = some s'

/-- The search ends, with enough fuel. -/
lemma exists_greedyLoop (budget : UInt64) (s : GreedyState) :
    ∃ s', Searches budget s s' ∧ greedyNext budget s' = none ∧
      ∀ fuel, slack s.1 < fuel → greedyLoop budget fuel s = some s' := by
  induction hk : slack s.1 using Nat.strongRecOn generalizing s with
  | ind k ih =>
    cases hnext : greedyNext budget s with
    | none =>
      refine ⟨s, .refl, hnext, fun fuel hfuel => ?_⟩
      obtain ⟨fuel, rfl⟩ := Nat.exists_eq_succ_of_ne_zero (Nat.ne_of_gt (Nat.zero_lt_of_lt hfuel))
      rw [greedyLoop, hnext]
    | some s₁ =>
      obtain ⟨t, next, hround⟩ := greedyNext_eq_some hnext
      have hlt := hround.slack_lt
      obtain ⟨s', hreach, hend, hloop⟩ := ih (slack s₁.1) (by omega) s₁ rfl
      refine ⟨s', .head hnext hreach, hend, fun fuel hfuel => ?_⟩
      obtain ⟨fuel, rfl⟩ := Nat.exists_eq_succ_of_ne_zero (Nat.ne_of_gt (Nat.zero_lt_of_lt hfuel))
      rw [greedyLoop, hnext]
      exact hloop fuel (by omega)

/-- A search that is within the budget does not start. -/
lemma Searches.eq_of_le {s s' : GreedyState} (h : Searches budget s s') (hle : s.2 ≤ budget) : s' = s := by
  have hnone : greedyNext budget s = none := if_neg (UInt64.not_lt.mpr hle)
  rcases Relation.ReflTransGen.cases_head h with rfl | ⟨s₁, hnext, -⟩
  · rfl
  · rw [hnone] at hnext
    cases hnext

/-- Every tensor has two downgrades at most. -/
lemma slack_le (ts : List OptTensor) : slack ts ≤ 2 * ts.length := by
  have hle := List.sum_le_card_nsmul (ts.map fun t => 2 - t.chosen.code) 2 fun k hk => by
    obtain ⟨t, -, rfl⟩ := List.mem_map.mp hk
    exact Nat.sub_le 2 _
  rw [List.length_map, smul_eq_mul, Nat.mul_comm] at hle
  exact hle

variable (hsized : ∀ t ∈ ts₀, Sized gs t) (hsmall : floatTotal ts₀ < 0x8000000000000000)

include hsized hsmall in
lemma greedyInv_start : GreedyInv ts₀ (startTensors ts₀, planTotal (startTensors ts₀)) :=
  ⟨assigned_startTensors ts₀, toNat_planTotal ((assigned_startTensors ts₀).bytesTotal_lt hsized hsmall)⟩

include hsized hsmall in
/-- The search keeps the invariant. -/
lemma Searches.inv {s s' : GreedyState} (h : Searches budget s s') (hinv : GreedyInv ts₀ s) :
    GreedyInv ts₀ s' := by
  induction h with
  | refl => exact hinv
  | tail _ hnext ih =>
    obtain ⟨t, next, hround⟩ := greedyNext_eq_some hnext
    exact hround.inv hsized hsmall ih

end Runs

/-- What is claimed of the plan for a budget: the search ends, the total is that of the chosen schemes,
these are reached from the current ones by downgrades the roles allow, no round increases the total, and the
plan is feasible if and only if some assignment is. -/
structure OptPlanSound (container : PaiContainer) (ir : Option IrProgram) (budget : UInt64) (gs : UInt16)
    (ts : List OptTensor) (plan : OptPlan) : Prop where
  returned : ∀ fuel, 2 * ts.length < fuel →
    paiOptPlan fuel container ir budget gs = .ok (some plan)
  total : plan.planTotal.toNat = bytesTotal plan.tensors
  chosen : Assigned ts plan.tensors
  rounds : ∀ s s', Searches budget (startTensors ts, planTotal (startTensors ts)) s →
    greedyNext budget s = some s' → s'.2 ≤ s.2
  feasible : plan.feasible = true ↔ ∃ ts', Assigned ts ts' ∧ bytesTotal ts' ≤ budget.toNat

section Plans

variable {container : PaiContainer} {ir : Option IrProgram} {budget : UInt64} {gs : UInt16}
  {name : List UInt8} {ts : List OptTensor}

lemma optTensors_eq_ok (hread : optTensors container ir gs = .ok (name, ts)) :
    ∃ tensors, ts = List.map (optTensor ir gs) tensors := by
  unfold optTensors at hread
  split at hread
  · cases hread
  · obtain ⟨info, -, hread⟩ := Reader.bind_eq_ok hread
    split at hread
    · cases hread
    · obtain ⟨tensors, -, hread⟩ := Reader.bind_eq_ok hread
      cases hread
      exact ⟨_, rfl⟩

lemma sized_optTensors (hread : optTensors container ir gs = .ok (name, ts))
    (hsmall : floatTotal ts < 0x8000000000000000) : ∀ t ∈ ts, Sized gs t := by
  intro t ht
  have hle : 4 * t.numel.toNat ≤ floatTotal ts :=
    List.le_sum_of_mem (List.mem_map_of_mem (f := fun t : OptTensor => 4 * t.numel.toNat) ht)
  obtain ⟨tensors, rfl⟩ := optTensors_eq_ok hread
  obtain ⟨t, -, rfl⟩ := List.mem_map.mp ht
  exact ⟨rfl, by omega⟩

/-- A plan with a budget is that of the search. -/
lemma paiOptPlan_eq (hread : optTensors container ir gs = .ok (name, ts)) (hbudget : budget ≠ 0)
    (fuel : ℕ) :
    paiOptPlan fuel container ir budget gs =
      .ok ((greedyLoop budget fuel (startTensors ts, planTotal (startTensors ts))).map fun s =>
        planOf name ts budget s (s.2 ≤ budget)) := by
  unfold paiOptPlan
  rw [hread]
  exact if_neg hbudget

/-- Where the plan is sound, the storage fits the budget, or no tensor grows. -/
lemma OptPlanSound.condition {plan : OptPlan} (h : OptPlanSound container ir budget gs ts plan)
    (hsized : ∀ t ∈ ts, Sized gs t) (hsmall : floatTotal ts < 0x8000000000000000) :
    bytesTotal (startTensors ts) ≤ budget.toNat ∨ ∀ t ∈ ts, ¬ Grows gs t := by
  by_contra hneg
  rw [not_or, not_le] at hneg
  push Not at hneg
  obtain ⟨hover, u, hu, hgrows⟩ := hneg
  have hinv := greedyInv_start hsized hsmall
  have hmem : u.choose u.curScheme ∈ startTensors ts := List.mem_map_of_mem hu
  cases hnext : greedyNext budget (startTensors ts, planTotal (startTensors ts)) with
  | none =>
    rcases greedyNext_eq_none hnext with hle | hstuck
    · have hle' := UInt64.le_iff_toNat_le.mp hle
      have htotal := hinv.total
      dsimp only at htotal hle'
      omega
    · -- the tensor that grows could be downgraded
      have hdown : (u.choose u.curScheme).downgrade = some .q8 :=
        downgrade_eq_some.mpr ⟨congrArg OptScheme.next hgrows.1, hgrows.2.1⟩
      rw [hstuck _ hmem] at hdown
      cases hdown
  | some s' =>
    obtain ⟨t, next, hround⟩ := greedyNext_eq_some hnext
    have hlt := hround.lt_of_grows hsized hinv (hround.inv hsized hsmall hinv) hu hgrows hmem
    exact absurd (h.rounds _ _ .refl hnext) (UInt64.not_le.mpr hlt)

/-- A search that does not increase the total is sound. -/
lemma exists_optPlanSound (hread : optTensors container ir gs = .ok (name, ts)) (hbudget : budget ≠ 0)
    (hsmall : floatTotal ts < 0x8000000000000000)
    (hcond : bytesTotal (startTensors ts) ≤ budget.toNat ∨ ∀ t ∈ ts, ¬ Grows gs t) :
    ∃ plan, OptPlanSound container ir budget gs ts plan := by
  have hsized := sized_optTensors hread hsmall
  have hstart := greedyInv_start hsized hsmall
  obtain ⟨s, hreach, hend, hloop⟩ :=
    exists_greedyLoop budget (startTensors ts, planTotal (startTensors ts))
  have hinv := hreach.inv hsized hsmall hstart
  have hslack : slack (startTensors ts) ≤ 2 * ts.length := by
    have hle := slack_le (startTensors ts)
    rwa [startTensors, List.length_map] at hle
  have hstart_le (hfits : bytesTotal (startTensors ts) ≤ budget.toNat) :
      planTotal (startTensors ts) ≤ budget := by
    rw [UInt64.le_iff_toNat_le, hstart.total]
    exact hfits
  refine ⟨planOf name ts budget s (s.2 ≤ budget), fun fuel hfuel => ?_, hinv.total, hinv.assigned,
    fun s₁ s₂ hreach₁ hnext => ?_, ?_⟩
  · rw [paiOptPlan_eq hread hbudget, hloop fuel (hslack.trans_lt hfuel)]
    rfl
  · rcases hcond with hfits | hgrows
    · have hle := hstart_le hfits
      rw [hreach₁.eq_of_le hle, greedyNext, if_neg (UInt64.not_lt.mpr hle)] at hnext
      cases hnext
    · obtain ⟨t, next, hround⟩ := greedyNext_eq_some hnext
      have hinv₁ := hreach₁.inv hsized hsmall hstart
      exact hround.le_of_not_grows hsized hgrows hinv₁ (hround.inv hsized hsmall hinv₁)
  · have htotal := hinv.total
    change decide (s.2 ≤ budget) = true ↔ _
    rw [decide_eq_true_iff, UInt64.le_iff_toNat_le, htotal]
    constructor
    · exact fun hle => ⟨s.1, hinv.assigned, hle⟩
    · rintro ⟨ts', hts', hle⟩
      rcases greedyNext_eq_none hend with hfits | hstuck
      · rw [← htotal]
        exact UInt64.le_iff_toNat_le.mp hfits
      · rcases hcond with hfits | hgrows
        · rw [← htotal, hreach.eq_of_le (hstart_le hfits)]
          exact UInt64.le_iff_toNat_le.mp (hstart_le hfits)
        · exact (hinv.assigned.bytesTotal_le_of_stuck hsized hgrows hstuck hts').trans hle

end Plans

/-- The planner is sound for a budget if and only if the storage fits it, or no tensor that may leave `f32`
takes more space in eight bits. -/
theorem optPlan_iff (container : PaiContainer) (ir : Option IrProgram) (budget : UInt64) (gs : UInt16)
    (hbudget : budget ≠ 0) (name : List UInt8) (ts : List OptTensor)
    (hread : optTensors container ir gs = .ok (name, ts))
    (hsmall : floatTotal ts < 0x8000000000000000) :
    (∃ plan, OptPlanSound container ir budget gs ts plan) ↔
      bytesTotal (startTensors ts) ≤ budget.toNat ∨ ∀ t ∈ ts, ¬ Grows gs t :=
  ⟨fun ⟨_, h⟩ => h.condition (sized_optTensors hread hsmall) hsmall,
    exists_optPlanSound hread hbudget hsmall⟩

/-- The feed-forward weight `w1` of `n` floats. -/
def w1Tensor (n : UInt64) : PaiTensor := ⟨[119, 49], 1, .f32, 1, padDims [n], 0, 4 * n⟩

/-- The sections of a container with this weight. -/
def w1Sections (n : UInt64) : List BuilderSection :=
  [⟨paiPaiSecMeta, 0, List.replicate 64 0, 64⟩,
    ⟨paiPaiSecManifest, 0, u32le 1 ++ encodeTensor (w1Tensor n), 80⟩]

/-- The file of the container. -/
def w1File (n : UInt64) : List UInt8 :=
  containerHeader 2 ++ (u32le (containerCrc (containerHeader 2) (containerRest (w1Sections n))) ++
    containerRest (w1Sections n))

/-- The container. -/
def w1Container (n : UInt64) : PaiContainer := ⟨tableEntries 48 (w1Sections n), w1File n⟩

/-- What the planner reads from the container. -/
lemma optTensors_w1 {n : UInt64} (info : PaiMeta)
    (hmeta : paiPaiSection (w1Container n) paiPaiSecMeta = some (List.replicate 64 0))
    (hmanifest : paiPaiSection (w1Container n) paiPaiSecManifest =
      some (u32le 1 ++ encodeTensor (w1Tensor n)))
    (hinfo : paiPaiMetaDecode (List.replicate 64 0) = .ok info)
    (htensors : paiPaiManifestDecode (u32le 1 ++ encodeTensor (w1Tensor n)) paiPaiMaxTensors =
      .ok [w1Tensor n]) (gs : UInt16) :
    optTensors (w1Container n) none gs = .ok (info.name, [optTensor none gs (w1Tensor n)]) := by
  unfold optTensors
  simp only [hmeta, hmanifest, hinfo, htensors]
  rfl

/-- The metadata of the container. -/
def w1Meta : PaiMeta := ⟨[], 0, 0, 0, 0, 0, 0⟩

instance (gs : UInt16) (t : OptTensor) : Decidable (Grows gs t) :=
  inferInstanceAs (Decidable (_ ∧ _ ∧ _))

/-- Four floats take 16 bytes, and 8 in eight bits: the budget of 10 bytes is met. -/
theorem optPlan_iff_four :
    ∃ plan, OptPlanSound (w1Container 4) none 10 0 [optTensor none 0 (w1Tensor 4)] plan :=
  (optPlan_iff (w1Container 4) none 10 0 (by decide) [] [optTensor none 0 (w1Tensor 4)]
    (optTensors_w1 w1Meta (by decide +kernel) (by decide +kernel) (by decide +kernel)
      (by decide +kernel) 0)
    (by decide +kernel)).mpr (.inr (by decide +kernel))

/-- One float takes 4 bytes, and 5 in eight bits.  For a budget of 3 bytes the first round of the search
increases the total. -/
theorem optPlan_fails :
    paiPaiOpen (w1File 1) = .ok (w1Container 1) ∧
      optTensors (w1Container 1) none 0 = .ok ([], [optTensor none 0 (w1Tensor 1)]) ∧
      floatTotal [optTensor none 0 (w1Tensor 1)] < 0x8000000000000000 ∧
      ¬ ∃ plan, OptPlanSound (w1Container 1) none 3 0 [optTensor none 0 (w1Tensor 1)] plan := by
  have hread := optTensors_w1 (n := 1) w1Meta (by decide +kernel) (by decide +kernel)
    (by decide +kernel) (by decide +kernel) 0
  have hsmall : floatTotal [optTensor none 0 (w1Tensor 1)] < 0x8000000000000000 := by decide +kernel
  have hbuildable : Buildable (w1Sections 1) :=
    ⟨by decide, by decide, by decide, by decide, by decide, by decide, by decide⟩
  refine ⟨(hbuildable.open_eq rfl).1, hread, hsmall, fun ⟨plan, hplan⟩ => ?_⟩
  have hcond := hplan.condition (sized_optTensors hread hsmall) hsmall
  revert hcond
  decide +kernel

end Prospero
