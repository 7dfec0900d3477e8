import Mathlib.Data.List.Basic
import Mathlib.Tactic.Common
import Mathlib.Data.Nat.Find

/-!
# Patterns in a text

Where patterns occur in a text that grows at its end.  `FirstEnd` is the occurrence that ends first, the
longest one among those; it stays the same when the text grows (`FirstEnd.append`).  `EndsIn` is the length
of the longest pattern the text ends with.  `last` is the end of a text, which is enough to see that
(`suffix_iff_last`).
-/

namespace Search

variable {α : Type*}

/-! ## The end of a text -/

/-- The last `n` symbols. -/
def last (n : ℕ) (text : List α) : List α := text.drop (text.length - n)

lemma length_last (n : ℕ) (text : List α) : (last n text).length = min text.length n := by
  rw [last, List.length_drop]
  omega

lemma last_of_length_le {n : ℕ} {text : List α} (h : text.length ≤ n) : last n text = text := by
  rw [last, Nat.sub_eq_zero_of_le h, List.drop_zero]

/-- The end of a longer text, from the end of the text. -/
lemma last_append {n : ℕ} {text more : List α} (h : more.length ≤ n) :
    last n (text ++ more) = last (n - more.length) (last n text) ++ more := by
  rw [last, List.length_append, List.drop_append_of_le_length (by omega), last, length_last, last,
    List.drop_drop]
  congr 2
  omega

/-- A pattern within the end of a text is seen there. -/
lemma suffix_iff_last {n : ℕ} {p text : List α} (h : p.length ≤ n) :
    p <:+ text ↔ p <:+ last n text := by
  have hlast : last n text <:+ text := List.drop_suffix _ _
  refine ⟨fun hp => List.suffix_of_suffix_length_le hp hlast ?_, fun hp => hp.trans hlast⟩
  rw [length_last]
  exact Nat.le_min.mpr ⟨hp.length_le, h⟩

/-! ## Occurrences -/

variable (pats : List (List α))

/-- A pattern occurs. -/
def Occurs (text : List α) : Prop := ∃ p ∈ pats, p <:+: text

/-- The occurrence of a pattern that ends first, and is the longest among those, with what stands before
it. -/
structure FirstEnd (text pre p : List α) : Prop where
  mem : p ∈ pats
  /-- It is an occurrence. -/
  found : pre ++ p <+: text
  /-- None ends before. -/
  first : ∀ pre' p', p' ∈ pats → pre' ++ p' <+: text → (pre ++ p).length ≤ (pre' ++ p').length
  /-- None that ends there is longer. -/
  longest : ∀ pre' p', p' ∈ pats → pre' ++ p' <+: text →
    (pre' ++ p').length = (pre ++ p).length → p'.length ≤ p.length

/-- The text ends with a pattern. -/
def Ends (text : List α) : Prop := ∃ p ∈ pats, p <:+ text

/-- The longest pattern the text ends with has `n` symbols. -/
structure EndsIn (text : List α) (n : ℕ) : Prop where
  /-- There is one. -/
  found : ∃ p ∈ pats, p <:+ text ∧ p.length = n
  /-- None is longer. -/
  longest : ∀ p ∈ pats, p <:+ text → p.length ≤ n

variable {pats}

lemma Ends.occurs {text : List α} (h : Ends pats text) : Occurs pats text := by
  obtain ⟨p, hp, hsuffix⟩ := h
  exact ⟨p, hp, hsuffix.isInfix⟩

lemma EndsIn.ends {text : List α} {n : ℕ} (h : EndsIn pats text n) : Ends pats text := by
  obtain ⟨p, hp, hsuffix, -⟩ := h.found
  exact ⟨p, hp, hsuffix⟩

lemma Occurs.append {text : List α} (h : Occurs pats text) (more : List α) :
    Occurs pats (text ++ more) := by
  obtain ⟨p, hp, hinfix⟩ := h
  exact ⟨p, hp, hinfix.trans (List.prefix_append _ _).isInfix⟩

lemma FirstEnd.occurs {text pre p : List α} (h : FirstEnd pats text pre p) : Occurs pats text :=
  ⟨p, h.mem, (List.suffix_append pre p).isInfix.trans h.found.isInfix⟩

lemma EndsIn.unique {text : List α} {n n' : ℕ} (h : EndsIn pats text n) (h' : EndsIn pats text n') :
    n = n' := by
  obtain ⟨p, hp, hsuffix, rfl⟩ := h.found
  obtain ⟨p', hp', hsuffix', rfl⟩ := h'.found
  exact Nat.le_antisymm (h'.longest p hp hsuffix) (h.longest p' hp' hsuffix')

/-- There is only one. -/
lemma FirstEnd.unique {text pre p pre' p' : List α} (h : FirstEnd pats text pre p)
    (h' : FirstEnd pats text pre' p') : pre = pre' := by
  have hend : (pre ++ p).length = (pre' ++ p').length :=
    Nat.le_antisymm (h.first pre' p' h'.mem h'.found) (h'.first pre p h.mem h.found)
  have hlen : p.length = p'.length :=
    Nat.le_antisymm (h'.longest pre p h.mem h.found hend) (h.longest pre' p' h'.mem h'.found hend.symm)
  rw [List.length_append, List.length_append] at hend
  have hpre : pre <+: text := (List.prefix_append pre p).trans h.found
  have hpre' : pre' <+: text := (List.prefix_append pre' p').trans h'.found
  exact (List.prefix_of_prefix_length_le hpre hpre' (by omega)).eq_of_length (by omega)

/-- It stays when the text grows. -/
lemma FirstEnd.append {text pre p : List α} (h : FirstEnd pats text pre p) (more : List α) :
    FirstEnd pats (text ++ more) pre p := by
  have hback : ∀ pre' p', pre' ++ p' <+: text ++ more → (pre' ++ p').length ≤ (pre ++ p).length →
      pre' ++ p' <+: text := fun pre' p' hfound hle =>
    List.prefix_of_prefix_length_le hfound (List.prefix_append text more) (Nat.le_trans hle h.found.length_le)
  refine ⟨h.mem, h.found.trans (List.prefix_append _ _), fun pre' p' hp' hfound => ?_,
    fun pre' p' hp' hfound heq => h.longest pre' p' hp' (hback pre' p' hfound (Nat.le_of_eq heq)) heq⟩
  by_contra hlt
  exact hlt (h.first pre' p' hp' (hback pre' p' hfound (by omega)))

/-- A pattern that occurs has an occurrence that ends first. -/
lemma Occurs.firstEnd {text : List α} (h : Occurs pats text) : ∃ pre p, FirstEnd pats text pre p := by
  -- the least end, and the longest pattern there
  have hends : ∃ e pre p, p ∈ pats ∧ pre ++ p <+: text ∧ (pre ++ p).length = e := by
    obtain ⟨p, hp, pre, post, hsplit⟩ := h
    exact ⟨_, pre, p, hp, ⟨post, hsplit⟩, rfl⟩
  classical
  obtain ⟨pre₀, p₀, hp₀, hfound₀, he⟩ := Nat.find_spec hends
  have hbefore : ∃ k pre p, p ∈ pats ∧ pre ++ p <+: text ∧ (pre ++ p).length = Nat.find hends ∧
      pre.length = k := ⟨_, pre₀, p₀, hp₀, hfound₀, he, rfl⟩
  obtain ⟨pre, p, hp, hfound, hend, hk⟩ := Nat.find_spec hbefore
  refine ⟨pre, p, hp, hfound, fun pre' p' hp' hfound' => ?_, fun pre' p' hp' hfound' heq => ?_⟩
  · rw [hend]
    exact Nat.find_le ⟨pre', p', hp', hfound', rfl⟩
  · have hle : Nat.find hbefore ≤ pre'.length :=
      Nat.find_le ⟨pre', p', hp', hfound', heq.trans hend, rfl⟩
    rw [List.length_append, List.length_append] at heq
    omega

end Search
