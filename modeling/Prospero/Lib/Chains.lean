import Mathlib.Data.List.Nodup
import Mathlib.Tactic.Common

/-!
# Linked chains

A chain of nodes given by a successor function, `0` ending it.  `Linked next head l` says that the nodes
reached from `head` are those of `l`, in order.
-/

namespace Chains

variable {next next' : ℕ → ℕ} {head : ℕ} {l : List ℕ}

/-- From `head` the chain runs through `l` and ends. -/
def Linked (next : ℕ → ℕ) : ℕ → List ℕ → Prop
  | head, [] => head = 0
  | head, a :: l => head = a ∧ a ≠ 0 ∧ Linked next (next a) l

@[simp] lemma linked_nil : Linked next head [] ↔ head = 0 := Iff.rfl

@[simp] lemma linked_cons {a : ℕ} :
    Linked next head (a :: l) ↔ head = a ∧ a ≠ 0 ∧ Linked next (next a) l := Iff.rfl

/-- A chain depends on the successors of its nodes only. -/
lemma Linked.congr (h : Linked next head l) (hnext : ∀ a ∈ l, next a = next' a) :
    Linked next' head l := by
  induction l generalizing head with
  | nil => exact h
  | cons a l ih =>
    obtain ⟨hhead, hne, hrest⟩ := h
    refine ⟨hhead, hne, ?_⟩
    rw [← hnext a List.mem_cons_self]
    exact ih hrest fun b hb => hnext b (List.mem_cons_of_mem a hb)

/-- The head of a chain is null exactly when it is empty. -/
lemma Linked.head_eq_zero_iff (h : Linked next head l) : head = 0 ↔ l = [] := by
  cases l with
  | nil => simpa using h
  | cons a l => simp [h.1, h.2.1]

/-- The nodes of a chain are not null. -/
lemma Linked.ne_zero (h : Linked next head l) {a : ℕ} (ha : a ∈ l) : a ≠ 0 := by
  induction l generalizing head with
  | nil => cases ha
  | cons b l ih =>
    rcases List.mem_cons.mp ha with rfl | ha
    · exact h.2.1
    · exact ih h.2.2 ha

/-- The head of a chain is null or a node. -/
lemma Linked.head_mem (h : Linked next head l) : head = 0 ∨ head ∈ l := by
  cases l with
  | nil => exact Or.inl h
  | cons a l => exact Or.inr (h.1 ▸ List.mem_cons_self)

/-- Behind a node the rest of the chain follows. -/
lemma Linked.rest {a : ℕ} {pre post : List ℕ} (h : Linked next head (pre ++ a :: post)) :
    Linked next (next a) post := by
  induction pre generalizing head with
  | nil => exact h.2.2
  | cons c pre ih => exact ih h.2.2

/-- **Unlinking.**  When a node points past its successor, the successor has left the chain. -/
theorem Linked.unlink {a c : ℕ} {pre post : List ℕ} (h : Linked next head (pre ++ c :: a :: post))
    (hnodup : (pre ++ c :: a :: post).Nodup) (hc : next' c = next a)
    (hother : ∀ d ∈ pre ++ c :: a :: post, d ≠ c → next' d = next d) :
    Linked next' head (pre ++ c :: post) := by
  induction pre generalizing head with
  | nil =>
    obtain ⟨hhead, hne, hrest⟩ := h
    have hnotin : c ∉ a :: post := (List.nodup_cons.mp hnodup).1
    refine ⟨hhead, hne, ?_⟩
    rw [hc]
    refine hrest.2.2.congr fun d hd => (hother d ?_ ?_).symm
    · exact List.mem_cons_of_mem _ (List.mem_cons_of_mem _ hd)
    · rintro rfl
      exact hnotin (List.mem_cons_of_mem _ hd)
  | cons e pre ih =>
    obtain ⟨hhead, hne, hrest⟩ := h
    have hec : e ≠ c := by
      rintro rfl
      exact (List.nodup_cons.mp hnodup).1 (List.mem_append_right _ List.mem_cons_self)
    refine ⟨hhead, hne, ?_⟩
    rw [hother e List.mem_cons_self hec]
    exact ih hrest (List.nodup_cons.mp hnodup).2 fun d hd => hother d (List.mem_cons_of_mem _ hd)

end Chains
