import Mathlib.Data.BitVec

/-!
# Fields of a word under a mask

A field of a word is given by the mask of its bits, of any width and shape.  Rewriting the field
and setting further bits leaves every other bit alone; an entry rewritten so holds the field it was
given; and of the bits outside a smaller field, those change in which the two words differ.

## Outline

1. Rewriting a field.
2. The bits that change.
-/

namespace Masks

variable {w : ℕ} (field keep set x e : BitVec w)

/-! ## Rewriting a field -/

/-- The word `e` with the bits of `field` taken from `x` and the bits of `set` set. -/
def rewrite : BitVec w := e &&& ~~~field ||| x &&& field ||| set

/-- `e` has a bit of `set`, and the bits of `field` as `x` has them. -/
def Holds : Prop := e &&& set ≠ 0 ∧ e &&& field = x &&& field

instance : Decidable (Holds field set x e) := inferInstanceAs (Decidable (_ ∧ _))

/-- The field of a rewritten word is the one given. -/
lemma rewrite_and_field {field set : BitVec w} (h : set &&& field = 0) :
    rewrite field set x e &&& field = x &&& field := by
  refine BitVec.eq_of_getLsbD_eq fun i hi => ?_
  have hi' : (set &&& field).getLsbD i = false := by rw [h]; exact BitVec.getLsbD_zero
  rw [BitVec.getLsbD_and] at hi'
  simp only [rewrite, BitVec.getLsbD_and, BitVec.getLsbD_or, BitVec.getLsbD_not, hi, decide_true,
    Bool.true_and]
  cases hf : field.getLsbD i <;> simp_all

/-- A rewritten word has every bit that was to be set. -/
lemma rewrite_and_set : rewrite field set x e &&& set = set := by
  refine BitVec.eq_of_getLsbD_eq fun i _ => ?_
  rw [BitVec.getLsbD_and, rewrite, BitVec.getLsbD_or, Bool.and_comm, Bool.or_comm,
    Bool.and_or_distrib_left, Bool.and_self]
  cases set.getLsbD i <;> rfl

/-- A rewritten word holds the field it was given. -/
lemma holds_rewrite {field set : BitVec w} (h : set &&& field = 0) (hset : set ≠ 0) :
    Holds field set x (rewrite field set x e) :=
  ⟨(rewrite_and_set field set x e).symm ▸ hset, rewrite_and_field x e h⟩

/-! ## The bits that change -/

/-- Outside the bits `keep` and `set`, rewriting a field changes those of its bits in which the two
words differ. -/
lemma xor_rewrite_and :
    (e ^^^ rewrite field set x e) &&& ~~~(keep ||| set) =
      (e ^^^ x) &&& (field &&& ~~~(keep ||| set)) := by
  refine BitVec.eq_of_getLsbD_eq fun i hi => ?_
  simp only [rewrite, BitVec.getLsbD_and, BitVec.getLsbD_or, BitVec.getLsbD_xor,
    BitVec.getLsbD_not, hi, decide_true, Bool.true_and]
  cases e.getLsbD i <;> cases x.getLsbD i <;> cases field.getLsbD i <;> cases keep.getLsbD i <;>
    cases set.getLsbD i <;> rfl

/-- Rewriting a field changes nothing but the field and the bits set. -/
lemma xor_rewrite_and_self : (e ^^^ rewrite field set x e) &&& ~~~(field ||| set) = 0 := by
  rw [xor_rewrite_and]
  refine BitVec.eq_of_getLsbD_eq fun i hi => ?_
  simp only [BitVec.getLsbD_and, BitVec.getLsbD_or, BitVec.getLsbD_not, hi,
    decide_true, Bool.true_and]
  cases field.getLsbD i <;> simp

end Masks
