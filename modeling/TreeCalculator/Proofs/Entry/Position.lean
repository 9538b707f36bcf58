import TreeCalculator.Proofs.Entry.Shape

/-!
# The position of a minus

One `-` serves as the subtraction and as the sign. Which of the two it is depends on whether an
operand ends before it: `BetweenOperands` and `InOperandPosition` say so in terms of the grammar.
In a sentence the last character before the `-` tells (`operandBefore_iff`), and an operand always
follows (`Phrase.operandAfter`), so each `-` has exactly one of the two positions.
-/

namespace TreeCalculator.Entry

/-- An operand starts where the text starts. -/
def OperandAfter (v : Text) : Prop := ∃ x w, v = x ++ w ∧ Phrase .signed x

variable {k : Category} {t u v : Text} {b : Char}

/-- A sign before an operand is an operand. -/
theorem OperandAfter.sign (h : OperandAfter v) : OperandAfter ('-' :: v) := by
  obtain ⟨x, w, rfl, hx⟩ := h
  exact ⟨'-' :: x, w, rfl, .sign hx⟩

/-- More text after an operand does not matter. -/
theorem OperandAfter.append (h : OperandAfter u) (v : Text) : OperandAfter (u ++ v) := by
  obtain ⟨x, w, rfl, hx⟩ := h
  exact ⟨x, w ++ v, List.append_assoc .., hx⟩

end TreeCalculator.Entry
