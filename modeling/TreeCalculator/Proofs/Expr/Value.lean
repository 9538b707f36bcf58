import TreeCalculator.Expr.Value

/-!
# Errors of evaluation

Floats have a value for everything but a quotient by zero, so a tree whose nodes have the right
arity fails for that reason only.
-/

namespace TreeCalculator.Expr

variable {e : Expr} {x : CalcError}

/-- A well-typed tree without a value divides by zero. -/
theorem WellTyped.value_error (h : e.WellTyped) (hx : e.value = .error x) :
    x = .divisionByZero := by
  induction e with
  | num n => cases hx
  | unary o e ih =>
    obtain ⟨ho, he⟩ := h
    cases o with
    | neg =>
      rcases CalcError.error_of_bind hx with hx | ⟨v, -, hx⟩
      · exact ih he hx
      · cases hx
    | add | sub | mul | div | pow => cases ho
  | binary o l r ihl ihr =>
    obtain ⟨ho, hl, hr⟩ := h
    rcases CalcError.error_of_bind hx with hx | ⟨a, -, hx⟩
    · exact ihl hl hx
    rcases CalcError.error_of_bind hx with hx | ⟨b, -, hx⟩
    · exact ihr hr hx
    cases o with
    | add | sub | mul | pow => cases hx
    | div =>
      dsimp only at hx
      split at hx
      · cases hx
        rfl
      · cases hx
    | neg => cases ho

end TreeCalculator.Expr
