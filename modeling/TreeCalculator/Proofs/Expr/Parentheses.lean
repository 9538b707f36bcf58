import TreeCalculator.Proofs.Expr.Rereading

/-!
# Which parentheses the infix form needs

An operand that is itself an operator between two operands stands in parentheses only if it would be
read otherwise without them. There is one exception: the right operand of a power is put in
parentheses although powers group to the right anyway.

`bareForm` is the infix form with those parentheses left out on one side. If they were needed, the
text is still a sentence, but the outer operator takes no more than the nearest operand of the inner
one, and the inner operator becomes the root of the tree (`exists_writes_left`,
`exists_writes_right`). So the tree is another one (`exists_writes_bareForm`).
-/

namespace TreeCalculator.Expr

open Token (Category Phrase Writes)

variable {e l r a b : Expr} {o c : Operator} {side : Side} {f g h : Text} {limit : Nat}

/-- Of the operands of an operator, the one on the side. -/
def Side.operand (l r : Expr) : Side → Expr
  | left => l
  | right => r

/-- The infix form of an operator between two operands, without parentheses around the operand on
the side. -/
def bareForm (o : Operator) (l r : Expr) : Side → Text
  | .left => l.infixForm ++ ' ' :: o.symbol :: ' ' :: operandForm o r .right r.infixForm
  | .right => operandForm o l .left l.infixForm ++ ' ' :: o.symbol :: ' ' :: r.infixForm

/-! ## Parentheses that make no difference -/

/-- The infix form of a tree without negative literals writes the tree itself. -/
theorem NonnegLiterals.writes_infixForm (hn : e.NonnegLiterals) (he : e.WellTyped) :
    Writes e.category e.infixForm.withoutBlanks e := by
  have hwrites := Expr.writes_infixForm he
  rwa [explicitSigns_eq_self hn] at hwrites

theorem operandForm_of_not_parenthesized (h : isParenthesized o e side = false) (form : Text) :
    operandForm o e side form = form := by
  rw [operandForm, h]
  rfl

/-- Where the infix form has no parentheses, none can be left out. -/
theorem bareForm_eq_infixForm (h : isParenthesized o (side.operand l r) side = false) :
    bareForm o l r side = (binary o l r).infixForm := by
  cases side with
  | left => rw [infixForm, operandForm_of_not_parenthesized (e := l) h, bareForm]
  | right => rw [infixForm, operandForm_of_not_parenthesized (e := r) h, bareForm]

/-- A power groups to the right also without parentheses. -/
theorem writes_bareForm_pow (h : (binary .pow l (binary .pow a b)).WellTyped)
    (hn : (binary .pow l (binary .pow a b)).NonnegLiterals) :
    Writes .factor (bareForm .pow l (binary .pow a b) .right).withoutBlanks
      (binary .pow l (binary .pow a b)) := by
  obtain ⟨ho, hl, hr⟩ := h
  rw [bareForm, withoutBlanks_between, withoutBlanks_operandForm]
  exact Writes.binary (o := .pow) (writes_operandForm .left ho (hn.1.writes_infixForm hl)) ho
    (hn.2.writes_infixForm hr)

/-! ## Parentheses that are needed -/

/-- If its left operand needs parentheses, an operator binds at least as tightly as the right
operand of that operand. -/
theorem right_precedence_le (hc : c.isUnary = false) (h : needsParens o c .left = true) :
    (Category.ofOperator c).right.precedence ≤ (Category.ofOperator o).precedence := by
  cases c with
  | add | sub =>
    cases o with
    | add | sub => cases h
    | mul | div | pow | neg => decide
  | mul | div | pow =>
    cases o with
    | add | sub | mul | div => cases h
    | pow | neg => decide
  | neg => cases hc

/-- If its right operand needs parentheses, an operator binds at least as tightly as the left
operand of that operand, unless both are powers. -/
theorem left_precedence_le (hc : c.isUnary = false) (h : needsParens o c .right = true)
    (hpow : ¬ (o = .pow ∧ c = .pow)) :
    (Category.ofOperator c).left.precedence ≤ (Category.ofOperator o).precedence := by
  cases c with
  | add | sub => exact Category.expr_precedence_le _
  | mul | div =>
    cases o with
    | add | sub => cases h
    | mul | div | pow | neg => decide
  | pow =>
    cases o with
    | add | sub | mul | div => cases h
    | pow => exact absurd ⟨rfl, rfl⟩ hpow
    | neg => decide
  | neg => cases hc

/-- An operator after an operator that binds less tightly takes from it its right operand. -/
theorem exists_writes_left (ho : o.isUnary = false) (hc : c.isUnary = false)
    (hparens : needsParens o c .left = true) (ha : Writes (Side.left.category c) f a)
    (hb : Writes (Side.right.category c) g b) (hr : Writes (Side.right.category o) h r) :
    ∃ b', Writes .expr ((f ++ c.symbol :: g) ++ o.symbol :: h) (binary c a b') := by
  obtain ⟨b', hb'⟩ := hb.exists_append ho (right_precedence_le hc hparens) hr
  rw [List.append_assoc, List.cons_append]
  exact ⟨b', (ha.binary hc hb').loosen (Category.expr_precedence_le _)⟩

/-- An operator before an operator that does not bind more tightly takes from it its left
operand. -/
theorem exists_writes_right (ho : o.isUnary = false) (hc : c.isUnary = false)
    (hparens : needsParens o c .right = true) (hpow : ¬ (o = .pow ∧ c = .pow))
    (hl : Writes (Side.left.category o) f l) (ha : Writes (Side.left.category c) g a)
    (hb : Writes (Side.right.category c) h b) :
    ∃ a', Writes .expr (f ++ o.symbol :: (g ++ c.symbol :: h)) (binary c a' b) := by
  obtain ⟨a', ha'⟩ := ha.exists_prepend ho (left_precedence_le hc hparens hpow) hl
  rw [← List.cons_append, ← List.append_assoc]
  exact ⟨a', (ha'.binary hc hb).loosen (Category.expr_precedence_le _)⟩

/-- Without parentheses that are needed, another tree is written. -/
theorem exists_writes_bareForm (h : (binary o l r).WellTyped)
    (hn : (binary o l r).NonnegLiterals) (hoperand : side.operand l r = binary c a b)
    (hparens : needsParens o c side = true) (hpow : ¬ (o = .pow ∧ c = .pow ∧ side = .right)) :
    ∃ e, e ≠ binary o l r ∧ Writes .expr (bareForm o l r side).withoutBlanks e := by
  obtain ⟨ho, hl, hr⟩ := h
  obtain ⟨hnl, hnr⟩ := hn
  cases side with
  | left =>
    obtain rfl : l = binary c a b := hoperand
    obtain ⟨hc, ha, hb⟩ := hl
    obtain ⟨b', hwrites⟩ := exists_writes_left ho hc hparens
      (writes_operandForm .left hc (hnl.1.writes_infixForm ha))
      (writes_operandForm .right hc (hnl.2.writes_infixForm hb))
      (writes_operandForm .right ho (hnr.writes_infixForm hr))
    refine ⟨binary c a b', ?_, ?_⟩
    · -- `a` would be the whole left operand, of which it is a part
      rintro ⟨⟩
    · rwa [bareForm, withoutBlanks_between, withoutBlanks_infixForm_binary,
        withoutBlanks_operandForm]
  | right =>
    obtain rfl : r = binary c a b := hoperand
    obtain ⟨hc, ha, hb⟩ := hr
    obtain ⟨a', hwrites⟩ := exists_writes_right ho hc hparens (fun hp => hpow ⟨hp.1, hp.2, rfl⟩)
      (writes_operandForm .left ho (hnl.writes_infixForm hl))
      (writes_operandForm .left hc (hnr.1.writes_infixForm ha))
      (writes_operandForm .right hc (hnr.2.writes_infixForm hb))
    refine ⟨binary c a' b, ?_, ?_⟩
    · -- `b` would be the whole right operand, of which it is a part
      rintro ⟨⟩
    · rwa [bareForm, withoutBlanks_between, withoutBlanks_infixForm_binary,
        withoutBlanks_operandForm]

/-- **Parentheses stand where they are needed.** Take a well-typed tree without negative literals,
with an operator between two operands at its root, and write one of the operands, if it has such a
root too, without parentheses around it. Under a limit that admits the tree, the tree is read again
exactly if the infix form has no parentheses there, or both operators are powers and the operand is
the right one. -/
theorem ofTokens_scan_bareForm (h : (binary o l r).WellTyped)
    (hn : (binary o l r).NonnegLiterals) (hlimit : (binary o l r).height ≤ limit)
    (hoperand : side.operand l r = binary c a b) :
    Expr.ofTokens limit (Token.scan (bareForm o l r side)) = .ok (some (binary o l r)) ↔
      isParenthesized o (side.operand l r) side = false ∨
        (o = .pow ∧ c = .pow ∧ side = .right) := by
  have hread {k : Category}
      (hwrites : Writes k (bareForm o l r side).withoutBlanks (binary o l r)) :
      Expr.ofTokens limit (Token.scan (bareForm o l r side)) = .ok (some (binary o l r)) := by
    rw [ofTokens_scan_of_writes hwrites, if_pos hlimit]
  constructor
  · intro hsame
    refine Classical.byContradiction fun hneeded => ?_
    rw [not_or, Bool.not_eq_false, hoperand] at hneeded
    obtain ⟨e, hne, hwrites⟩ := exists_writes_bareForm h hn hoperand hneeded.1 hneeded.2
    rw [ofTokens_scan_of_writes hwrites] at hsame
    split at hsame
    · cases hsame
      exact hne rfl
    · cases hsame
  · rintro (hplain | ⟨rfl, rfl, rfl⟩)
    · have hwrites := hn.writes_infixForm h
      rw [← bareForm_eq_infixForm hplain] at hwrites
      exact hread hwrites
    · obtain rfl : r = binary .pow a b := hoperand
      exact hread (writes_bareForm_pow h hn)

/-- `8 - (3 - 2)` needs its parentheses: `8 - 3 - 2` is another tree. `2 ^ (3 ^ 2)` does not,
although it has them. -/
theorem ofTokens_scan_bareForm_chains :
    let difference : Expr := binary .sub (num 8) (binary .sub (num 3) (num 2))
    let power : Expr := binary .pow (num 2) (binary .pow (num 3) (num 2))
    difference.infixForm = ['8', ' ', '-', ' ', '(', '3', ' ', '-', ' ', '2', ')'] ∧
      Expr.ofTokens 3 (Token.scan ['8', ' ', '-', ' ', '3', ' ', '-', ' ', '2']) ≠
        .ok (some difference) ∧
      power.infixForm = ['2', ' ', '^', ' ', '(', '3', ' ', '^', ' ', '2', ')'] ∧
      Expr.ofTokens 3 (Token.scan ['2', ' ', '^', ' ', '3', ' ', '^', ' ', '2']) =
        .ok (some power) := by
  intro difference power
  have hdifference : Expr.ofTokens 3 (Token.scan (bareForm .sub (num 8)
      (binary .sub (num 3) (num 2)) .right)) ≠ .ok (some difference) := by
    intro hsame
    rcases (ofTokens_scan_bareForm (by simp [WellTyped, Operator.isUnary])
      (by simp [NonnegLiterals]) (by simp) rfl).1 hsame with hplain | ⟨hpow, -⟩
    · cases hplain
    · cases hpow
  have hpower : Expr.ofTokens 3 (Token.scan (bareForm .pow (num 2)
      (binary .pow (num 3) (num 2)) .right)) = .ok (some power) :=
    (ofTokens_scan_bareForm (by simp [WellTyped, Operator.isUnary])
      (by simp [NonnegLiterals]) (by simp) rfl).2 (.inr ⟨rfl, rfl, rfl⟩)
  exact ⟨rfl, hdifference, rfl, hpower⟩

end TreeCalculator.Expr
