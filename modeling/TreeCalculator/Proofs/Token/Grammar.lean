import TreeCalculator.Expr.Basic
import TreeCalculator.Token.Basic

/-!
# The grammar of token lists

`Phrase k ts e` says that the tokens `ts` are a phrase of the category `k` and that `e` is its
tree. The categories fix the grouping: `+ - * /` to the left, `^` to the right, and the sign more
tightly than all of them. Parentheses leave no node.

`Phrase.binary` states the three rules for an operator between two operands as one.
`Phrase.exists_append` says that a phrase may be continued by an operator and an operand, and
`Phrase.exists_prepend` that it may be preceded by them: the grouping decides what the tree is,
never whether there is one.
-/

namespace TreeCalculator.Token

/-- The categories of phrases, from the loosest to the tightest. -/
inductive Category where
  | expr
  | term
  | factor
  | signed
  deriving DecidableEq

namespace Category

/-- The precedence of the operators that may stand at the top of a phrase of the category. -/
def precedence : Category → Nat
  | expr => 1
  | term => 2
  | factor => 3
  | signed => 4

/-- The category of the left operand of the category's own operators. -/
def left : Category → Category
  | expr => expr
  | term => term
  | factor | signed => signed

/-- The category of the right operand of the category's own operators. -/
def right : Category → Category
  | expr => term
  | term | factor => factor
  | signed => signed

/-- The category of the phrases with the operator at their top. -/
def ofOperator : Operator → Category
  | .add | .sub => expr
  | .mul | .div => term
  | .pow => factor
  | .neg => signed

theorem expr_precedence_le (k : Category) : expr.precedence ≤ k.precedence := by
  cases k <;> decide

theorem precedence_le_signed (k : Category) : k.precedence ≤ signed.precedence := by
  cases k <;> decide

theorem precedence_le_left (k : Category) : k.precedence ≤ k.left.precedence := by
  cases k <;> decide

theorem precedence_le_right (k : Category) : k.precedence ≤ k.right.precedence := by
  cases k <;> decide

/-- Categories and operators count precedence alike. -/
theorem precedence_ofOperator (o : Operator) : (ofOperator o).precedence = o.precedence := by
  cases o <;> rfl

end Category

/-- `Phrase k ts e`: the tokens `ts` are a phrase of the category `k`, with the tree `e`. -/
inductive Phrase : Category → List Token → Expr → Prop where
  /-- `Expr ::= Term`. -/
  | ofTerm {ts : List Token} {e : Expr} : Phrase .term ts e → Phrase .expr ts e
  /-- `Expr ::= Expr (+ | -) Term`. -/
  | sum {ts us : List Token} {o : Operator} {l r : Expr} : o = .add ∨ o = .sub →
      Phrase .expr ts l → Phrase .term us r → Phrase .expr (ts ++ .op o :: us) (.binary o l r)
  /-- `Term ::= Factor`. -/
  | ofFactor {ts : List Token} {e : Expr} : Phrase .factor ts e → Phrase .term ts e
  /-- `Term ::= Term (* | /) Factor`. -/
  | product {ts us : List Token} {o : Operator} {l r : Expr} : o = .mul ∨ o = .div →
      Phrase .term ts l → Phrase .factor us r → Phrase .term (ts ++ .op o :: us) (.binary o l r)
  /-- `Factor ::= Signed`. -/
  | ofSigned {ts : List Token} {e : Expr} : Phrase .signed ts e → Phrase .factor ts e
  /-- `Factor ::= Signed ^ Factor`. -/
  | power {ts us : List Token} {l r : Expr} : Phrase .signed ts l → Phrase .factor us r →
      Phrase .factor (ts ++ .op .pow :: us) (.binary .pow l r)
  /-- `Signed ::= sign Signed`. -/
  | sign {ts : List Token} {e : Expr} : Phrase .signed ts e →
      Phrase .signed (.op .neg :: ts) (.unary .neg e)
  /-- `Signed ::= number`. -/
  | num (n : Int) : Phrase .signed [.num n] (.num n)
  /-- `Signed ::= ( Expr )`. -/
  | paren {ts : List Token} {e : Expr} : Phrase .expr ts e →
      Phrase .signed (.lparen :: (ts ++ [.rparen])) e

namespace Phrase

variable {k k' : Category} {ts us : List Token} {e l r x : Expr} {o : Operator}

/-- A phrase of a tight category is one of every looser category. -/
theorem loosen : ∀ {k k' : Category}, k'.precedence ≤ k.precedence →
    Phrase k ts e → Phrase k' ts e
  | .expr, .expr, _, h | .term, .term, _, h | .factor, .factor, _, h | .signed, .signed, _, h => h
  | .term, .expr, _, h => .ofTerm h
  | .factor, .expr, _, h => .ofTerm (.ofFactor h)
  | .signed, .expr, _, h => .ofTerm (.ofFactor (.ofSigned h))
  | .factor, .term, _, h => .ofFactor h
  | .signed, .term, _, h => .ofFactor (.ofSigned h)
  | .signed, .factor, _, h => .ofSigned h
  | .expr, .term, hk, _ | .expr, .factor, hk, _ | .expr, .signed, hk, _
  | .term, .factor, hk, _ | .term, .signed, hk, _ | .factor, .signed, hk, _ =>
    absurd hk (by decide)

/-- The rules for an operator between two operands. -/
theorem binary (ho : o.isUnary = false) (hl : Phrase (Category.ofOperator o).left ts l)
    (hr : Phrase (Category.ofOperator o).right us r) :
    Phrase (.ofOperator o) (ts ++ .op o :: us) (.binary o l r) := by
  cases o with
  | add => exact .sum (.inl rfl) hl hr
  | sub => exact .sum (.inr rfl) hl hr
  | mul => exact .product (.inl rfl) hl hr
  | div => exact .product (.inr rfl) hl hr
  | pow => exact .power hl hr
  | neg => cases ho

/-- The tree of a phrase has the sign at its nodes with one operand, and only there. -/
theorem wellTyped (h : Phrase k ts e) : e.WellTyped := by
  induction h with
  | ofTerm _ ih | ofFactor _ ih | ofSigned _ ih | paren _ ih => exact ih
  | sum ho _ _ ihl ihr | product ho _ _ ihl ihr =>
    rcases ho with rfl | rfl <;> exact ⟨rfl, ihl, ihr⟩
  | power _ _ ihl ihr => exact ⟨rfl, ihl, ihr⟩
  | sign _ ih => exact ⟨rfl, ih⟩
  | num n => trivial

/-- A phrase followed by an operator of its own category, or of a tighter one, and by an operand
is a phrase of the category again: the operator joins the operand to the last operand of the
phrase that its precedence lets it reach. -/
theorem exists_append (h : Phrase k ts e) (ho : o.isUnary = false)
    (hk : k.precedence ≤ (Category.ofOperator o).precedence)
    (hx : Phrase (Category.ofOperator o).right us x) :
    ∃ e', Phrase k (ts ++ .op o :: us) e' := by
  induction h with
  | ofTerm ht ih =>
    cases o with
    | add | sub => exact ⟨_, .sum (by decide) (.ofTerm ht) hx⟩
    | mul | div | pow =>
      obtain ⟨e', he'⟩ := ih (by decide)
      exact ⟨e', .ofTerm he'⟩
    | neg => cases ho
  | sum hs hl hr _ ihr =>
    cases o with
    | add | sub => exact ⟨_, .sum (by decide) (.sum hs hl hr) hx⟩
    | mul | div | pow =>
      obtain ⟨e', he'⟩ := ihr (by decide)
      rw [List.append_assoc, List.cons_append]
      exact ⟨_, .sum hs hl he'⟩
    | neg => cases ho
  | ofFactor hf ih =>
    cases o with
    | mul | div => exact ⟨_, .product (by decide) (.ofFactor hf) hx⟩
    | pow =>
      obtain ⟨e', he'⟩ := ih (by decide)
      exact ⟨e', .ofFactor he'⟩
    | add | sub => exact absurd hk (by decide)
    | neg => cases ho
  | product hp hl hr _ ihr =>
    cases o with
    | mul | div => exact ⟨_, .product (by decide) (.product hp hl hr) hx⟩
    | pow =>
      obtain ⟨e', he'⟩ := ihr (by decide)
      rw [List.append_assoc, List.cons_append]
      exact ⟨_, .product hp hl he'⟩
    | add | sub => exact absurd hk (by decide)
    | neg => cases ho
  | ofSigned hs _ =>
    cases o with
    | pow => exact ⟨_, .power hs hx⟩
    | add | sub | mul | div => exact absurd hk (by decide)
    | neg => cases ho
  | power hl hr _ ihr =>
    -- the right operand is a factor too, so the operator goes on with it
    obtain ⟨e', he'⟩ := ihr hk
    rw [List.append_assoc, List.cons_append]
    exact ⟨_, .power hl he'⟩
  | sign _ _ | num _ | paren _ _ =>
    cases o with
    | add | sub | mul | div | pow => exact absurd hk (by decide)
    | neg => cases ho

/-- In the same way an operand and an operator may stand before a phrase: the operator joins the
operand to the first operand of the phrase that its precedence lets it reach. -/
theorem exists_prepend (h : Phrase k ts e) (ho : o.isUnary = false)
    (hk : k.precedence ≤ (Category.ofOperator o).precedence)
    (hx : Phrase (Category.ofOperator o).left us x) :
    ∃ e', Phrase k (us ++ .op o :: ts) e' := by
  induction h with
  | ofTerm ht ih =>
    cases o with
    | add | sub => exact ⟨_, .sum (by decide) hx ht⟩
    | mul | div | pow =>
      obtain ⟨e', he'⟩ := ih (by decide)
      exact ⟨e', .ofTerm he'⟩
    | neg => cases ho
  | sum hs _ hr ihl _ =>
    obtain ⟨e', he'⟩ := ihl hk
    rw [← List.cons_append, ← List.append_assoc]
    exact ⟨_, .sum hs he' hr⟩
  | ofFactor hf ih =>
    cases o with
    | mul | div => exact ⟨_, .product (by decide) hx hf⟩
    | pow =>
      obtain ⟨e', he'⟩ := ih (by decide)
      exact ⟨e', .ofFactor he'⟩
    | add | sub => exact absurd hk (by decide)
    | neg => cases ho
  | product hp _ hr ihl _ =>
    obtain ⟨e', he'⟩ := ihl hk
    rw [← List.cons_append, ← List.append_assoc]
    exact ⟨_, .product hp he' hr⟩
  | ofSigned hs _ =>
    cases o with
    | pow => exact ⟨_, .power hx (.ofSigned hs)⟩
    | add | sub | mul | div => exact absurd hk (by decide)
    | neg => cases ho
  | power hl hr =>
    cases o with
    | pow => exact ⟨_, .power hx (.power hl hr)⟩
    | add | sub | mul | div => exact absurd hk (by decide)
    | neg => cases ho
  | sign _ _ | num _ | paren _ _ =>
    cases o with
    | add | sub | mul | div | pow => exact absurd hk (by decide)
    | neg => cases ho

end Phrase

end TreeCalculator.Token
