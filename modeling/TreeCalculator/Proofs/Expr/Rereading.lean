import TreeCalculator.Expr.Exact
import TreeCalculator.Expr.Written
import TreeCalculator.Proofs.Stacks.Grouping
import TreeCalculator.Proofs.Text.Decimal
import TreeCalculator.Proofs.Token.Spelling

/-!
# Reading the infix form again

The infix form of a tree scans as a sentence with that tree, except that the `-` of a negative
literal is read as a sign: `explicitSigns` is the tree that comes back. That every pair of operators
has the parentheses it needs is `writes_operandForm`: an operand that stands bare binds tightly
enough for its side. The form holds spaces, so the statements are about the form without its blanks.
-/

namespace TreeCalculator.Expr

open Token (Category Phrase Writes)

variable {e l r x : Expr} {o : Operator} {form : Text}

/-! ## Negative literals -/

/-- The tree with the sign written out at every negative literal. -/
def explicitSigns : Expr → Expr
  | num (.ofNat n) => num n
  | num (.negSucc n) => unary .neg (num (n + 1))
  | unary op x => unary op x.explicitSigns
  | binary op l r => binary op l.explicitSigns r.explicitSigns

/-- No literal of the tree is negative. -/
def NonnegLiterals : Expr → Prop
  | num n => 0 ≤ n
  | unary _ x => x.NonnegLiterals
  | binary _ l r => l.NonnegLiterals ∧ r.NonnegLiterals

/-- Without negative literals there is no sign to write out. -/
theorem explicitSigns_eq_self (h : e.NonnegLiterals) : e.explicitSigns = e := by
  induction e with
  | num n =>
    obtain ⟨m, rfl⟩ := Int.eq_ofNat_of_zero_le h
    rfl
  | unary o x ih => rw [explicitSigns, ih h]
  | binary o l r ihl ihr => rw [explicitSigns, ihl h.1, ihr h.2]

/-- A negative literal and the sign of a positive one have the same exact value. -/
theorem exactValue?_explicitSigns (e : Expr) : e.explicitSigns.exactValue? = e.exactValue? := by
  induction e with
  | num n =>
    cases n with
    | ofNat n => rfl
    | negSucc n =>
      have hneg : -(((n + 1 : Int)) : Rat) = ((Int.negSucc n : Int) : Rat) := by
        rw [Int.negSucc_eq, Rat.intCast_neg]
      exact congrArg some hneg
  | unary o x ih => rw [explicitSigns, exactValue?, ih, exactValue?]
  | binary o l r ihl ihr => rw [explicitSigns, exactValue?, ihl, ihr, exactValue?]

/-! ## Operands and their sides -/

/-- The category of the infix form of the tree. -/
def category : Expr → Category
  | num _ | unary .. => .signed
  | binary op .. => .ofOperator op

/-- The category of the operands of an operator on the side. -/
def Side.category (o : Operator) : Side → Category
  | left => (Category.ofOperator o).left
  | right => (Category.ofOperator o).right

/-- An operator that needs no parentheses binds tightly enough for its side. -/
theorem precedence_le_of_needsParens {parent child : Operator} {side : Side}
    (hp : parent.isUnary = false) (h : needsParens parent child side = false) :
    (side.category parent).precedence ≤ (Category.ofOperator child).precedence := by
  simp only [needsParens, Bool.or_eq_false_iff, Bool.and_eq_false_iff, decide_eq_false_iff_not,
    beq_eq_false_iff_ne, Nat.not_lt] at h
  obtain ⟨⟨hle, hagainst⟩, hpow⟩ := h
  have hlt (hside : side = .againstGrouping parent) : parent.precedence < child.precedence := by
    rcases hagainst with hne | hne
    · exact Nat.lt_of_le_of_ne hle (Ne.symm hne)
    · exact absurd hside hne
  rw [Category.precedence_ofOperator]
  cases side with
  | left =>
    cases parent with
    | add | sub | mul | div => exact hle
    | pow => exact hlt rfl
    | neg => cases hp
  | right =>
    cases parent with
    | add | sub | mul | div => exact hlt rfl
    | pow =>
      -- the form gives every binary right operand of a power its parentheses
      rcases hpow with (hne | hne) | hchild
      · exact absurd rfl hne
      · exact absurd rfl hne
      · exact absurd hle hchild
    | neg => cases hp

/-- A tree stands as an operand in the form that its side asks for. -/
theorem writes_operandForm {parent : Operator} (side : Side) (hp : parent.isUnary = false)
    (h : Writes x.category form e) :
    Writes (side.category parent) (operandForm parent x side form) e := by
  have hsigned := Category.precedence_le_signed (side.category parent)
  cases x with
  | num n => exact h.loosen hsigned
  | unary o x => exact h.loosen hsigned
  | binary o l r =>
    rw [operandForm, isParenthesized]
    by_cases hparens : needsParens parent o side = true
    · rw [if_pos hparens]
      exact (h.loosen (Category.expr_precedence_le _)).paren.loosen hsigned
    · rw [if_neg hparens]
      exact h.loosen (precedence_le_of_needsParens hp (Bool.eq_false_iff.2 hparens))

/-- A tree stands after a sign as an operand of it. -/
theorem writes_signedForm (h : Writes x.category form e) :
    Writes .signed (signedForm x form) e := by
  cases x with
  | num n => exact h
  | unary o x => exact h
  | binary o l r => exact (h.loosen (Category.expr_precedence_le _)).paren

/-! ## Blanks -/

theorem withoutBlanks_operandForm (parent : Operator) (x : Expr) (side : Side) (form : Text) :
    (operandForm parent x side form).withoutBlanks =
      operandForm parent x side form.withoutBlanks := by
  unfold operandForm
  split
  · exact Text.withoutBlanks_parenthesize form
  · rfl

theorem withoutBlanks_signedForm (x : Expr) (form : Text) :
    (signedForm x form).withoutBlanks = signedForm x form.withoutBlanks := by
  cases x with
  | num n => rfl
  | unary o x => rfl
  | binary o l r => exact Text.withoutBlanks_parenthesize form

theorem withoutBlanks_infixForm_unary (o : Operator) (x : Expr) :
    (unary o x).infixForm.withoutBlanks =
      Text.parenthesize ('-' :: signedForm x x.infixForm.withoutBlanks) := by
  rw [infixForm, Text.withoutBlanks_parenthesize, Text.withoutBlanks_cons (by decide),
    withoutBlanks_signedForm]

/-- The spaces around the symbol of an operator are the only ones that it brings. -/
theorem withoutBlanks_between (o : Operator) (t u : Text) :
    Text.withoutBlanks (t ++ ' ' :: o.symbol :: ' ' :: u) =
      t.withoutBlanks ++ o.symbol :: u.withoutBlanks := by
  rw [Text.withoutBlanks_append, Text.withoutBlanks_cons_blank (by decide),
    Text.withoutBlanks_cons (Text.isBlank_symbol o), Text.withoutBlanks_cons_blank (by decide)]

theorem withoutBlanks_infixForm_binary (o : Operator) (l r : Expr) :
    (binary o l r).infixForm.withoutBlanks =
      operandForm o l .left l.infixForm.withoutBlanks ++
        o.symbol :: operandForm o r .right r.infixForm.withoutBlanks := by
  rw [infixForm, withoutBlanks_between, withoutBlanks_operandForm, withoutBlanks_operandForm]

/-! ## The whole form -/

/-- The digits of a number hold no blanks. -/
theorem withoutBlanks_ofNat (n : Nat) : (Text.ofNat n).withoutBlanks = Text.ofNat n :=
  Text.withoutBlanks_eq_self fun _ hc => Text.isBlank_of_isDigit (Text.isDigit_of_mem_ofNat hc)

/-- The digits of a number write it. -/
theorem writes_ofNat (n : Nat) : Writes .signed (Text.ofNat n).withoutBlanks (num n) := by
  have hnumeral : Writes .signed (Text.ofNat n)
      (num (Nat.ofDigitChars 10 (Text.ofNat n) 0 : Nat)) :=
    .numeral (Text.ofNat_ne_nil n) fun _ => Text.isDigit_of_mem_ofNat
  rw [Text.ofNat, Nat.ofDigitChars_ten_toDigits] at hnumeral
  rwa [withoutBlanks_ofNat]

/-- The infix form of a well-typed tree writes the tree with its signs written out. -/
theorem writes_infixForm (h : e.WellTyped) :
    Writes e.category e.infixForm.withoutBlanks e.explicitSigns := by
  induction e with
  | num n =>
    cases n with
    | ofNat n => exact writes_ofNat n
    | negSucc n =>
      rw [infixForm, Text.ofInt, Text.withoutBlanks_cons (by decide)]
      exact (writes_ofNat (n + 1)).sign
  | unary o x ih =>
    obtain ⟨ho, hx⟩ := h
    cases o with
    | neg =>
      rw [withoutBlanks_infixForm_unary]
      exact ((writes_signedForm (ih hx)).sign.loosen (by decide)).paren
    | add | sub | mul | div | pow => cases ho
  | binary o l r ihl ihr =>
    obtain ⟨ho, hl, hr⟩ := h
    rw [withoutBlanks_infixForm_binary]
    exact (writes_operandForm .left ho (ihl hl)).binary ho (writes_operandForm .right ho (ihr hr))

/-- The tree that a text writes is read from it, if the limit admits the tree. -/
theorem ofTokens_scan_of_writes {k : Category} {t : Text} (h : Writes k t.withoutBlanks e)
    (limit : Nat) : Expr.ofTokens limit (Token.scan t) =
      if e.height ≤ limit then .ok (some e) else .error (.nestingTooDeep limit) :=
  ofTokens_eq_of_phrase (h.loosen (Category.expr_precedence_le _)).phrase

/-- **The infix form is read again as the tree.** For every well-typed tree, the tokens of its infix
form have the tree back, with the sign written out at each negative literal, if the limit admits
it; the exact value is the same, and a tree without negative literals comes back unchanged. -/
theorem ofTokens_scan_infixForm (h : e.WellTyped) (limit : Nat) :
    Expr.ofTokens limit (Token.scan e.infixForm) =
      (if e.explicitSigns.height ≤ limit then .ok (some e.explicitSigns)
        else .error (.nestingTooDeep limit)) ∧
    e.explicitSigns.exactValue? = e.exactValue? ∧
    (e.NonnegLiterals → e.explicitSigns = e) := by
  have hphrase : Phrase .expr (Token.scan e.infixForm) e.explicitSigns :=
    ((writes_infixForm h).loosen (Category.expr_precedence_le _)).phrase
  exact ⟨ofTokens_eq_of_phrase hphrase, e.exactValue?_explicitSigns, explicitSigns_eq_self⟩

/-- `1 - -2 ^ (3 ^ 2)` is read with a sign for the negative literal, in a tree of four levels. -/
theorem ofTokens_scan_infixForm_power :
    let e : Expr := .binary .sub (.num 1)
      (.binary .pow (.num (-2)) (.binary .pow (.num 3) (.num 2)))
    let e' : Expr := .binary .sub (.num 1)
      (.binary .pow (.unary .neg (.num 2)) (.binary .pow (.num 3) (.num 2)))
    e.WellTyped ∧ Expr.ofTokens 4 (Token.scan e.infixForm) = .ok (some e') ∧
      Expr.ofTokens 3 (Token.scan e.infixForm) = .error (.nestingTooDeep 3) ∧
      e'.exactValue? = e.exactValue? := by
  intro e e'
  have htyped : e.WellTyped := ⟨rfl, trivial, rfl, trivial, rfl, trivial, trivial⟩
  have hsigns : e.explicitSigns = e' := rfl
  have hheight : e'.height = 4 := by simp [e']
  obtain ⟨hadmitted, hvalue, -⟩ := ofTokens_scan_infixForm htyped 4
  obtain ⟨hrefused, -⟩ := ofTokens_scan_infixForm htyped 3
  rw [hsigns, hheight] at hadmitted hrefused
  rw [hsigns] at hvalue
  exact ⟨htyped, hadmitted, hrefused, hvalue⟩

end TreeCalculator.Expr
