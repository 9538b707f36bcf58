import TreeCalculator.Proofs.Analysis
import TreeCalculator.Proofs.Expr.Rereading

/-!
# The infix form as an entry

The infix form of a tree is an entry again. It holds allowed characters only and has the shape of a
sentence, whatever the tree (`isAllowed_of_mem_infixForm`, `shape_infixForm`), so the one rule that
it can break is the one against a number alone. `fault?_infixForm` says for which trees it does: for
literals and for the sign of a literal. Such a tree can come from an accepted entry, `((5))` or
`-(5)` for instance.

Everywhere else, analysing the infix form of a result gives the result again. The tree of a result
has no negative literals, since the scanner makes none, and so comes back unchanged.
-/

namespace TreeCalculator

variable {k : Token.Category} {ts : List Token} {e : Expr}

/-! ## Trees without negative literals -/

/-- The literals of the tree of a phrase are the numbers among its tokens. -/
theorem Token.Phrase.nonnegLiterals (h : Token.Phrase k ts e)
    (hts : ∀ n, Token.num n ∈ ts → 0 ≤ n) : e.NonnegLiterals := by
  induction h with
  | ofTerm _ ih | ofFactor _ ih | ofSigned _ ih => exact ih hts
  | sum _ _ _ ihl ihr | product _ _ _ ihl ihr | power _ _ ihl ihr =>
    exact ⟨ihl fun n hn => hts n (by simp [hn]), ihr fun n hn => hts n (by simp [hn])⟩
  | sign _ ih => exact ih fun n hn => hts n (by simp [hn])
  | num n => exact hts n (by simp)
  | paren _ ih => exact ih fun n hn => hts n (by simp [hn])

/-! ## Characters and shape of the infix form -/

namespace Expr

variable {parent o : Operator} {x : Expr} {side : Side} {form : Text}

/-- What parentheses keep, an operand keeps in the form that its side asks for. -/
theorem operandForm_keeps {P : Text → Prop} (hP : ∀ t, P t → P (Text.parenthesize t))
    (h : P form) : P (operandForm parent x side form) := by
  unfold operandForm
  split
  · exact hP form h
  · exact h

/-- What parentheses keep, the operand of a sign keeps. -/
theorem signedForm_keeps {P : Text → Prop} (hP : ∀ t, P t → P (Text.parenthesize t))
    (h : P form) : P (signedForm x form) := by
  cases x with
  | num n => exact h
  | unary o x => exact h
  | binary o l r => exact hP form h

/-- The decimal digits of a number are a numeral. -/
theorem isNumeral_ofNat (n : Nat) : Entry.IsNumeral (Text.ofNat n) :=
  ⟨Text.ofNat_ne_nil n, fun _ => Text.isDigit_of_mem_ofNat⟩

theorem withoutBlanks_infixForm_ofNat (n : Nat) :
    (num (.ofNat n)).infixForm.withoutBlanks = Text.ofNat n := withoutBlanks_ofNat n

theorem withoutBlanks_infixForm_negSucc (n : Nat) :
    (num (.negSucc n)).infixForm.withoutBlanks = '-' :: Text.ofNat (n + 1) := by
  rw [infixForm, Text.ofInt, Text.withoutBlanks_cons (by decide), withoutBlanks_ofNat]

/-- The infix form holds allowed characters only. -/
theorem isAllowed_of_mem_infixForm (e : Expr) : ∀ c ∈ e.infixForm, Entry.isAllowed c = true := by
  have hparens (t : Text) (ht : ∀ c ∈ t, Entry.isAllowed c = true) :
      ∀ c ∈ Text.parenthesize t, Entry.isAllowed c = true := by
    intro c hc
    simp only [Text.parenthesize, List.mem_cons, List.mem_append, List.not_mem_nil,
      or_false] at hc
    rcases hc with rfl | hc | rfl
    · decide
    · exact ht c hc
    · decide
  induction e with
  | num n =>
    have hdigits (m : Nat) : ∀ c ∈ Text.ofNat m, Entry.isAllowed c = true := fun c hc =>
      Entry.isAllowed_iff.2 (.inl ((isNumeral_ofNat m).2 c hc))
    cases n with
    | ofNat m => exact hdigits m
    | negSucc m => exact List.forall_mem_cons.2 ⟨by decide, hdigits (m + 1)⟩
  | unary o x ih =>
    exact hparens _ (List.forall_mem_cons.2 ⟨by decide, signedForm_keeps hparens ih⟩)
  | binary o l r ihl ihr =>
    have hsymbol : Entry.isAllowed o.symbol = true := by cases o <;> decide
    rw [infixForm, List.forall_mem_append]
    simp only [List.forall_mem_cons]
    exact ⟨operandForm_keeps hparens ihl, by decide, hsymbol, by decide,
      operandForm_keeps hparens ihr⟩

/-- The spaces of the infix form are its blanks. -/
theorem withoutSpaces_infixForm (e : Expr) :
    e.infixForm.withoutSpaces = e.infixForm.withoutBlanks :=
  (Entry.withoutBlanks_eq e.isAllowed_of_mem_infixForm).symm

/-- The infix form has the shape of a sentence. -/
theorem shape_infixForm (e : Expr) : Entry.Shape e.infixForm.withoutBlanks := by
  have hparens (t : Text) (ht : Entry.Shape t) : Entry.Shape (Text.parenthesize t) := ht.paren
  induction e with
  | num n =>
    cases n with
    | ofNat m =>
      rw [withoutBlanks_infixForm_ofNat]
      exact .numeral (isNumeral_ofNat m)
    | negSucc m =>
      rw [withoutBlanks_infixForm_negSucc]
      exact (Entry.Shape.numeral (isNumeral_ofNat (m + 1))).sign
  | unary o x ih =>
    rw [withoutBlanks_infixForm_unary]
    exact (signedForm_keeps hparens ih).sign.paren
  | binary o l r ihl ihr =>
    rw [withoutBlanks_infixForm_binary]
    exact (operandForm_keeps hparens ihl).binary (Entry.isSymbol_symbol o)
      (operandForm_keeps hparens ihr)

/-! ## Numbers alone -/

/-- Whether the infix form of the tree is a number alone, apart from parentheses: the tree is a
literal, or the sign of one that has none. -/
def isBareNumber : Expr → Bool
  | num _ => true
  | unary _ (num n) => 0 ≤ n
  | unary .. | binary .. => false

theorem isBareNumber_eq_true_iff (h : e.WellTyped) : e.isBareNumber = true ↔
    (∃ n, e = num n) ∨ ∃ n, 0 ≤ n ∧ e = unary .neg (num n) := by
  cases e with
  | num n => simp [isBareNumber]
  | unary o x =>
    obtain rfl := Operator.eq_neg_of_isUnary h.1
    cases x <;> simp [isBareNumber]
  | binary o l r => simp [isBareNumber]

/-- Where no literal is negative, the sign of any literal is a number alone. -/
theorem NonnegLiterals.isBareNumber_eq_true_iff (h : e.NonnegLiterals) (ht : e.WellTyped) :
    e.isBareNumber = true ↔ (∃ n, e = num n) ∨ ∃ n, e = unary .neg (num n) := by
  rw [Expr.isBareNumber_eq_true_iff ht]
  refine or_congr_right (exists_congr fun n => and_iff_right_of_imp ?_)
  rintro rfl
  exact h

/-- The operand of a sign is written as a numeral exactly if it is a literal without a sign. -/
theorem isNumeral_signedForm_iff : Entry.IsNumeral (signedForm x x.infixForm.withoutBlanks) ↔
    ∃ n, 0 ≤ n ∧ x = num n := by
  have hopen {t : Text} : ¬ Entry.IsNumeral ('(' :: t) := fun h =>
    absurd (h.2 '(' List.mem_cons_self) (by decide)
  cases x with
  | num n =>
    cases n with
    | ofNat m =>
      rw [signedForm, withoutBlanks_infixForm_ofNat]
      exact iff_of_true (isNumeral_ofNat m) ⟨m, Int.natCast_nonneg m, rfl⟩
    | negSucc m =>
      rw [signedForm, withoutBlanks_infixForm_negSucc]
      refine iff_of_false (fun h => absurd (h.2 '-' List.mem_cons_self) (by decide)) ?_
      rintro ⟨n, hn, hx⟩
      cases hx
      exact absurd hn (by simp)
  | unary o x =>
    rw [signedForm, withoutBlanks_infixForm_unary]
    exact iff_of_false hopen (by simp)
  | binary o l r => exact iff_of_false hopen (by simp)

/-- The infix form is a number alone exactly if the tree is. -/
theorem isBareNumber_infixForm (e : Expr) :
    Entry.isBareNumber e.infixForm.withoutBlanks = e.isBareNumber := by
  rw [Bool.eq_iff_iff]
  cases e with
  | num n =>
    refine iff_of_true (Entry.isBareNumber_iff.2 ?_) rfl
    cases n with
    | ofNat m => exact ⟨_, isNumeral_ofNat m, .inl (withoutBlanks_infixForm_ofNat m)⟩
    | negSucc m =>
      exact ⟨_, isNumeral_ofNat (m + 1), .inr (.inl (withoutBlanks_infixForm_negSucc m))⟩
  | unary o x =>
    rw [withoutBlanks_infixForm_unary, Entry.isBareNumber_parenthesize_sign,
      isNumeral_signedForm_iff]
    cases x <;> simp [isBareNumber]
  | binary o l r =>
    rw [withoutBlanks_infixForm_binary]
    refine iff_of_false (fun h => ?_) (by simp [isBareNumber])
    have hleft : Entry.Shape (operandForm o l .left l.infixForm.withoutBlanks) :=
      operandForm_keeps (fun _ => Entry.Shape.paren) l.shape_infixForm
    rcases Entry.eq_of_isBareNumber (Entry.isSymbol_symbol o) h with hl | hl
    · exact hleft.ne_nil hl
    · have hlevel := hleft.level 0
      rw [hl] at hlevel
      cases hlevel

/-- Only a literal without a sign is written without any operator. -/
theorem any_isSymbol_infixForm (h : ∀ m : Nat, e ≠ num m) :
    e.infixForm.withoutBlanks.any Operator.isSymbol = true := by
  rw [List.any_eq_true]
  cases e with
  | num n =>
    cases n with
    | ofNat m => exact absurd rfl (h m)
    | negSucc m =>
      rw [withoutBlanks_infixForm_negSucc]
      exact ⟨'-', List.mem_cons_self, by decide⟩
  | unary o x =>
    rw [withoutBlanks_infixForm_unary]
    exact ⟨'-', by simp [Text.parenthesize], by decide⟩
  | binary o l r =>
    rw [withoutBlanks_infixForm_binary]
    exact ⟨o.symbol, by simp, Entry.isSymbol_symbol o⟩

/-- The infix form of a tree is accepted, unless it is a number alone. -/
theorem fault?_infixForm (e : Expr) :
    Entry.fault? e.infixForm = if e.isBareNumber then some .bareNumber else none := by
  have hbare : Entry.isBareNumber e.infixForm.withoutSpaces = e.isBareNumber := by
    rw [withoutSpaces_infixForm, isBareNumber_infixForm]
  split
  · next h =>
    refine Entry.fault?_of_isBareNumber (hbare.trans h) ?_
    by_cases hliteral : ∃ m : Nat, e = num m
    · obtain ⟨m, rfl⟩ := hliteral
      have hruns : Entry.digitRuns (Text.ofNat m) = 1 := Entry.digitRuns_numeral (isNumeral_ofNat m)
      exact .inr (hruns ▸ Nat.one_lt_two)
    · rw [withoutSpaces_infixForm]
      exact .inl (any_isSymbol_infixForm (not_exists.1 hliteral))
  · next h =>
    have hliteral (m : Nat) : e ≠ num m := by
      rintro rfl
      exact h rfl
    have hphrase : Entry.Phrase .expr e.infixForm.withoutSpaces := by
      rw [withoutSpaces_infixForm]
      exact e.shape_infixForm.phrase
    have hsymbol : e.infixForm.withoutSpaces.any Operator.isSymbol = true := by
      rw [withoutSpaces_infixForm]
      exact any_isSymbol_infixForm hliteral
    exact Entry.fault?_eq_none_iff.2 ⟨e.isAllowed_of_mem_infixForm, hphrase,
      hbare.trans (Bool.eq_false_iff.2 h), by simp [hsymbol]⟩

end Expr

/-! ## Analysing the infix form of a result -/

namespace Analysis

variable {limit : Nat} {entry : Text} {a : Analysis}

/-- The infix form that a result holds is that of its tree, which is well typed and has no negative
literals. -/
theorem tree_of_ofEntry (h : ofEntry limit entry = .ok a) :
    a.infixForm = a.tree.infixForm ∧ a.tree.WellTyped ∧ a.tree.NonnegLiterals := by
  obtain ⟨-, t, value, rfl, hphrase, -⟩ := ofEntry_eq_ok_iff.1 h
  exact ⟨rfl, hphrase.wellTyped,
    hphrase.nonnegLiterals fun n hn => Token.num_nonneg_of_mem_scanAfter hn⟩

/-- If the infix form of a result is accepted, its analysis differs in the tokens only. -/
theorem ofEntry_infixForm_eq (h : ofEntry limit entry = .ok a)
    (hbare : a.tree.isBareNumber = false) :
    ofEntry limit a.infixForm = .ok { a with tokens := Token.scan a.infixForm } := by
  obtain ⟨hform, htyped, hnonneg⟩ := tree_of_ofEntry h
  have haccepted : Entry.fault? a.infixForm = none := by
    rw [hform, Expr.fault?_infixForm, hbare]
    rfl
  have hphrase : Token.Phrase .expr (Token.scan a.infixForm) a.tree.explicitSigns :=
    hform ▸ ((Expr.writes_infixForm htyped).loosen (Token.Category.expr_precedence_le _)).phrase
  rw [Expr.explicitSigns_eq_self hnonneg] at hphrase
  obtain ⟨-, t, value, rfl, -, hheight, hvalue⟩ := ofEntry_eq_ok_iff.1 h
  exact ofEntry_eq_ok_iff.2 ⟨haccepted, t, value, rfl, hphrase, hheight, hvalue⟩

/-- **The infix form is an entry, and analysing it again changes nothing.** The infix form of a
well-typed tree is refused as a number alone if the tree is a literal or the sign of a literal that
is not negative, and accepted in all other cases. So the infix form of a result is refused if its
tree is a literal or the sign of one; otherwise its analysis has the same tree, values, written
forms and drawing. -/
theorem ofEntry_infixForm :
    (∀ t : Expr, t.WellTyped →
      (((∃ n, t = .num n) ∨ ∃ n, 0 ≤ n ∧ t = .unary .neg (.num n)) →
        Entry.fault? t.infixForm = some .bareNumber) ∧
      (¬ ((∃ n, t = .num n) ∨ ∃ n, 0 ≤ n ∧ t = .unary .neg (.num n)) →
        Entry.fault? t.infixForm = none)) ∧
    ∀ limit entry a, ofEntry limit entry = .ok a →
      (((∃ n, a.tree = .num n) ∨ ∃ n, a.tree = .unary .neg (.num n)) →
        ofEntry limit a.infixForm = .error (.entry .bareNumber)) ∧
      (¬ ((∃ n, a.tree = .num n) ∨ ∃ n, a.tree = .unary .neg (.num n)) →
        ∃ a', ofEntry limit a.infixForm = .ok a' ∧ a'.tree = a.tree ∧ a'.value = a.value ∧
          a'.exactValue = a.exactValue ∧ a'.infixForm = a.infixForm ∧ a'.polish = a.polish ∧
          a'.reversePolish = a.reversePolish ∧ a'.drawing = a.drawing) := by
  refine ⟨fun t ht => ?_, fun limit entry a ha => ?_⟩
  · rw [← Expr.isBareNumber_eq_true_iff ht, Expr.fault?_infixForm]
    exact ⟨fun h => if_pos h, fun h => if_neg h⟩
  · obtain ⟨hform, htyped, hnonneg⟩ := tree_of_ofEntry ha
    rw [← hnonneg.isBareNumber_eq_true_iff htyped]
    constructor
    · intro h
      exact ofEntry_of_fault (by rw [hform, Expr.fault?_infixForm, if_pos h])
    · intro h
      exact ⟨_, ofEntry_infixForm_eq ha (Bool.eq_false_iff.2 h), rfl, rfl, rfl, rfl, rfl, rfl, rfl⟩

/-- `2--3` has a result with the infix form `2 - (-3)`, whose analysis has the same tree. `((5))`
has a result too, but its infix form `5` is a number alone. -/
theorem ofEntry_infixForm_minuses :
    let a := ofValue [.num 2, .op .sub, .op .neg, .num 3]
      (.binary .sub (.num 2) (.unary .neg (.num 3))) (.ofInt 2 - -.ofInt 3)
    let b := ofValue [.lparen, .lparen, .num 5, .rparen, .rparen] (.num 5) (.ofInt 5)
    ofEntry 3 ['2', '-', '-', '3'] = .ok a ∧
      a.infixForm = ['2', ' ', '-', ' ', '(', '-', '3', ')'] ∧
      Entry.fault? a.tree.infixForm = none ∧
      (∃ a', ofEntry 3 a.infixForm = .ok a' ∧ a'.tree = a.tree ∧ a'.drawing = a.drawing) ∧
      ofEntry 1 ['(', '(', '5', ')', ')'] = .ok b ∧ b.infixForm = ['5'] ∧
      ofEntry 1 b.infixForm = .error (.entry .bareNumber) := by
  intro a b
  have ha : ofEntry 3 ['2', '-', '-', '3'] = .ok a := by
    have hphrase : Token.Phrase .expr a.tokens a.tree :=
      .sum (.inr rfl) (Token.Phrase.loosen (by decide) (.num 2))
        (Token.Phrase.loosen (by decide) (.sign (.num 3)))
    have hheight : a.tree.height ≤ 3 := by simp [a, ofValue]
    exact ofEntry_eq_ok_iff.2 ⟨by decide, a.tree, a.value, rfl, hphrase, hheight, rfl⟩
  have hb : ofEntry 1 ['(', '(', '5', ')', ')'] = .ok b := by
    have hfive : Token.Phrase .expr [.num 5] (.num 5) := Token.Phrase.loosen (by decide) (.num 5)
    have hphrase : Token.Phrase .expr b.tokens b.tree :=
      Token.Phrase.loosen (by decide) (.paren (Token.Phrase.loosen (by decide) (.paren hfive)))
    have hheight : b.tree.height ≤ 1 := by simp [b, ofValue]
    exact ofEntry_eq_ok_iff.2 ⟨by decide, b.tree, b.value, rfl, hphrase, hheight, rfl⟩
  have haccepted := (ofEntry_infixForm.1 a.tree ⟨rfl, trivial, rfl, trivial⟩).2
    (by simp [a, ofValue])
  obtain ⟨a', ha', htree, -, -, -, -, -, hdrawing⟩ :=
    (ofEntry_infixForm.2 3 _ a ha).2 (by simp [a, ofValue])
  have hrefused := (ofEntry_infixForm.2 1 _ b hb).1 (.inl ⟨5, rfl⟩)
  exact ⟨ha, by decide, haccepted, ⟨a', ha', htree, hdrawing⟩, hb, by decide, hrefused⟩

end Analysis

end TreeCalculator
