import TreeCalculator.Entry

/-!
# The grammar of entries

`Phrase k t` says that the text `t`, which has no spaces, is a phrase of the category `k`. The
grammar is about texts as they are typed: it does not say how a chain of operators groups, and one
`-` serves as the subtraction and as the sign.

Whether a character may follow another is `mayFollow`. A phrase is told by its edges and by its
neighbours alone (`Shape`), but for the parentheses, which have to be counted.
-/

namespace TreeCalculator.Entry

/-- The categories of phrases of an entry. -/
inductive Category where
  | expr
  | signed
  | primary
  deriving DecidableEq

/-- A text of one or more decimal digits. -/
def IsNumeral (d : Text) : Prop := d ≠ [] ∧ ∀ c ∈ d, c.isDigit = true

/-- `Phrase k t`: the text `t` is a phrase of the category `k`. -/
inductive Phrase : Category → Text → Prop where
  /-- `Expr ::= Signed`. -/
  | ofSigned {t : Text} : Phrase .signed t → Phrase .expr t
  /-- `Expr ::= Expr (+ | - | * | / | ^) Signed`. -/
  | binary {l r : Text} {b : Char} : b ∈ ['+', '-', '*', '/', '^'] →
      Phrase .expr l → Phrase .signed r → Phrase .expr (l ++ b :: r)
  /-- `Signed ::= - Signed`. -/
  | sign {t : Text} : Phrase .signed t → Phrase .signed ('-' :: t)
  /-- `Signed ::= Primary`. -/
  | ofPrimary {t : Text} : Phrase .primary t → Phrase .signed t
  /-- `Primary ::= digits`. -/
  | numeral {d : Text} : IsNumeral d → Phrase .primary d
  /-- `Primary ::= ( Expr )`. -/
  | paren {t : Text} : Phrase .expr t → Phrase .primary (Text.parenthesize t)

/-! ## Characters -/

/-- The symbols of operators. -/
theorem isSymbol_iff {c : Char} :
    Operator.isSymbol c = true ↔ c ∈ ['+', '-', '*', '/', '^'] := by
  unfold Operator.isSymbol Operator.ofSymbol?
  split <;> simp_all

/-- The symbol of an operator is a symbol. -/
theorem isSymbol_symbol (o : Operator) : Operator.isSymbol o.symbol = true := by
  cases o <;> decide

/-- A symbol is no digit. -/
theorem isDigit_of_isSymbol {c : Char} (h : Operator.isSymbol c = true) : c.isDigit = false := by
  rw [isSymbol_iff] at h
  simp only [List.mem_cons, List.not_mem_nil, or_false] at h
  rcases h with rfl | rfl | rfl | rfl | rfl <;> rfl

/-- A digit is no symbol. -/
theorem isSymbol_of_isDigit {c : Char} (h : c.isDigit = true) : Operator.isSymbol c = false :=
  Bool.eq_false_iff.2 fun hc => by simp [isDigit_of_isSymbol hc] at h

/-- A symbol is no parenthesis. -/
theorem ne_paren_of_isSymbol {c : Char} (h : Operator.isSymbol c = true) : c ≠ '(' ∧ c ≠ ')' := by
  constructor <;> rintro rfl <;> exact absurd h (by decide)

/-- A digit is no parenthesis. -/
theorem ne_paren_of_isDigit {c : Char} (h : c.isDigit = true) : c ≠ '(' ∧ c ≠ ')' := by
  constructor <;> rintro rfl <;> exact absurd h (by decide)

/-- Whether an operand may end with the character. -/
def endsOperand (c : Char) : Bool := c.isDigit || c == ')'

/-- Whether an operand may start with the character. -/
def startsOperand (c : Char) : Bool := c.isDigit || c == '-' || c == '('

/-- Whether `b` may stand right after `a` in a sentence. -/
def mayFollow (a b : Char) : Bool :=
  if endsOperand a then Operator.isSymbol b || b == ')' || (a.isDigit && b.isDigit)
  else startsOperand b

theorem endsOperand_of_isSymbol {c : Char} (h : Operator.isSymbol c = true) :
    endsOperand c = false := by
  simp [endsOperand, isDigit_of_isSymbol h, (ne_paren_of_isSymbol h).2]

/-- What ends an operand may be followed by an operator. -/
theorem mayFollow_symbol {a b : Char} (ha : endsOperand a = true)
    (hb : Operator.isSymbol b = true) : mayFollow a b = true := by
  simp [mayFollow, ha, hb]

/-- An operator may be followed by what starts an operand. -/
theorem mayFollow_of_symbol {a b : Char} (ha : Operator.isSymbol a = true)
    (hb : startsOperand b = true) : mayFollow a b = true := by
  simp [mayFollow, endsOperand_of_isSymbol ha, hb]

/-! ## Nesting -/

/-- The nesting level after two texts is the level after the second, from that after the first. -/
theorem levelAfter_append (n : Nat) (t u : Text) :
    levelAfter n (t ++ u) = (levelAfter n t).bind (levelAfter · u) := by
  fun_induction levelAfter n t with
  | case1 => rfl
  | case2 n t ih => rw [List.cons_append, levelAfter, ih]
  | case3 t => rfl
  | case4 n t ih => rw [List.cons_append, levelAfter, ih]
  | case5 n c t hopen hclose hclose' ih => rw [List.cons_append, levelAfter, ih] <;> assumption

/-- Other characters than parentheses do not change the level. -/
theorem levelAfter_cons (n : Nat) {c : Char} (t : Text) (h : c ≠ '(' ∧ c ≠ ')') :
    levelAfter n (c :: t) = levelAfter n t := by
  rw [levelAfter] <;> simp [h.1, h.2]

/-- A text without parentheses does not change the level. -/
theorem levelAfter_of_forall_ne (n : Nat) {t : Text} (h : ∀ c ∈ t, c ≠ '(' ∧ c ≠ ')') :
    levelAfter n t = some n := by
  induction t with
  | nil => rfl
  | cons c t ih =>
    rw [levelAfter_cons n t (h c List.mem_cons_self)]
    exact ih fun d hd => h d (List.mem_cons_of_mem _ hd)

end TreeCalculator.Entry
