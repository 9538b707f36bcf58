/-!
# Errors

Why an entry has no result. An `EntryError` refuses the text before anything is read, a
`CalcError` arises while the tree is built or evaluated, and a `Failure` is either of them. The
wording shown to the user is in `message`.
-/

namespace TreeCalculator

/-- The rules an entry can break. -/
inductive EntryError where
  | bareNumber
  | emptyExpression
  | missingOperator
  | invalidCharacter (c : Char)
  | emptyParentheses
  | unbalancedParentheses
  | missingOperatorBeforeParen
  | missingOperatorAfterParen
  | consecutiveOperators
  | trailingOperator
  | leadingBinaryOperator
  | operatorBeforeCloseParen
  | binaryOperatorAfterOpenParen
  deriving DecidableEq

/-- What can go wrong while a tree is built or evaluated. -/
inductive CalcError where
  /-- The operator written `symbol` has fewer operands than it takes. -/
  | insufficientOperands (symbol : Char)
  | divisionByZero
  /-- A token that is no operator, or a node whose operator does not have the node's arity. -/
  | unknownOperator (description : String)
  | unmatchedParenthesis
  /-- `count` operands are left that no operator joins. -/
  | danglingOperands (count : Nat)
  | nestingTooDeep (limit : Nat)
  | emptyTree
  deriving DecidableEq

/-- Why an entry has no result. -/
inductive Failure where
  | entry (e : EntryError)
  | calculation (e : CalcError)
  deriving DecidableEq

/-- The wording of a refusal. -/
def EntryError.message : EntryError → String
  | bareNumber =>
    "Seul un nombre a été saisi : entrez une expression avec opérateurs (ex : 2+3, 4*5, -2+3)"
  | emptyExpression => "Expression vide"
  | missingOperator => "Aucun opérateur entre les nombres : utilisez + - * / ^"
  | invalidCharacter c => "Caractère non autorisé : '" ++ c.toString ++ "'"
  | emptyParentheses => "Parenthèses vides () interdites"
  | unbalancedParentheses => "Parenthèses non équilibrées"
  | missingOperatorBeforeParen => "Opérateur manquant avant une parenthèse ouvrante"
  | missingOperatorAfterParen => "Opérateur manquant après une parenthèse fermante"
  | consecutiveOperators => "Deux opérateurs consécutifs"
  | trailingOperator => "L’expression ne peut pas se terminer par un opérateur"
  | leadingBinaryOperator => "L’expression ne peut pas commencer par un opérateur binaire"
  | operatorBeforeCloseParen => "Opérateur juste avant une parenthèse fermante"
  | binaryOperatorAfterOpenParen => "Opérateur binaire juste après une parenthèse ouvrante"

/-- The wording of a calculation error. -/
def CalcError.message : CalcError → String
  | insufficientOperands symbol =>
    "opérandes insuffisants pour l’opérateur '" ++ symbol.toString ++ "'"
  | divisionByZero => "division par zéro"
  | unknownOperator description => "opérateur inconnu : " ++ description
  | unmatchedParenthesis => "parenthèse sans correspondance"
  | danglingOperands count => count.repr ++ " opérandes restants sans opérateur"
  | nestingTooDeep limit => "imbrication trop profonde (limite : " ++ limit.repr ++ ")"
  | emptyTree => "impossible de construire l’arbre (aucun jeton)"

/-- The wording of a failure: that of its cause, after the stage it belongs to. -/
def Failure.message : Failure → String
  | entry e => "Saisie incorrecte : " ++ e.message
  | calculation e => "Erreur de calcul : " ++ e.message

/-! ## Computations of two steps -/

namespace CalcError

variable {α β : Type} {a : Except CalcError α} {f : α → Except CalcError β}

@[simp]
theorem ok_bind (v : α) (f : α → Except CalcError β) : (.ok v >>= f) = f v := rfl

@[simp]
theorem error_bind (x : CalcError) (f : α → Except CalcError β) : (.error x >>= f) = .error x := rfl

/-- A computation of two steps succeeds as its second step does on the result of the first. -/
theorem ok_of_bind {y : β} (h : a >>= f = .ok y) : ∃ v, a = .ok v ∧ f v = .ok y := by
  cases a with
  | error e => cases h
  | ok v => exact ⟨v, rfl, h⟩

/-- A computation of two steps fails in the first step or, with its result, in the second. -/
theorem error_of_bind {x : CalcError} (h : a >>= f = .error x) :
    a = .error x ∨ ∃ v, a = .ok v ∧ f v = .error x := by
  cases a with
  | error e =>
    cases h
    exact .inl rfl
  | ok v => exact .inr ⟨v, rfl, h⟩

end CalcError

end TreeCalculator
