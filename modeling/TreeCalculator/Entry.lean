import TreeCalculator.Error
import TreeCalculator.Operator
import TreeCalculator.Text

/-!
# Entries

Which texts are accepted as an expression. `Entry.fault?` is the first rule that an entry breaks,
and no rule broken means that the entry is accepted.

The rules read the entry without its spaces, with two exceptions: whether two numbers lack an
operator depends on the spaces between them, and a forbidden character is looked for in the entry
as it stands. The order of the rules matters only to which of two faults is reported.
-/

namespace TreeCalculator.Entry

/-! ## Parts of an entry -/

/-- Whether an entry may hold the character `c`. -/
def isAllowed (c : Char) : Bool :=
  c.isDigit || Operator.isSymbol c || c == '(' || c == ')' || c == ' '

/-- The number of maximal digit runs: of digits that no digit precedes. -/
def digitRuns (t : Text) : Nat :=
  (Text.neighbours (' ' :: t)).countP fun (a, b) => !a.isDigit && b.isDigit

/-- Whether `t` is a run of digits. -/
def isUnsigned (t : Text) : Bool := !t.isEmpty && t.all Char.isDigit

/-- Whether `t` is a run of digits, possibly after a `-`. -/
def isSigned : Text → Bool
  | '-' :: t => isUnsigned t
  | t => isUnsigned t

/-- Whether `t` is a single number, possibly signed, possibly in parentheses. -/
def isBareNumber : Text → Bool
  | '(' :: t => t.getLast? == some ')' && isSigned t.dropLast
  | t => isSigned t

/-- The nesting level after `t`, which starts at `level`, or `none` if `t` closes a parenthesis
that was not opened. -/
def levelAfter : Nat → Text → Option Nat
  | level, [] => some level
  | level, '(' :: t => levelAfter (level + 1) t
  | 0, ')' :: _ => none
  | level + 1, ')' :: t => levelAfter level t
  | level, _ :: t => levelAfter level t

/-- Whether every parenthesis of `t` has its partner. -/
def isBalanced (t : Text) : Bool := levelAfter 0 t == some 0

/-- Whether two neighbouring characters of `t` satisfy `p`. -/
def hasPair (p : Char → Char → Bool) (t : Text) : Bool :=
  (Text.neighbours t).any fun (a, b) => p a b

/-- Whether `c` is the symbol of an operator that is not also a sign. -/
def isBinarySymbol (c : Char) : Bool := Operator.isSymbol c && c != '-'

/-! ## Rules -/

/-- The fault of two neighbours one of which is a parenthesis: an operator is missing. -/
def juxtapositionFault? (a b : Char) : Option EntryError :=
  if (a.isDigit || a == ')') && b == '(' then some .missingOperatorBeforeParen
  else if a == ')' && b.isDigit then some .missingOperatorAfterParen
  else none

/-- The first rule on parentheses that `t` breaks. -/
def parenthesisFault? (t : Text) : Option EntryError :=
  if hasPair (fun a b => a == '(' && b == ')') t then some .emptyParentheses
  else if !isBalanced t then some .unbalancedParentheses
  else (Text.neighbours t).findSome? fun (a, b) => juxtapositionFault? a b

/-- The first rule on operators that `t` breaks. -/
def operatorFault? (t : Text) : Option EntryError :=
  if hasPair (fun a b => Operator.isSymbol a && isBinarySymbol b) t then
    some .consecutiveOperators
  else if t.getLast?.any Operator.isSymbol then some .trailingOperator
  else if t.head?.any isBinarySymbol then some .leadingBinaryOperator
  else if hasPair (fun a b => Operator.isSymbol a && b == ')') t then
    some .operatorBeforeCloseParen
  else if hasPair (fun a b => a == '(' && isBinarySymbol b) t then
    some .binaryOperatorAfterOpenParen
  else none

/-- The first rule that the entry breaks; `none` if it is accepted. -/
def fault? (entry : Text) : Option EntryError :=
  let t := entry.withoutSpaces
  if t.isEmpty then some .emptyExpression
  else if !t.any Operator.isSymbol && 2 ≤ digitRuns entry then some .missingOperator
  else if isBareNumber t then some .bareNumber
  else match entry.find? fun c => !isAllowed c with
    | some c => some (.invalidCharacter c)
    | none => parenthesisFault? t <|> operatorFault? t

end TreeCalculator.Entry
