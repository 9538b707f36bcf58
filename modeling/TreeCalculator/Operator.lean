/-!
# Operators

The six operators of an arithmetic expression, with the precedence and the associativity that
decide how a chain of them groups.
-/

namespace TreeCalculator

/-- On which side a chain of operators of one precedence groups. -/
inductive Associativity where
  | left
  | right
  deriving DecidableEq

/-- The operators: five that stand between two operands, and the sign `neg` before one. -/
inductive Operator where
  | add
  | sub
  | mul
  | div
  | pow
  | neg
  deriving DecidableEq

namespace Operator

/-- Of two operators, the one with the higher precedence takes the operand between them. -/
def precedence : Operator → Nat
  | add | sub => 1
  | mul | div => 2
  | pow => 3
  | neg => 4

/-- Powers group to the right. So does the sign: in `--3` the first sign waits for the second. -/
def associativity : Operator → Associativity
  | pow | neg => .right
  | add | sub | mul | div => .left

/-- Whether the operator takes a single operand. -/
def isUnary : Operator → Bool
  | neg => true
  | add | sub | mul | div | pow => false

/-- The sign is the only operator with a single operand. -/
theorem eq_neg_of_isUnary {o : Operator} (h : o.isUnary = true) : o = neg := by
  cases o with
  | neg => rfl
  | add | sub | mul | div | pow => cases h

/-- The character an operator is written with. Subtraction and the sign share theirs. -/
def symbol : Operator → Char
  | add => '+'
  | sub | neg => '-'
  | mul => '*'
  | div => '/'
  | pow => '^'

theorem symbol_ne_space (o : Operator) : o.symbol ≠ ' ' := by cases o <;> decide

/-- The symbol of an operator is no digit. -/
theorem isDigit_symbol (o : Operator) : o.symbol.isDigit = false := by cases o <;> rfl

/-- The operator that a symbol between two operands stands for. -/
def ofSymbol? : Char → Option Operator
  | '+' => some add
  | '-' => some sub
  | '*' => some mul
  | '/' => some div
  | '^' => some pow
  | _ => none

/-- Between two operands, an operator is known by its symbol. -/
theorem ofSymbol?_symbol {o : Operator} (h : o.isUnary = false) : ofSymbol? o.symbol = some o := by
  cases o with
  | add | sub | mul | div | pow => rfl
  | neg => cases h

/-- So two operators with one symbol are the same one there. -/
theorem eq_of_symbol_eq {o o' : Operator} (h : o.isUnary = false) (h' : o'.isUnary = false)
    (hs : o.symbol = o'.symbol) : o = o' := by
  have hsome : some o = some o' := by rw [← ofSymbol?_symbol h, hs, ofSymbol?_symbol h']
  exact Option.some.inj hsome

/-- A character that stands for an operator is the symbol of that operator. -/
theorem eq_symbol_of_ofSymbol? {c : Char} {o : Operator} (h : ofSymbol? c = some o) :
    c = o.symbol := by
  unfold ofSymbol? at h
  split at h <;> cases h <;> rfl

/-- Whether `c` is the symbol of an operator. -/
def isSymbol (c : Char) : Bool := (ofSymbol? c).isSome

/-- The name by which messages call an operator. -/
def name : Operator → String
  | add => "Add"
  | sub => "Sub"
  | mul => "Mul"
  | div => "Div"
  | pow => "Pow"
  | neg => "Neg"

/-- Whether `top`, met before `next`, takes the operand between the two: it binds more tightly,
or as tightly and `next` groups to the left. -/
def takesOperandBefore (top next : Operator) : Bool :=
  next.precedence < top.precedence ||
    (next.precedence == top.precedence && next.associativity == .left)

end Operator

end TreeCalculator
