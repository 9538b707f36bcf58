import TreeCalculator.Error
import TreeCalculator.Expr.Basic
import TreeCalculator.Token.Basic

/-!
# From tokens to a tree

The tokens are read once, from left to right, with two stacks: the operands built so far, and the
tokens of operators and open parentheses that still wait. An operator waits until a token shows that
it takes the operand after it; then it is *reduced*, that is, it takes its operands off the stack
and puts the node made of them back. Each operand carries its height, so that a tree above the limit
is refused as soon as its root is made.

Any token might wait, as far as the type of the stack goes, so whoever meets one there asks which
operator it is, and fails if it is none (`Token.operator`).
-/

namespace TreeCalculator

/-! ## The operator that a token is -/

namespace Token

/-- The operator that a token is. A token that is none is reported by its name. -/
def operator : Token → Except CalcError Operator
  | plus => .ok .add
  | minus => .ok .sub
  | star => .ok .mul
  | slash => .ok .div
  | caret => .ok .pow
  | sign => .ok .neg
  | num n => .error (.unknownOperator ("Num(" ++ String.ofList (Text.ofInt n) ++ ")"))
  | lparen => .error (.unknownOperator "LPar")
  | rparen => .error (.unknownOperator "RPar")

@[simp]
theorem operator_op (o : Operator) : (op o).operator = .ok o := by cases o <;> rfl

/-- Whether the token `top`, which waits, takes the operand before the operator `next`. An open
parenthesis takes none. -/
def takesOperandBefore (top : Token) (next : Operator) : Except CalcError Bool :=
  if top = lparen then .ok false
  else do return (← top.operator).takesOperandBefore next

end Token

/-- A tree on the operand stack, with its height. -/
structure Operand where
  expr : Expr
  height : Nat
  deriving DecidableEq

/-- The two stacks, each with its top first. -/
structure Stacks where
  operands : List Operand := []
  pending : List Token := []
  deriving DecidableEq

namespace Operand

/-- Puts an operand on the stack, unless it is higher than the limit. -/
def push (limit : Nat) (x : Operand) (stack : List Operand) : Except CalcError (List Operand) :=
  if limit < x.height then .error (.nestingTooDeep limit) else .ok (x :: stack)

/-- The literal `n`. -/
def ofInt (n : Int) : Operand := ⟨.num n, 1⟩

/-- An operator with one operand. -/
def unary (o : Operator) (x : Operand) : Operand := ⟨.unary o x.expr, x.height + 1⟩

/-- An operator between two operands. -/
def binary (o : Operator) (l r : Operand) : Operand :=
  ⟨.binary o l.expr r.expr, max l.height r.height + 1⟩

/-- The operator `o` takes its operands off the stack, the right one first, and puts the node made
of them back. -/
def apply (limit : Nat) (o : Operator) (stack : List Operand) : Except CalcError (List Operand) :=
  if o.isUnary then
    match stack with
    | x :: rest => push limit (unary o x) rest
    | [] => .error (.insufficientOperands o.symbol)
  else
    match stack with
    | r :: l :: rest => push limit (binary o l r) rest
    | _ => .error (.insufficientOperands o.symbol)

/-- Applies the operator of the token `top`, which waited. An open parenthesis is not applied. -/
def reduce (limit : Nat) (top : Token) (stack : List Operand) : Except CalcError (List Operand) :=
  if top = .lparen then .error .unmatchedParenthesis
  else do apply limit (← top.operator) stack

end Operand

namespace Stacks

/-- Reduces the tokens that wait, from the top down, as long as `goesOn` says so of the one on
top. -/
def reduceWhile (limit : Nat) (goesOn : Token → Except CalcError Bool) :
    List Token → List Operand → Except CalcError Stacks
  | [], operands => .ok ⟨operands, []⟩
  | top :: rest, operands => do
    if ← goesOn top then reduceWhile limit goesOn rest (← Operand.reduce limit top operands)
    else return ⟨operands, top :: rest⟩

/-- The stacks after the token of an operator: those on top are reduced that take the operand before
it, and it waits in their place. -/
def stepOperator (limit : Nat) (s : Stacks) (t : Token) : Except CalcError Stacks := do
  let o ← t.operator
  let s ← reduceWhile limit (·.takesOperandBefore o) s.pending s.operands
  return { s with pending := t :: s.pending }

/-- The stacks after a closing parenthesis: all is reduced down to its partner, which is dropped. -/
def stepClose (limit : Nat) (s : Stacks) : Except CalcError Stacks := do
  let s ← reduceWhile limit (fun top => .ok (top ≠ .lparen)) s.pending s.operands
  match s.pending with
  | .lparen :: rest => return { s with pending := rest }
  | _ => .error .unmatchedParenthesis

/-- The stacks after one more token. -/
def step (limit : Nat) (s : Stacks) (t : Token) : Except CalcError Stacks :=
  match t with
  | .num n => do return { s with operands := ← Operand.push limit (.ofInt n) s.operands }
  | .lparen => .ok { s with pending := .lparen :: s.pending }
  | .rparen => stepClose limit s
  | .plus | .minus | .star | .slash | .caret | .sign => stepOperator limit s t

/-- The stacks after a token list. -/
def run (limit : Nat) (s : Stacks) (tokens : List Token) : Except CalcError Stacks :=
  tokens.foldlM (step limit) s

/-- The tree that is left when all that waits has been reduced: none if there were only
parentheses. -/
def finish (limit : Nat) (s : Stacks) : Except CalcError (Option Expr) := do
  let s ← reduceWhile limit (fun _ => .ok true) s.pending s.operands
  match s.operands with
  | [] => return none
  | [x] => return some x.expr
  | operands => .error (.danglingOperands operands.length)

end Stacks

/-- The tree of a token list under a height limit, or `none` if the list holds no number and no
operator. -/
def Expr.ofTokens (limit : Nat) (tokens : List Token) : Except CalcError (Option Expr) := do
  let s ← Stacks.run limit {} tokens
  s.finish limit

end TreeCalculator
