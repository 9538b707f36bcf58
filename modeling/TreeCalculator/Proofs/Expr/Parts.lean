import TreeCalculator.Expr.Basic

/-!
# The parts of a tree

A tree is made of its subtrees, and its literals and operators are what stands at their roots. So
one recursion, `Expr.subtrees`, gives all three: the literals come in their order from left to
right, and an operator comes before those of its operands.
-/

namespace TreeCalculator.Expr

variable {o : Operator} {l r x : Expr}

/-- The subtrees: the tree itself, and then those of its operands, from left to right. -/
def subtrees : Expr → List Expr
  | num n => [num n]
  | unary o x => unary o x :: x.subtrees
  | binary o l r => binary o l r :: (l.subtrees ++ r.subtrees)

/-- The number that a tree is, if it is a literal alone. -/
def literal? : Expr → Option Int
  | num n => some n
  | unary _ _ | binary _ _ _ => none

/-- The operator at the root. -/
def operator? : Expr → Option Operator
  | num _ => none
  | unary o _ | binary o _ _ => some o

/-- The operator at the root, if it stands between two operands. -/
def binaryOperator? : Expr → Option Operator
  | num _ | unary _ _ => none
  | binary o _ _ => some o

/-- The literals of a tree, from left to right. -/
def literals (e : Expr) : List Int := e.subtrees.filterMap literal?

/-- The operators of a tree. -/
def operators (e : Expr) : List Operator := e.subtrees.filterMap operator?

/-- The operators between two operands. -/
def binaryOperators (e : Expr) : List Operator := e.subtrees.filterMap binaryOperator?

@[simp]
theorem literals_num (n : Int) : (num n).literals = [n] := rfl

@[simp]
theorem literals_unary : (unary o x).literals = x.literals := rfl

@[simp]
theorem literals_binary : (binary o l r).literals = l.literals ++ r.literals :=
  List.filterMap_append ..

@[simp]
theorem operators_num (n : Int) : (num n).operators = [] := rfl

@[simp]
theorem operators_unary : (unary o x).operators = o :: x.operators := rfl

@[simp]
theorem operators_binary : (binary o l r).operators = o :: (l.operators ++ r.operators) :=
  congrArg (o :: ·) List.filterMap_append

@[simp]
theorem binaryOperators_num (n : Int) : (num n).binaryOperators = [] := rfl

@[simp]
theorem binaryOperators_unary : (unary o x).binaryOperators = x.binaryOperators := rfl

@[simp]
theorem binaryOperators_binary :
    (binary o l r).binaryOperators = o :: (l.binaryOperators ++ r.binaryOperators) :=
  congrArg (o :: ·) List.filterMap_append

/-- In a well-typed tree every operator between two operands joins two groups of literals. -/
theorem WellTyped.length_literals {e : Expr} (h : e.WellTyped) :
    e.literals.length = e.operators.countP (fun o => !o.isUnary) + 1 := by
  induction e with
  | num n => rfl
  | unary o x ih =>
    obtain ⟨ho, hx⟩ := h
    have hlength := ih hx
    rw [literals_unary, operators_unary, List.countP_cons_of_neg (by simp [ho]), hlength]
  | binary o l r ihl ihr =>
    obtain ⟨ho, hl, hr⟩ := h
    have hleft := ihl hl
    have hright := ihr hr
    rw [literals_binary, operators_binary, List.countP_cons_of_pos (by simp [ho]),
      List.countP_append, List.length_append]
    omega

end TreeCalculator.Expr
