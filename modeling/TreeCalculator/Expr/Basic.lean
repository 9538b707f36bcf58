import TreeCalculator.Operator

/-!
# Expressions

An expression is a tree of operators over integer literals. The constructors admit any operator
at a node of either arity; `Expr.WellTyped` singles out the trees in which the sign has one
operand and every other operator two.

`Expr.height` visits the tree with a worklist, so that its own depth does not grow with the tree;
the worklist ends because the nodes still to be visited become fewer.
-/

namespace TreeCalculator

/-- An arithmetic expression. -/
inductive Expr where
  | num (n : Int)
  | unary (op : Operator) (operand : Expr)
  | binary (op : Operator) (left right : Expr)
  deriving DecidableEq

namespace Expr

/-- In a well-typed tree the sign has one operand, and every other operator two. -/
def WellTyped : Expr → Prop
  | num _ => True
  | unary op x => op.isUnary = true ∧ x.WellTyped
  | binary op l r => op.isUnary = false ∧ l.WellTyped ∧ r.WellTyped

/-! ## Height -/

/-- The number of nodes. -/
def size : Expr → Nat
  | num _ => 1
  | unary _ x => x.size + 1
  | binary _ l r => l.size + r.size + 1

/-- The number of nodes of the pending trees. -/
def pendingSize : List (Expr × Nat) → Nat
  | [] => 0
  | (e, _) :: pending => e.size + pendingSize pending

/-- The deepest level among `deepest` and the nodes of the pending trees, each of which carries
the level of its root. -/
def deepestLevel : List (Expr × Nat) → Nat → Nat
  | [], deepest => deepest
  | (num _, level) :: pending, deepest => deepestLevel pending (max deepest level)
  | (unary _ x, level) :: pending, deepest =>
    deepestLevel ((x, level + 1) :: pending) (max deepest level)
  | (binary _ l r, level) :: pending, deepest =>
    deepestLevel ((r, level + 1) :: (l, level + 1) :: pending) (max deepest level)
termination_by pending => pendingSize pending
decreasing_by all_goals simp only [pendingSize, size]; omega

/-- The number of levels of the tree. A literal alone has one. -/
def height (e : Expr) : Nat := deepestLevel [(e, 1)] 0

end Expr

end TreeCalculator
