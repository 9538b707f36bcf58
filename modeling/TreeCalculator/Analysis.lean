import TreeCalculator.Entry
import TreeCalculator.Expr.Drawing
import TreeCalculator.Expr.Exact
import TreeCalculator.Expr.Value
import TreeCalculator.Expr.Written
import TreeCalculator.Stacks
import TreeCalculator.Token.Scan

/-!
# Analysing an entry

From the text of an entry to its tree, its values, its written forms and its drawing: the entry is
checked, scanned and built, and the tree is evaluated. The first of these stages to fail is the
failure of the whole. That there is no exact value is no failure, and a tree that has a value can
always be written and drawn.
-/

namespace TreeCalculator

/-- What is known of an entry that has a value. -/
structure Analysis where
  tokens : List Token
  tree : Expr
  value : Float
  exactValue : Option Rat
  infixForm : Text
  polish : Text
  reversePolish : Text
  drawing : List Text

namespace Analysis

/-- The analysis of a tree made of these tokens that has this value. All else comes from the
tree. -/
def ofValue (tokens : List Token) (tree : Expr) (value : Float) : Analysis where
  tokens := tokens
  tree := tree
  value := value
  exactValue := tree.exactValue?
  infixForm := tree.infixForm
  polish := tree.polish
  reversePolish := tree.reversePolish
  drawing := tree.drawing

/-- The analysis of a tree made of these tokens. -/
def ofTree (tokens : List Token) (tree : Expr) : Except CalcError Analysis := do
  return ofValue tokens tree (← tree.value)

/-- The analysis of a token list under a height limit. -/
def ofTokens (limit : Nat) (tokens : List Token) : Except CalcError Analysis := do
  match ← Expr.ofTokens limit tokens with
  | some tree => ofTree tokens tree
  | none => .error .emptyTree

/-- The analysis of an entry under a height limit. -/
def ofEntry (limit : Nat) (entry : Text) : Except Failure Analysis :=
  match Entry.fault? entry with
  | some e => .error (.entry e)
  | none => (ofTokens limit (Token.scan entry)).mapError .calculation

end Analysis

end TreeCalculator
