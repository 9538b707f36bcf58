import TreeCalculator.Expr.Basic
import TreeCalculator.Text

/-!
# Drawings of an expression

A tree is drawn from its root down, every subtree in a rectangular block of its own. An operator
stands in the row above the branches to its operands: a `/` and a `\` between two operands, over
whose centres the branches end, and a single `\` over the centre of the operand of a sign. The
blocks of two operands stand side by side, the lower one filled up with blank rows.

A character can be written only into a column that its row has (`Text.write?`), so a drawing might
fail.
-/

namespace TreeCalculator

/-- The row with the character `c` in the column `k`, if it has that column. -/
def Text.write? (row : Text) (k : Nat) (c : Char) : Option Text :=
  if k < row.length then some (row.set k c) else none

/-- A rectangle of characters. Its centre is the column where a branch to it ends. -/
structure Block where
  rows : List Text
  width : Nat
  centre : Nat
  deriving DecidableEq

namespace Block

/-- The number of columns between two neighbouring blocks. -/
def gap : Nat := 2

/-- A row with the label alone, centred on the middle of its text. -/
def leaf (label : Text) : Block where
  rows := [label]
  width := label.length
  centre := label.length / 2

/-- The symbol above a branch to the operand, both over its centre. -/
def under? (symbol : Char) (x : Block) : Option Block := do
  let symbolRow ← (Text.spaces x.width).write? x.centre symbol
  let branchRow ← (Text.spaces x.width).write? x.centre '\\'
  return { rows := symbolRow :: branchRow :: x.rows, width := x.width, centre := x.centre }

/-- The rows of the block, with blank rows below them up to `height` rows. -/
def padded (x : Block) (height : Nat) : List Text :=
  x.rows ++ List.replicate (height - x.rows.length) (Text.spaces x.width)

/-- The rows of two blocks side by side. -/
def beside (l r : Block) : List Text :=
  let height := max l.rows.length r.rows.length
  List.zipWith (fun a b => a ++ (Text.spaces gap ++ b)) (l.padded height) (r.padded height)

/-- The column of the centre of the right one of two blocks side by side. -/
def rightCentre (l r : Block) : Nat := l.width + gap + r.centre

/-- The centre of two blocks side by side: the middle of their centres. -/
def joinCentre (l r : Block) : Nat := (l.centre + l.rightCentre r) / 2

/-- The row with the branches to two blocks side by side. A branch is left out where it would
stand on the wrong side of the centre. -/
def branches? (l r : Block) : Option Text := do
  let row := Text.spaces (l.width + gap + r.width)
  let row ← if l.centre < l.joinCentre r then row.write? l.centre '/' else return row
  if l.joinCentre r < l.rightCentre r then row.write? (l.rightCentre r) '\\' else return row

/-- The symbol above the branches to two blocks side by side. -/
def join? (symbol : Char) (l r : Block) : Option Block := do
  let width := l.width + gap + r.width
  let symbolRow ← (Text.spaces width).write? (l.joinCentre r) symbol
  let branchRow ← l.branches? r
  return { rows := symbolRow :: branchRow :: l.beside r, width, centre := l.joinCentre r }

end Block

namespace Expr

/-- The block of a tree, if every character of it has a column. -/
def block? : Expr → Option Block
  | num n => some (.leaf (Text.ofInt n))
  | unary op x => do (← x.block?).under? op.symbol
  | binary op l r => do (← l.block?).join? op.symbol (← r.block?)

/-- The block of a tree. -/
def block (e : Expr) : Block := e.block?.getD (.leaf [])

/-- The rows of the drawing of a tree, from its root down. -/
def drawing (e : Expr) : List Text := e.block.rows

end Expr

end TreeCalculator
