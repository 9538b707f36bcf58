import TreeCalculator.Proofs.Drawing.Block
import TreeCalculator.Proofs.Expr.Height
import TreeCalculator.Proofs.Text.Spaces

/-!
# The extent of a drawing

A drawing is a rectangle, and the tree gives its sides: it is as wide as the texts of the literals
and two columns for every operator between two operands, and two rows separate a level of the tree
from the next one (`drawing_rectangle`). How many of its cells are no spaces depends on the nodes
alone (`ink_block`).

No character is written into a column that its row does not have: `Expr.block?` gives a block for
every tree, since the centre of a block is one of its columns.
-/

namespace TreeCalculator

/-! ## Counting in a tree -/

namespace Expr

/-- The length of the decimal texts of the literals together. -/
def literalsLength : Expr → Nat
  | num n => (Text.ofInt n).length
  | unary _ x => x.literalsLength
  | binary _ l r => l.literalsLength + r.literalsLength

/-- The number of nodes with one operand. -/
def unaryCount : Expr → Nat
  | num _ => 0
  | unary _ x => x.unaryCount + 1
  | binary _ l r => l.unaryCount + r.unaryCount

/-- The number of nodes with two operands. -/
def binaryCount : Expr → Nat
  | num _ => 0
  | unary _ x => x.binaryCount
  | binary _ l r => l.binaryCount + r.binaryCount + 1

end Expr

/-! ## The sides of the rectangle -/

namespace Expr

theorem width_block (e : Expr) : e.block.width = e.literalsLength + 2 * e.binaryCount := by
  induction e with
  | num n => rfl
  | unary o x ih => rw [width_unary, ih, literalsLength, binaryCount]
  | binary o l r ihl ihr =>
    rw [width_binary, ihl, ihr, Block.gap, literalsLength, binaryCount]
    omega

/-- A level of the tree takes two rows, the last one takes one. -/
theorem length_drawing (e : Expr) : e.drawing.length + 1 = 2 * e.height := by
  induction e with
  | num n => rw [height_num]; rfl
  | unary o x ih =>
    have hrows : (unary o x).drawing.length = x.drawing.length + 2 := by
      rw [drawing, block_unary]
      rfl
    rw [hrows, height_unary]
    omega
  | binary o l r ihl ihr =>
    have hrows : (binary o l r).drawing.length = (l.block.beside r.block).length + 2 := by
      rw [drawing, block_binary]
      rfl
    rw [hrows, Block.length_beside, height_binary]
    rw [drawing] at ihl ihr
    omega

/-- **A drawing is a rectangle, and all of it is drawn.** No character is written beyond the row it
is written into, and the centre of every block is one of its columns. All rows are as long as the
texts of the literals and two columns for every operator between two operands, and there are two
rows for every level of the tree but the last, which takes one. -/
theorem drawing_rectangle (e : Expr) :
    e.block? = some e.block ∧ e.block.centre < e.block.width ∧
      (∀ row ∈ e.drawing, row.length = e.literalsLength + 2 * e.binaryCount) ∧
      e.drawing.length + 1 = 2 * e.height := by
  refine ⟨e.block?_eq_some, e.wellFormed_block.centre_lt, ?_, e.length_drawing⟩
  intro row hrow
  rw [← width_block]
  exact e.wellFormed_block.length_eq row hrow

end Expr

/-! ## Counting characters -/

namespace Block

variable {l r : Block} {symbol : Char} {label : Text}

/-- The number of characters of a block that are no spaces. -/
def ink (b : Block) : Nat := (Text.withoutSpaces b.rows.flatten).length

theorem ink_leaf (h : ∀ c ∈ label, c ≠ ' ') : (leaf label).ink = label.length := by
  have hrows : (leaf label).rows.flatten = label := List.append_nil label
  rw [ink, hrows, Text.withoutSpaces, List.filter_eq_self.2 fun c hc => bne_iff_ne.2 (h c hc)]

theorem getElem_spaces {w k : Nat} (hk : k < (Text.spaces w).length) :
    (Text.spaces w)[k] = ' ' := List.getElem_replicate ..

/-- A row with one character. -/
theorem length_withoutSpaces_symbol {w k : Nat} (hk : k < (Text.spaces w).length)
    (hsymbol : symbol ≠ ' ') :
    (Text.withoutSpaces ((Text.spaces w).set k symbol)).length = 1 := by
  rw [Text.length_withoutSpaces_set hk (getElem_spaces hk) hsymbol, Text.withoutSpaces_spaces]
  rfl

theorem length_withoutSpaces_branches (hl : l.WellFormed) (hr : r.WellFormed) :
    (Text.withoutSpaces (((Text.spaces (l.width + gap + r.width)).set l.centre '/').set
      (l.rightCentre r) '\\')).length = 2 := by
  have hne : l.centre ≠ l.rightCentre r :=
    Nat.ne_of_lt (Nat.lt_trans (centre_lt_joinCentre hl) (joinCentre_lt_rightCentre hl))
  have hright := rightCentre_lt_length (l := l) hr
  have hspace : ((Text.spaces (l.width + gap + r.width)).set l.centre '/')[l.rightCentre r] = ' ' :=
    (List.getElem_set_ne hne _).trans (getElem_spaces _)
  rw [Text.length_withoutSpaces_set hright hspace (by decide),
    length_withoutSpaces_symbol (leftCentre_lt_length hl) (by decide)]

/-- Blank rows add no characters. -/
theorem withoutSpaces_padded (x : Block) (height : Nat) :
    Text.withoutSpaces (x.padded height).flatten = Text.withoutSpaces x.rows.flatten := by
  rw [padded, List.flatten_append, Text.withoutSpaces_append, Text.spaces,
    List.flatten_replicate_replicate]
  exact (congrArg _ (Text.withoutSpaces_spaces _)).trans (List.append_nil _)

/-- Neither does the gap between two columns of rows. -/
theorem length_withoutSpaces_zipWith {as bs : List Text} (h : as.length = bs.length) :
    (Text.withoutSpaces
      (List.zipWith (fun a b => a ++ (Text.spaces gap ++ b)) as bs).flatten).length =
      (Text.withoutSpaces as.flatten).length + (Text.withoutSpaces bs.flatten).length := by
  induction as generalizing bs with
  | nil =>
    rw [List.length_eq_zero_iff.1 h.symm]
    rfl
  | cons a as ih =>
    cases bs with
    | nil => exact absurd h (Nat.succ_ne_zero _)
    | cons b bs =>
      rw [List.zipWith_cons_cons]
      simp only [List.flatten_cons, Text.withoutSpaces_append, Text.withoutSpaces_spaces,
        List.nil_append, List.length_append, ih (Nat.succ.inj h)]
      omega

theorem length_withoutSpaces_beside (l r : Block) :
    (Text.withoutSpaces (l.beside r).flatten).length = l.ink + r.ink := by
  have hlength : (l.padded (max l.rows.length r.rows.length)).length =
      (r.padded (max l.rows.length r.rows.length)).length := by
    rw [length_padded (Nat.le_max_left ..), length_padded (Nat.le_max_right ..)]
  rw [beside, length_withoutSpaces_zipWith hlength, withoutSpaces_padded, withoutSpaces_padded]
  rfl

end Block

namespace Expr

open Block (ink)

theorem ink_unary (o : Operator) (x : Expr) : (unary o x).block.ink = x.block.ink + 2 := by
  have hcentre := x.wellFormed_block.centre_lt_length
  rw [block_unary, ink, List.flatten_cons, List.flatten_cons, Text.withoutSpaces_append,
    Text.withoutSpaces_append, List.length_append, List.length_append,
    Block.length_withoutSpaces_symbol hcentre o.symbol_ne_space,
    Block.length_withoutSpaces_symbol hcentre (by decide), ink]
  omega

theorem ink_binary (o : Operator) (l r : Expr) :
    (binary o l r).block.ink = l.block.ink + r.block.ink + 3 := by
  have hl := l.wellFormed_block
  have hr := r.wellFormed_block
  rw [block_binary, ink, List.flatten_cons, List.flatten_cons, Text.withoutSpaces_append,
    Text.withoutSpaces_append, List.length_append, List.length_append,
    Block.length_withoutSpaces_symbol (Block.joinCentre_lt_length hl hr) o.symbol_ne_space,
    Block.length_withoutSpaces_branches hl hr, Block.length_withoutSpaces_beside]
  omega

/-- The characters of a drawing are those of its literals, three for every operator between two
operands and two for every other. -/
theorem ink_block (e : Expr) :
    e.block.ink = e.literalsLength + 3 * e.binaryCount + 2 * e.unaryCount := by
  induction e with
  | num n => exact Block.ink_leaf fun _ => Text.ne_space_of_mem_ofInt
  | unary o x ih =>
    rw [ink_unary, ih]
    simp only [literalsLength, binaryCount, unaryCount]
    omega
  | binary o l r ihl ihr =>
    rw [ink_binary, ihl, ihr]
    simp only [literalsLength, binaryCount, unaryCount]
    omega

end Expr

end TreeCalculator
