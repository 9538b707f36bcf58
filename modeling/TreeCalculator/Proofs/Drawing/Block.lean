import TreeCalculator.Expr.Drawing
import TreeCalculator.Proofs.Text.Decimal

/-!
# Blocks, cell by cell

The rows of a block are as long as the block is wide, and its centre is one of its columns
(`Block.WellFormed`). The centre of two blocks side by side is computed by a division that rounds,
but it stands strictly between their centres, however wide they are: that is the work of the gap.
So both branches are always drawn.

`Block.cell` reads a block as a grid that is blank outside of the block. The equations below say
what stands in every cell of every kind of block, and nothing later unfolds the rows again.
-/

namespace TreeCalculator

theorem Text.write?_eq_some {row : Text} {k : Nat} (h : k < row.length) (c : Char) :
    row.write? k c = some (row.set k c) := if_pos h

namespace Block

variable {b x l r : Block} {symbol : Char} {label : Text}

/-! ## Rows of the right length -/

/-- The rows of a block fill its width, in which its centre lies. -/
structure WellFormed (b : Block) : Prop where
  centre_lt : b.centre < b.width
  length_eq : ∀ row ∈ b.rows, row.length = b.width

theorem length_spaces (n : Nat) : (Text.spaces n).length = n := List.length_replicate ..

theorem WellFormed.leaf (h : label ≠ []) : (leaf label).WellFormed where
  centre_lt := Nat.div_lt_self (List.length_pos_iff.2 h) (Nat.lt_succ_self 1)
  length_eq := by
    intro row hrow
    rw [List.mem_singleton.1 hrow]
    rfl

/-- The centre of two blocks stands to the right of the left centre. -/
theorem centre_lt_joinCentre (hl : l.WellFormed) : l.centre < l.joinCentre r := by
  have hcentre := hl.centre_lt
  simp only [joinCentre, rightCentre, gap]
  omega

/-- It stands to the left of the right centre. -/
theorem joinCentre_lt_rightCentre (hl : l.WellFormed) : l.joinCentre r < l.rightCentre r := by
  have hcentre := hl.centre_lt
  simp only [joinCentre, rightCentre, gap]
  omega

theorem rightCentre_lt (hr : r.WellFormed) : l.rightCentre r < l.width + gap + r.width :=
  Nat.add_lt_add_left hr.centre_lt _

theorem joinCentre_lt (hl : l.WellFormed) (hr : r.WellFormed) :
    l.joinCentre r < l.width + gap + r.width :=
  Nat.lt_trans (joinCentre_lt_rightCentre hl) (rightCentre_lt hr)

/-! The columns that are written into, in the blank rows that they are written into. -/

theorem WellFormed.centre_lt_length (hx : x.WellFormed) :
    x.centre < (Text.spaces x.width).length := by
  rw [length_spaces]
  exact hx.centre_lt

theorem joinCentre_lt_length (hl : l.WellFormed) (hr : r.WellFormed) :
    l.joinCentre r < (Text.spaces (l.width + gap + r.width)).length := by
  rw [length_spaces]
  exact joinCentre_lt hl hr

theorem leftCentre_lt_length (hl : l.WellFormed) :
    l.centre < (Text.spaces (l.width + gap + r.width)).length := by
  have hcentre := hl.centre_lt
  rw [length_spaces]
  omega

theorem rightCentre_lt_length (hr : r.WellFormed) : l.rightCentre r <
    ((Text.spaces (l.width + gap + r.width)).set l.centre '/').length := by
  rw [List.length_set, length_spaces]
  exact rightCentre_lt hr

/-- Filled up, a block has the rows that it is filled up to, and all of them fill its width. -/
theorem length_padded {height : Nat} (h : x.rows.length ≤ height) :
    (x.padded height).length = height := by
  rw [padded, List.length_append, List.length_replicate]
  omega

theorem WellFormed.length_of_mem_padded (hx : x.WellFormed) {height : Nat} {row : Text}
    (h : row ∈ x.padded height) : row.length = x.width := by
  rcases List.mem_append.1 h with h | h
  · exact hx.length_eq row h
  · rw [List.eq_of_mem_replicate h, length_spaces]

theorem WellFormed.length_of_mem_beside (hl : l.WellFormed) (hr : r.WellFormed) {row : Text}
    (h : row ∈ l.beside r) : row.length = l.width + gap + r.width := by
  obtain ⟨k, hk, rfl⟩ := List.getElem_of_mem h
  simp only [beside, List.getElem_zipWith, List.length_append, length_spaces,
    hl.length_of_mem_padded (List.getElem_mem _), hr.length_of_mem_padded (List.getElem_mem _)]
  omega

/-- Side by side, two blocks have as many rows as the higher one. -/
theorem length_beside (l r : Block) :
    (l.beside r).length = max l.rows.length r.rows.length := by
  rw [beside, List.length_zipWith, length_padded (Nat.le_max_left ..),
    length_padded (Nat.le_max_right ..), Nat.min_self]

/-! ## No column is missing -/

theorem under?_eq (hx : x.WellFormed) : x.under? symbol = some
    { rows := (Text.spaces x.width).set x.centre symbol ::
        (Text.spaces x.width).set x.centre '\\' :: x.rows
      width := x.width
      centre := x.centre } := by
  rw [under?, Text.write?_eq_some hx.centre_lt_length, Text.write?_eq_some hx.centre_lt_length]
  rfl

/-- Both branches are drawn. -/
theorem branches?_eq (hl : l.WellFormed) (hr : r.WellFormed) : l.branches? r = some
    (((Text.spaces (l.width + gap + r.width)).set l.centre '/').set (l.rightCentre r) '\\') := by
  rw [branches?, if_pos (centre_lt_joinCentre hl),
    Text.write?_eq_some (leftCentre_lt_length hl), Option.bind_eq_bind, Option.bind_some,
    if_pos (joinCentre_lt_rightCentre hl), Text.write?_eq_some (rightCentre_lt_length hr)]

theorem join?_eq (hl : l.WellFormed) (hr : r.WellFormed) : l.join? symbol r = some
    { rows := (Text.spaces (l.width + gap + r.width)).set (l.joinCentre r) symbol ::
        ((Text.spaces (l.width + gap + r.width)).set l.centre '/').set (l.rightCentre r) '\\' ::
        l.beside r
      width := l.width + gap + r.width
      centre := l.joinCentre r } := by
  rw [join?, Text.write?_eq_some (joinCentre_lt_length hl hr), branches?_eq hl hr]
  rfl

theorem WellFormed.under (hx : x.WellFormed) (hb : x.under? symbol = some b) : b.WellFormed := by
  rw [under?_eq hx] at hb
  obtain rfl := Option.some.inj hb
  refine ⟨hx.centre_lt, ?_⟩
  intro row hrow
  rcases List.mem_cons.1 hrow with rfl | hrow
  · rw [List.length_set, length_spaces]
  · rcases List.mem_cons.1 hrow with rfl | hrow
    · rw [List.length_set, length_spaces]
    · exact hx.length_eq row hrow

theorem WellFormed.join (hl : l.WellFormed) (hr : r.WellFormed)
    (hb : l.join? symbol r = some b) : b.WellFormed := by
  rw [join?_eq hl hr] at hb
  obtain rfl := Option.some.inj hb
  refine ⟨joinCentre_lt hl hr, ?_⟩
  intro row hrow
  rcases List.mem_cons.1 hrow with rfl | hrow
  · rw [List.length_set, length_spaces]
  · rcases List.mem_cons.1 hrow with rfl | hrow
    · rw [List.length_set, List.length_set, length_spaces]
    · exact hl.length_of_mem_beside hr hrow

end Block

/-! ## The block of a tree -/

namespace Expr

open Block (gap)

variable {o : Operator} {l r x : Expr}

/-- No column is missing where a tree is drawn, and the rows of the block fill its width. -/
theorem exists_block (e : Expr) : ∃ b, e.block? = some b ∧ b.WellFormed := by
  induction e with
  | num n => exact ⟨_, rfl, .leaf (Text.ofInt_ne_nil n)⟩
  | unary o x ih =>
    obtain ⟨b, hb, hx⟩ := ih
    have hunder : b.under? o.symbol = some _ := Block.under?_eq hx
    refine ⟨_, ?_, hx.under hunder⟩
    rw [block?, hb]
    exact hunder
  | binary o l r ihl ihr =>
    obtain ⟨b, hb, hl⟩ := ihl
    obtain ⟨b', hb', hr⟩ := ihr
    have hjoin : b.join? o.symbol b' = some _ := Block.join?_eq hl hr
    refine ⟨_, ?_, hl.join hr hjoin⟩
    rw [block?, hb, hb']
    exact hjoin

/-- No character of a drawing is written beyond the row that it is written into. -/
theorem block?_eq_some (e : Expr) : e.block? = some e.block := by
  obtain ⟨b, hb, -⟩ := e.exists_block
  rw [block, hb]
  rfl

/-- Every tree has a block whose rows fill its width. -/
theorem wellFormed_block (e : Expr) : e.block.WellFormed := by
  obtain ⟨b, hb, hwellFormed⟩ := e.exists_block
  rw [block, hb]
  exact hwellFormed

theorem block_unary (o : Operator) (x : Expr) : (unary o x).block =
    { rows := (Text.spaces x.block.width).set x.block.centre o.symbol ::
        (Text.spaces x.block.width).set x.block.centre '\\' :: x.block.rows
      width := x.block.width
      centre := x.block.centre } := by
  have hblock := (unary o x).block?_eq_some
  rw [block?, x.block?_eq_some] at hblock
  exact Option.some.inj (hblock.symm.trans (Block.under?_eq x.wellFormed_block))

theorem block_binary (o : Operator) (l r : Expr) : (binary o l r).block =
    { rows := (Text.spaces (l.block.width + gap + r.block.width)).set
          (l.block.joinCentre r.block) o.symbol ::
        ((Text.spaces (l.block.width + gap + r.block.width)).set l.block.centre '/').set
          (l.block.rightCentre r.block) '\\' ::
        l.block.beside r.block
      width := l.block.width + gap + r.block.width
      centre := l.block.joinCentre r.block } := by
  have hblock := (binary o l r).block?_eq_some
  rw [block?, l.block?_eq_some, r.block?_eq_some] at hblock
  exact Option.some.inj
    (hblock.symm.trans (Block.join?_eq l.wellFormed_block r.wellFormed_block))

theorem width_unary : (unary o x).block.width = x.block.width := by rw [block_unary]

theorem centre_unary : (unary o x).block.centre = x.block.centre := by rw [block_unary]

theorem width_binary : (binary o l r).block.width = l.block.width + gap + r.block.width := by
  rw [block_binary]

theorem centre_binary : (binary o l r).block.centre = l.block.joinCentre r.block := by
  rw [block_binary]

end Expr

/-! ## Cells -/

namespace Block

variable {x l r : Block} {i j : Nat}

/-- The character in a row and a column, counted from the upper left corner. -/
def cell (b : Block) (i j : Nat) : Char := ((b.rows[i]?.getD [])[j]?).getD ' '

/-- Beyond its last row, a block is blank. -/
theorem cell_of_length_le (h : x.rows.length ≤ i) : x.cell i j = ' ' := by
  rw [cell, List.getElem?_eq_none h]
  rfl

/-- Beyond its last column too. -/
theorem WellFormed.cell_of_width_le (hx : x.WellFormed) (h : x.width ≤ j) : x.cell i j = ' ' := by
  rw [cell]
  cases hrow : x.rows[i]? with
  | none => rfl
  | some row =>
    have hlength := hx.length_eq row (List.mem_of_getElem? hrow)
    rw [Option.getD_some, List.getElem?_eq_none (hlength ▸ h)]
    rfl

theorem spaces_getD (w j : Nat) : ((Text.spaces w)[j]?).getD ' ' = ' ' := by
  rw [Text.spaces, List.getElem?_replicate]
  split <;> rfl

theorem set_getD {row : Text} {k : Nat} (hk : k < row.length) (c : Char) (j : Nat) :
    ((row.set k c)[j]?).getD ' ' = if j = k then c else (row[j]?).getD ' ' := by
  rw [List.getElem?_set]
  by_cases hj : k = j
  · rw [if_pos hj, if_pos hk, if_pos hj.symm]
    rfl
  · rw [if_neg hj, if_neg (Ne.symm hj)]

/-- A blank row in which one character has been written. -/
theorem set_spaces_getD {w k : Nat} (hk : k < (Text.spaces w).length) (c : Char) (j : Nat) :
    (((Text.spaces w).set k c)[j]?).getD ' ' = if j = k then c else ' ' := by
  rw [set_getD hk, spaces_getD]

theorem cell_leaf (label : Text) (j : Nat) : (leaf label).cell 0 j = (label[j]?).getD ' ' := rfl

/-- Filling up a block changes no cell. -/
theorem padded_getD (x : Block) (height i j : Nat) :
    ((((x.padded height)[i]?).getD [])[j]?).getD ' ' = x.cell i j := by
  rw [padded, List.getElem?_append]
  split
  · rfl
  · next hi =>
    rw [cell_of_length_le (Nat.le_of_not_lt hi), List.getElem?_replicate]
    split
    · exact spaces_getD x.width j
    · rfl

/-- Side by side, the cells of the blocks stand to the left and to the right of the gap. -/
theorem beside_getD (hl : l.WellFormed) (r : Block) (i j : Nat) :
    ((((l.beside r)[i]?).getD [])[j]?).getD ' ' =
      if j < l.width then l.cell i j
      else if j < l.width + gap then ' '
      else r.cell i (j - (l.width + gap)) := by
  rw [beside, List.getElem?_zipWith]
  generalize hheight : max l.rows.length r.rows.length = height
  have hll : l.rows.length ≤ height := hheight ▸ Nat.le_max_left ..
  have hrl : r.rows.length ≤ height := hheight ▸ Nat.le_max_right ..
  rw [← padded_getD l height, ← padded_getD r height]
  rcases Nat.lt_or_ge i height with hi | hi
  · have hleft : i < (l.padded height).length := by rwa [length_padded hll]
    have hright : i < (r.padded height).length := by rwa [length_padded hrl]
    have hwidth := hl.length_of_mem_padded (List.getElem_mem hleft)
    rw [List.getElem?_eq_getElem hleft, List.getElem?_eq_getElem hright]
    simp only [Option.getD_some]
    rw [List.getElem?_append, List.getElem?_append, hwidth, length_spaces]
    split
    · rfl
    · split
      · next h => rw [if_pos (by omega), spaces_getD]
      · next h => rw [if_neg (by omega), Nat.sub_sub]
  · have hleft : (l.padded height)[i]? = none :=
      List.getElem?_eq_none (by rwa [length_padded hll])
    have hright : (r.padded height)[i]? = none :=
      List.getElem?_eq_none (by rwa [length_padded hrl])
    rw [hleft, hright]
    show ' ' = if j < l.width then ' ' else if j < l.width + gap then ' ' else ' '
    rw [ite_self, ite_self]

end Block

namespace Expr

open Block (gap set_getD set_spaces_getD)

theorem cell_unary_symbol (o : Operator) (x : Expr) (j : Nat) :
    (unary o x).block.cell 0 j = if j = x.block.centre then o.symbol else ' ' := by
  rw [block_unary]
  exact set_spaces_getD x.wellFormed_block.centre_lt_length o.symbol j

theorem cell_unary_branch (o : Operator) (x : Expr) (j : Nat) :
    (unary o x).block.cell 1 j = if j = x.block.centre then '\\' else ' ' := by
  rw [block_unary]
  exact set_spaces_getD x.wellFormed_block.centre_lt_length '\\' j

theorem cell_unary_operand (o : Operator) (x : Expr) (i j : Nat) :
    (unary o x).block.cell (i + 2) j = x.block.cell i j := by
  rw [block_unary]
  rfl

theorem cell_binary_symbol (o : Operator) (l r : Expr) (j : Nat) : (binary o l r).block.cell 0 j =
    if j = l.block.joinCentre r.block then o.symbol else ' ' := by
  have hcentre := Block.joinCentre_lt_length l.wellFormed_block r.wellFormed_block
  rw [block_binary]
  exact set_spaces_getD hcentre o.symbol j

theorem cell_binary_branches (o : Operator) (l r : Expr) (j : Nat) :
    (binary o l r).block.cell 1 j =
      if j = l.block.rightCentre r.block then '\\'
      else if j = l.block.centre then '/' else ' ' := by
  have hright := Block.rightCentre_lt_length (l := l.block) r.wellFormed_block
  have hrow := set_getD hright '\\' j
  rw [set_spaces_getD (Block.leftCentre_lt_length l.wellFormed_block)] at hrow
  rwa [block_binary]

theorem cell_binary_operands (o : Operator) (l r : Expr) (i j : Nat) :
    (binary o l r).block.cell (i + 2) j =
      if j < l.block.width then l.block.cell i j
      else if j < l.block.width + gap then ' '
      else r.block.cell i (j - (l.block.width + gap)) := by
  rw [block_binary]
  exact Block.beside_getD l.wellFormed_block r.block i j

end Expr

end TreeCalculator
