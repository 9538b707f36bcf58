import TreeCalculator.Proofs.Drawing.Block

/-!
# A drawing determines its tree

A drawing is read from the centre of its root down. Nothing marks where a block ends, so what is
around the centre must tell: the number of a leaf goes on to the next space on either side, a `\`
right below an operator leads to its only operand, and otherwise the nearest `/` on the left and the
nearest `\` on the right lead to the centres of its two operands.

`Placed grid b top left` says where a block stands in a grid of characters, with nothing else in its
columns from its first row down. The blocks inside a block are placed too, so the reading goes on
with them, and `Expr.placed_unique` is the result: two trees whose centres fall on one cell of one
grid are the same tree.
-/

namespace TreeCalculator

namespace Block

variable {grid : Nat → Nat → Char} {b : Block} {x l r l' r' : Expr} {o o' : Operator}
  {label label' : Text} {top left left' column : Nat}

/-- The grid shows the block `b` with its upper left corner in the row `top` and the column `left`.
From that row down there is nothing else in its columns, nor in the columns next to them. -/
structure Placed (grid : Nat → Nat → Char) (b : Block) (top left : Nat) : Prop where
  cell_eq : ∀ i j, j < b.width → grid (top + i) (left + j) = b.cell i j
  blank_left : ∀ i j, j + 1 = left → grid (top + i) j = ' '
  blank_right : ∀ i, grid (top + i) (left + b.width) = ' '

/-- A block stands in the upper left corner of its own grid. -/
theorem WellFormed.placed (hb : b.WellFormed) : Placed b.cell b 0 0 where
  cell_eq := by
    intro i j _
    rw [Nat.zero_add, Nat.zero_add]
  blank_left := by
    intro i j hj
    exact absurd hj (Nat.succ_ne_zero j)
  blank_right := by
    intro i
    rw [Nat.zero_add, Nat.zero_add]
    exact hb.cell_of_width_le (Nat.le_refl _)

/-! ## The blocks inside a block -/

/-- The operand of a sign stands two rows below it, in the same columns. -/
theorem Placed.operand (h : Placed grid (Expr.unary o x).block top left) :
    Placed grid x.block (top + 2) left where
  cell_eq := by
    intro i j hj
    rw [Nat.add_right_comm, Nat.add_assoc,
      h.cell_eq (i + 2) j (Nat.lt_of_lt_of_eq hj Expr.width_unary.symm), Expr.cell_unary_operand]
  blank_left := by
    intro i j hj
    rw [Nat.add_right_comm, Nat.add_assoc]
    exact h.blank_left (i + 2) j hj
  blank_right := by
    intro i
    have hblank := h.blank_right (i + 2)
    rwa [Expr.width_unary, ← Nat.add_assoc, Nat.add_right_comm] at hblank

/-- What stands right below a symbol between two operands. -/
theorem Placed.branches (h : Placed grid (Expr.binary o l r).block top left) {j : Nat}
    (hj : j < l.block.width + gap + r.block.width) : grid (top + 1) (left + j) =
      if j = l.block.rightCentre r.block then '\\'
      else if j = l.block.centre then '/' else ' ' := by
  rw [h.cell_eq 1 j (Nat.lt_of_lt_of_eq hj Expr.width_binary.symm), Expr.cell_binary_branches]

/-- What stands two rows below it, and further down. -/
theorem Placed.operands (h : Placed grid (Expr.binary o l r).block top left) (i : Nat) {j : Nat}
    (hj : j < l.block.width + gap + r.block.width) : grid (top + 2 + i) (left + j) =
      if j < l.block.width then l.block.cell i j
      else if j < l.block.width + gap then ' '
      else r.block.cell i (j - (l.block.width + gap)) := by
  rw [Nat.add_right_comm, Nat.add_assoc,
    h.cell_eq (i + 2) j (Nat.lt_of_lt_of_eq hj Expr.width_binary.symm), Expr.cell_binary_operands]

/-- The left operand stands to the left of the gap. -/
theorem Placed.leftOperand (h : Placed grid (Expr.binary o l r).block top left) :
    Placed grid l.block (top + 2) left where
  cell_eq := by
    intro i j hj
    rw [h.operands i (by omega), if_pos hj]
  blank_left := by
    intro i j hj
    rw [Nat.add_right_comm, Nat.add_assoc]
    exact h.blank_left (i + 2) j hj
  blank_right := by
    intro i
    have hgap : l.block.width < l.block.width + gap := Nat.lt_add_of_pos_right (by decide)
    rw [h.operands i (by omega), if_neg (Nat.lt_irrefl _), if_pos hgap]

/-- The right operand stands to the right of the gap. -/
theorem Placed.rightOperand (h : Placed grid (Expr.binary o l r).block top left) :
    Placed grid r.block (top + 2) (left + (l.block.width + gap)) where
  cell_eq := by
    intro i j hj
    rw [Nat.add_assoc left, h.operands i (by omega), if_neg (by omega), if_neg (by omega),
      Nat.add_sub_cancel_left]
  blank_left := by
    intro i j hj
    have hcolumn : j = left + (l.block.width + 1) := by
      simp only [gap] at hj
      omega
    rw [hcolumn, h.operands i (by simp only [gap]; omega), if_neg (by omega),
      if_pos (by simp only [gap]; omega)]
  blank_right := by
    intro i
    have hblank := h.blank_right (i + 2)
    rwa [Expr.width_binary, ← Nat.add_assoc, Nat.add_right_comm, ← Nat.add_assoc left] at hblank

/-! ## The extent of a label -/

/-- The grid shows a label from its first to its last character. -/
theorem Placed.label_eq (h : Placed grid (leaf label) top left) {j : Nat} (hj : j < label.length) :
    grid top (left + j) = label[j] := by
  have hcell : grid (top + 0) (left + j) = (leaf label).cell 0 j := h.cell_eq 0 j hj
  rwa [cell_leaf, List.getElem?_eq_getElem hj] at hcell

theorem Placed.ne_space (hlabel : ∀ c ∈ label, c ≠ ' ') (h : Placed grid (leaf label) top left)
    (hfrom : left ≤ column) (hto : column < left + label.length) : grid top column ≠ ' ' := by
  obtain ⟨j, rfl⟩ := Nat.exists_eq_add_of_le hfrom
  rw [h.label_eq (Nat.lt_of_add_lt_add_left hto)]
  exact hlabel _ (List.getElem_mem _)

/-- Of two labels in one row that share a column, neither begins before the other. -/
theorem Placed.label_from (hlabel : ∀ c ∈ label, c ≠ ' ') (h : Placed grid (leaf label) top left)
    (h' : Placed grid (leaf label') top left') (hto : column < left + label.length)
    (hfrom' : left' ≤ column) : left' ≤ left := by
  refine Nat.le_of_not_lt fun hlt => ?_
  obtain ⟨j, hj⟩ : ∃ j, left' = j + 1 := Nat.exists_eq_add_one.2 (Nat.zero_lt_of_lt hlt)
  have hblank : grid top j = ' ' := h'.blank_left 0 j hj.symm
  exact h.ne_space hlabel (by omega) (by omega) hblank

/-- And neither ends after the other. -/
theorem Placed.label_to (hlabel : ∀ c ∈ label, c ≠ ' ') (h : Placed grid (leaf label) top left)
    (h' : Placed grid (leaf label') top left') (hfrom : left ≤ column)
    (hto' : column < left' + label'.length) :
    left + label.length ≤ left' + label'.length := by
  refine Nat.le_of_not_lt fun hlt => ?_
  have hblank : grid top (left' + label'.length) = ' ' := h'.blank_right 0
  exact h.ne_space hlabel (by omega) hlt hblank

/-- So they are the same label. -/
theorem Placed.label_unique (hlabel : ∀ c ∈ label, c ≠ ' ') (hlabel' : ∀ c ∈ label', c ≠ ' ')
    (h : Placed grid (leaf label) top left) (h' : Placed grid (leaf label') top left')
    (hfrom : left ≤ column) (hto : column < left + label.length) (hfrom' : left' ≤ column)
    (hto' : column < left' + label'.length) : label = label' := by
  obtain rfl : left = left' :=
    Nat.le_antisymm (h'.label_from hlabel' h hto' hfrom) (h.label_from hlabel h' hto hfrom')
  have hlength : label.length = label'.length := by
    have hle := h.label_to hlabel h' hfrom hto'
    have hge := h'.label_to hlabel' h hfrom' hto
    omega
  refine List.ext_getElem hlength fun j hj hj' => ?_
  rw [← h.label_eq hj, h'.label_eq hj']

/-! ## The nearest branches -/

/-- In the columns of a block, a `/` in its second row is the branch to its left operand. -/
theorem Placed.slash_iff (h : Placed grid (Expr.binary o l r).block top left)
    (hfrom : left ≤ column) (hto : column < left + (l.block.width + gap + r.block.width)) :
    grid (top + 1) column = '/' ↔ column = left + l.block.centre := by
  obtain ⟨j, rfl⟩ := Nat.exists_eq_add_of_le hfrom
  have hlt : l.block.centre < l.block.rightCentre r.block :=
    Nat.lt_trans (centre_lt_joinCentre l.wellFormed_block)
      (joinCentre_lt_rightCentre l.wellFormed_block)
  rw [h.branches (Nat.lt_of_add_lt_add_left hto), Nat.add_left_cancel_iff]
  split
  · next hj => exact iff_of_false (by decide) (by omega)
  · split
    · next hj => exact iff_of_true rfl hj
    · next hj => exact iff_of_false (by decide) hj

/-- A `\` there is the branch to its right operand. -/
theorem Placed.backslash_iff (h : Placed grid (Expr.binary o l r).block top left)
    (hfrom : left ≤ column) (hto : column < left + (l.block.width + gap + r.block.width)) :
    grid (top + 1) column = '\\' ↔ column = left + l.block.rightCentre r.block := by
  obtain ⟨j, rfl⟩ := Nat.exists_eq_add_of_le hfrom
  rw [h.branches (Nat.lt_of_add_lt_add_left hto), Nat.add_left_cancel_iff]
  split
  · next hj => exact iff_of_true rfl hj
  · next hj =>
    refine iff_of_false ?_ hj
    split
    · decide
    · decide

/-- Of two symbols in one cell, neither has its left branch nearer than the other. -/
theorem Placed.left_branch_le (h : Placed grid (Expr.binary o l r).block top left)
    (h' : Placed grid (Expr.binary o' l' r').block top left')
    (hcentre : left + l.block.joinCentre r.block = left' + l'.block.joinCentre r'.block) :
    left' + l'.block.centre ≤ left + l.block.centre := by
  refine Nat.le_of_not_lt fun hlt => ?_
  have hbranch : l'.block.centre < l'.block.joinCentre r'.block :=
    centre_lt_joinCentre l'.wellFormed_block
  have hwidth : l.block.joinCentre r.block < l.block.width + gap + r.block.width :=
    joinCentre_lt l.wellFormed_block r.wellFormed_block
  have hwidth' : l'.block.joinCentre r'.block < l'.block.width + gap + r'.block.width :=
    joinCentre_lt l'.wellFormed_block r'.wellFormed_block
  have hslash : grid (top + 1) (left' + l'.block.centre) = '/' :=
    (h'.slash_iff (by omega) (by omega)).2 rfl
  -- the nearer branch stands in the columns of the other block, which has only one
  have hsame := (h.slash_iff (by omega) (by omega)).1 hslash
  omega

/-- Nor its right branch. -/
theorem Placed.right_branch_le (h : Placed grid (Expr.binary o l r).block top left)
    (h' : Placed grid (Expr.binary o' l' r').block top left')
    (hcentre : left + l.block.joinCentre r.block = left' + l'.block.joinCentre r'.block) :
    left + l.block.rightCentre r.block ≤ left' + l'.block.rightCentre r'.block := by
  refine Nat.le_of_not_lt fun hlt => ?_
  have hbranch' : l'.block.joinCentre r'.block < l'.block.rightCentre r'.block :=
    joinCentre_lt_rightCentre l'.wellFormed_block
  have hwidth : l.block.rightCentre r.block < l.block.width + gap + r.block.width :=
    rightCentre_lt r.wellFormed_block
  have hwidth' : l'.block.rightCentre r'.block < l'.block.width + gap + r'.block.width :=
    rightCentre_lt r'.wellFormed_block
  have hbackslash : grid (top + 1) (left' + l'.block.rightCentre r'.block) = '\\' :=
    (h'.backslash_iff (by omega) (by omega)).2 rfl
  have hsame := (h.backslash_iff (by omega) (by omega)).1 hbackslash
  omega

/-- So two symbols in one cell have the same branches. -/
theorem Placed.branches_unique (h : Placed grid (Expr.binary o l r).block top left)
    (h' : Placed grid (Expr.binary o' l' r').block top left')
    (hcentre : left + l.block.joinCentre r.block = left' + l'.block.joinCentre r'.block) :
    left + l.block.centre = left' + l'.block.centre ∧
      left + l.block.rightCentre r.block = left' + l'.block.rightCentre r'.block :=
  ⟨Nat.le_antisymm (left_branch_le h' h hcentre.symm) (left_branch_le h h' hcentre),
    Nat.le_antisymm (right_branch_le h h' hcentre) (right_branch_le h' h hcentre.symm)⟩

end Block

namespace Expr

open Block (Placed)

variable {grid : Nat → Nat → Char} {e e' x l r : Expr} {o o' : Operator} {top left left' : Nat}

/-! ## The centre of a tree -/

/-- A digit stands at the centre of a leaf, and only there. -/
theorem isDigit_cell_centre_iff (e : Expr) :
    (e.block.cell 0 e.block.centre).isDigit = true ↔ ∃ n, e = num n := by
  cases e with
  | num n =>
    obtain ⟨c, hc, hdigit⟩ := Text.isDigit_middle_ofInt n
    have hcell : (num n).block.cell 0 (num n).block.centre = c := congrArg (Option.getD · ' ') hc
    rw [hcell]
    exact iff_of_true hdigit ⟨n, rfl⟩
  | unary o x =>
    rw [cell_unary_symbol, if_pos centre_unary, o.isDigit_symbol]
    exact iff_of_false nofun nofun
  | binary o l r =>
    rw [cell_binary_symbol, if_pos centre_binary, o.isDigit_symbol]
    exact iff_of_false nofun nofun

/-- Right below the sign is the branch to its operand. -/
theorem cell_unary_below (o : Operator) (x : Expr) :
    (unary o x).block.cell 1 (unary o x).block.centre = '\\' :=
  (cell_unary_branch o x _).trans (if_pos centre_unary)

/-- Right below an operator between two operands there is nothing. -/
theorem cell_binary_below (o : Operator) (l r : Expr) :
    (binary o l r).block.cell 1 (binary o l r).block.centre = ' ' := by
  have hleft : l.block.centre < l.block.joinCentre r.block :=
    Block.centre_lt_joinCentre l.wellFormed_block
  have hright : l.block.joinCentre r.block < l.block.rightCentre r.block :=
    Block.joinCentre_lt_rightCentre l.wellFormed_block
  rw [centre_binary, cell_binary_branches, if_neg (Nat.ne_of_lt hright),
    if_neg (Nat.ne_of_gt hleft)]

/-- Two trees whose centres fall on one cell have the same character there, and the same below. -/
theorem cell_centre_eq (h : Placed grid e.block top left) (h' : Placed grid e'.block top left')
    (hcentre : left + e.block.centre = left' + e'.block.centre) (i : Nat) :
    e.block.cell i e.block.centre = e'.block.cell i e'.block.centre := by
  rw [← h.cell_eq i _ e.wellFormed_block.centre_lt, ← h'.cell_eq i _ e'.wellFormed_block.centre_lt,
    hcentre]

/-- Either both are leaves or none is. -/
theorem num_iff_num (h : Placed grid e.block top left) (h' : Placed grid e'.block top left')
    (hcentre : left + e.block.centre = left' + e'.block.centre) :
    (∃ m, e = num m) ↔ ∃ n, e' = num n := by
  rw [← isDigit_cell_centre_iff e, ← isDigit_cell_centre_iff e', cell_centre_eq h h' hcentre]

/-- A sign and an operator between two operands are told apart by the cell below. -/
theorem not_unary_binary (h : Placed grid (unary o x).block top left)
    (h' : Placed grid (binary o' l r).block top left') :
    left + (unary o x).block.centre ≠ left' + (binary o' l r).block.centre := by
  intro hcentre
  have hbelow := cell_centre_eq h h' hcentre 1
  rw [cell_unary_below, cell_binary_below] at hbelow
  cases hbelow

/-! ## Reading a tree -/

/-- Two leaves with their centres in one cell are the same leaf. -/
theorem num_unique {m n : Int} (h : Placed grid (num m).block top left)
    (h' : Placed grid (num n).block top left')
    (hcentre : left + (num m).block.centre = left' + (num n).block.centre) : m = n := by
  have hm : left + (num m).block.centre < left + (Text.ofInt m).length :=
    Nat.add_lt_add_left (num m).wellFormed_block.centre_lt _
  have hn : left' + (num n).block.centre < left' + (Text.ofInt n).length :=
    Nat.add_lt_add_left (num n).wellFormed_block.centre_lt _
  have hfrom : left ≤ left + (num m).block.centre := Nat.le_add_right ..
  rw [hcentre] at hm hfrom
  have hlabel : Text.ofInt m = Text.ofInt n :=
    Placed.label_unique (fun _ => Text.ne_space_of_mem_ofInt)
      (fun _ => Text.ne_space_of_mem_ofInt) h h' hfrom hm (Nat.le_add_right ..) hn
  exact Text.ofInt_injective hlabel

/-- In one grid, at most one tree has its centre in a given cell. -/
theorem placed_unique (he : e.WellTyped) (he' : e'.WellTyped) (h : Placed grid e.block top left)
    (h' : Placed grid e'.block top left')
    (hcentre : left + e.block.centre = left' + e'.block.centre) : e = e' := by
  -- the corners of the two blocks may differ; only the cell of their centres is shared
  induction e generalizing e' top left left' with
  | num m =>
    obtain ⟨n, rfl⟩ := (num_iff_num h h' hcentre).1 ⟨m, rfl⟩
    rw [num_unique h h' hcentre]
  | unary o x ih =>
    cases e' with
    | num n => exact nomatch (num_iff_num h h' hcentre).2 ⟨n, rfl⟩
    | unary o' x' =>
      obtain rfl := Operator.eq_neg_of_isUnary he.1
      obtain rfl := Operator.eq_neg_of_isUnary he'.1
      rw [centre_unary, centre_unary] at hcentre
      rw [ih he.2 he'.2 h.operand h'.operand hcentre]
    | binary o' l' r' => exact absurd hcentre (not_unary_binary h h')
  | binary o l r ihl ihr =>
    cases e' with
    | num n => exact nomatch (num_iff_num h h' hcentre).2 ⟨n, rfl⟩
    | unary o' x' => exact absurd hcentre.symm (not_unary_binary h' h)
    | binary o' l' r' =>
      obtain ⟨ho, hl, hr⟩ := he
      obtain ⟨ho', hl', hr'⟩ := he'
      have hsymbol := cell_centre_eq h h' hcentre 0
      rw [cell_binary_symbol, if_pos centre_binary, cell_binary_symbol, if_pos centre_binary]
        at hsymbol
      rw [centre_binary, centre_binary] at hcentre
      obtain ⟨hleft, hright⟩ := Placed.branches_unique h h' hcentre
      -- the right operand stands behind the left one and the gap
      rw [Block.rightCentre, Block.rightCentre, ← Nat.add_assoc left, ← Nat.add_assoc left']
        at hright
      rw [Operator.eq_of_symbol_eq ho ho' hsymbol,
        ihl hl hl' h.leftOperand h'.leftOperand hleft,
        ihr hr hr' h.rightOperand h'.rightOperand hright]

/-! ## The root of a drawing -/

/-- In the first row of the drawing of an operator, nothing but its symbol is to be seen. -/
theorem eq_centre_of_cell_ne_space {j : Nat} (he : ¬∃ n, e = num n)
    (hj : e.block.cell 0 j ≠ ' ') : j = e.block.centre := by
  refine Classical.byContradiction fun hne => hj ?_
  cases e with
  | num n => exact absurd ⟨n, rfl⟩ he
  | unary o x =>
    rw [centre_unary] at hne
    rw [cell_unary_symbol, if_neg hne]
  | binary o l r =>
    rw [centre_binary] at hne
    rw [cell_binary_symbol, if_neg hne]

/-- At the centre of a tree something is to be seen. -/
theorem cell_centre_ne_space (e : Expr) : e.block.cell 0 e.block.centre ≠ ' ' := by
  intro hspace
  cases e with
  | num n =>
    have hdigit := (isDigit_cell_centre_iff (num n)).2 ⟨n, rfl⟩
    rw [hspace] at hdigit
    cases hdigit
  | unary o x =>
    rw [cell_unary_symbol, if_pos centre_unary] at hspace
    exact o.symbol_ne_space hspace
  | binary o l r =>
    rw [cell_binary_symbol, if_pos centre_binary] at hspace
    exact o.symbol_ne_space hspace

/-- Trees with the same drawing have the same centre. -/
theorem centre_eq_of_drawing_eq (h : e.drawing = e'.drawing) :
    e.block.centre = e'.block.centre := by
  have hcell (i j : Nat) : e.block.cell i j = e'.block.cell i j :=
    congrArg (fun rows : List Text => ((rows[i]?.getD [])[j]?).getD ' ') h
  by_cases hnum : ∃ m, e = num m
  · by_cases hnum' : ∃ n, e' = num n
    · -- the first row of a leaf shows no centre, but it is the whole label
      obtain ⟨m, rfl⟩ := hnum
      obtain ⟨n, rfl⟩ := hnum'
      have hlabel : Text.ofInt m = Text.ofInt n := (List.cons.inj h).1
      rw [Text.ofInt_injective hlabel]
    · have hvisible := cell_centre_ne_space e
      rw [hcell] at hvisible
      exact eq_centre_of_cell_ne_space hnum' hvisible
  · have hvisible := cell_centre_ne_space e'
    rw [← hcell] at hvisible
    exact (eq_centre_of_cell_ne_space hnum hvisible).symm

/-- **A drawing determines its tree.** Two well-typed trees with the same drawing, blanks included,
are the same tree, whatever their literals and shapes. -/
theorem drawing_injective (he : e.WellTyped) (he' : e'.WellTyped) (h : e.drawing = e'.drawing) :
    e = e' := by
  have hrows : e'.block.rows = e.block.rows := h.symm
  have hplaced : Placed e.block.cell e.block 0 0 := e.wellFormed_block.placed
  have hplaced' : Placed e.block.cell e'.block 0 0 := by
    have hcell : e'.block.cell = e.block.cell := by
      funext i j
      rw [Block.cell, Block.cell, hrows]
    exact hcell ▸ e'.wellFormed_block.placed
  refine placed_unique he he' hplaced hplaced' ?_
  rw [centre_eq_of_drawing_eq h]

/-- The power of `-7` to `-(1 - 23)`, where a `-` is part of a literal, a sign and a subtraction. -/
theorem drawing_injective_minuses :
    let e : Expr := .binary .pow (.num (-7)) (.unary .neg (.binary .sub (.num 1) (.num 23)))
    let e' : Expr := .binary .pow (.num (.negSucc 6))
      (.unary .neg (.binary .sub (.num 1) (.num 23)))
    e.WellTyped ∧ e'.WellTyped ∧
      e.drawing = ["   ^     ",
                   " /    \\  ",
                   "-7    -  ",
                   "      \\  ",
                   "      -  ",
                   "    /   \\",
                   "    1  23"].map String.toList ∧
      e'.drawing = e.drawing ∧ e = e' := by
  intro e e'
  have hrows : e.drawing = ["   ^     ",
                   " /    \\  ",
                   "-7    -  ",
                   "      \\  ",
                   "      -  ",
                   "    /   \\",
                   "    1  23"].map String.toList := rfl
  have htyped : e.WellTyped := ⟨rfl, trivial, rfl, rfl, trivial, trivial⟩
  have htyped' : e'.WellTyped := ⟨rfl, trivial, rfl, rfl, trivial, trivial⟩
  have hsame : e'.drawing = e.drawing := rfl
  exact ⟨htyped, htyped', hrows, hsame, drawing_injective htyped htyped' hsame.symm⟩

end Expr

end TreeCalculator
