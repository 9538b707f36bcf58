import Mathlib.Data.List.Nodup
import Mathlib.Data.Set.Basic
import TreeCalculator.Proofs.Drawing.Decoding
import TreeCalculator.Proofs.Drawing.Extent

/-!
# What a drawing shows

`Drawn e row column marks` says how a tree is drawn, without blocks: the marks are the characters
of its labels and branches, every branch ends in the cell above the centre of an operand, and the
centre of the whole tree is in the given row and column. Nothing is said there about how far apart
the operands stand, so two subtrees could cover each other.

They do not. For a block that is placed in a grid, there are marks that draw its tree, no two of
them in one cell, and all other cells of the block are blank (`exists_drawn`). `drawing_marks` is
the result for the whole drawing.
-/

namespace TreeCalculator

/-- The character in a row and a column, if there is one. -/
def Text.charAt? (rows : List Text) (i j : Nat) : Option Char := rows[i]?.bind fun row => row[j]?

/-- A character that is seen in a drawing, with its row and its column. -/
structure Mark where
  row : Nat
  column : Nat
  char : Char

namespace Mark

/-- The cell that a mark stands in. -/
def cell (m : Mark) : Nat × Nat := (m.row, m.column)

/-- The characters of a text, on contiguous cells of a row. -/
def ofText (row left : Nat) (t : Text) : List Mark :=
  t.mapIdx fun j c => { row, column := left + j, char := c }

variable {row left : Nat} {t : Text}

theorem map_cell_ofText (row left : Nat) (t : Text) :
    (ofText row left t).map cell = (List.range t.length).map fun j => (row, left + j) := by
  refine List.ext_getElem ?_ fun j hj hj' => ?_
  · rw [List.length_map, List.length_map, ofText, List.length_mapIdx, List.length_range]
  · simp only [ofText, List.getElem_map, List.getElem_mapIdx, List.getElem_range, cell]

theorem nodup_ofText (row left : Nat) (t : Text) : ((ofText row left t).map cell).Nodup := by
  rw [map_cell_ofText]
  refine List.Nodup.map ?_ List.nodup_range
  intro j k h
  exact Nat.add_left_cancel (Prod.mk.inj h).2

end Mark

namespace Expr

/-- The marks draw the tree, with the centre of its label in the given row and column. -/
inductive Drawn : Expr → Nat → Nat → List Mark → Prop where
  /-- The digits of a literal stand in one row, and the middle one is the centre. -/
  | num (n : Int) (row left : Nat) :
      Drawn (num n) row (left + (Text.ofInt n).length / 2) (Mark.ofText row left (Text.ofInt n))
  /-- A `\` leads from a symbol straight down to its only operand. -/
  | unary (op : Operator) {x : Expr} {row column : Nat} {marks : List Mark} :
      Drawn x (row + 2) column marks →
      Drawn (unary op x) row column (⟨row, column, op.symbol⟩ :: ⟨row + 1, column, '\\'⟩ :: marks)
  /-- A `/` leads from a symbol down to its left operand, a `\` to its right one. -/
  | binary (op : Operator) {l r : Expr} {row column left right : Nat} {ms ns : List Mark} :
      left < column → column < right → Drawn l (row + 2) left ms → Drawn r (row + 2) right ns →
      Drawn (binary op l r) row column
        (⟨row, column, op.symbol⟩ :: ⟨row + 1, left, '/'⟩ :: ⟨row + 1, right, '\\'⟩ :: (ms ++ ns))

/-- No mark is a space. -/
theorem Drawn.char_ne_space {e : Expr} {row column : Nat} {marks : List Mark}
    (h : Drawn e row column marks) : ∀ m ∈ marks, m.char ≠ ' ' := by
  have hslash : '/' ≠ ' ' := by decide
  have hbackslash : '\\' ≠ ' ' := by decide
  induction h with
  | num n row left =>
    intro m hm
    obtain ⟨j, hj, rfl⟩ := List.mem_mapIdx.1 hm
    exact Text.ne_space_of_mem_ofInt (List.getElem_mem hj)
  | unary op _ ih =>
    exact List.forall_mem_cons.2 ⟨op.symbol_ne_space, List.forall_mem_cons.2 ⟨hbackslash, ih⟩⟩
  | binary op _ _ _ _ ihl ihr =>
    refine List.forall_mem_cons.2 ⟨op.symbol_ne_space, ?_⟩
    refine List.forall_mem_cons.2 ⟨hslash, List.forall_mem_cons.2 ⟨hbackslash, ?_⟩⟩
    exact List.forall_mem_append.2 ⟨ihl, ihr⟩

end Expr

/-! ## Marks in a part of a grid -/

/-- In the cells of the region the grid shows the marks and nothing else, and no two of them are in
one cell. -/
structure Shows (grid : Nat → Nat → Char) (region : Set (Nat × Nat)) (marks : List Mark) :
    Prop where
  char_eq : ∀ m ∈ marks, grid m.row m.column = m.char
  cell_mem : ∀ m ∈ marks, m.cell ∈ region
  blank : ∀ i j, (i, j) ∈ region → (i, j) ∉ marks.map Mark.cell → grid i j = ' '
  nodup : (marks.map Mark.cell).Nodup

/-- The cells of a row in `width` columns. -/
def rowRegion (width row left : Nat) : Set (Nat × Nat) :=
  {p | p.1 = row ∧ left ≤ p.2 ∧ p.2 < left + width}

/-- The cells in `width` columns, from the row `top` down. -/
def region (width top left : Nat) : Set (Nat × Nat) :=
  {p | top ≤ p.1 ∧ left ≤ p.2 ∧ p.2 < left + width}

namespace Shows

variable {grid : Nat → Nat → Char} {R S : Set (Nat × Nat)} {ms ns : List Mark}
  {k k' width width' top left : Nat} {c c' : Char}

theorem mem_of_mem_map (h : Shows grid R ms) {p : Nat × Nat} (hp : p ∈ ms.map Mark.cell) :
    p ∈ R := by
  obtain ⟨m, hm, rfl⟩ := List.mem_map.1 hp
  exact h.cell_mem m hm

/-- The marks of two regions that have no cell in common. -/
theorem append (h : Shows grid R ms) (h' : Shows grid S ns) (hdisjoint : ∀ p ∈ R, p ∉ S) :
    Shows grid (R ∪ S) (ms ++ ns) where
  char_eq := fun m hm => (List.mem_append.1 hm).elim (h.char_eq m) (h'.char_eq m)
  cell_mem := fun m hm => (List.mem_append.1 hm).imp (h.cell_mem m) (h'.cell_mem m)
  blank := by
    intro i j hp hmem
    rw [List.map_append, List.mem_append, not_or] at hmem
    exact hp.elim (fun hp => h.blank i j hp hmem.1) fun hp => h'.blank i j hp hmem.2
  nodup := by
    rw [List.map_append]
    refine h.nodup.append h'.nodup fun p hp hp' => ?_
    exact hdisjoint p (h.mem_of_mem_map hp) (h'.mem_of_mem_map hp')

/-- Blank cells around a region add no marks. -/
theorem widen (h : Shows grid R ms) (hsub : R ⊆ S)
    (hblank : ∀ i j, (i, j) ∈ S → (i, j) ∉ R → grid i j = ' ') : Shows grid S ms where
  char_eq := h.char_eq
  cell_mem := fun m hm => hsub (h.cell_mem m hm)
  blank := by
    intro i j hp hmem
    by_cases hR : (i, j) ∈ R
    · exact h.blank i j hR hmem
    · exact hblank i j hp hR
  nodup := h.nodup

theorem mem_rowRegion (hk : k < width) : (top, left + k) ∈ rowRegion width top left :=
  ⟨rfl, Nat.le_add_right .., Nat.add_lt_add_left hk _⟩

/-- A row with one mark. -/
theorem row_one (hk : k < width)
    (hrow : ∀ n, n < width → grid top (left + n) = if n = k then c else ' ') :
    Shows grid (rowRegion width top left) [⟨top, left + k, c⟩] where
  char_eq := List.forall_mem_singleton.2 ((hrow k hk).trans (if_pos rfl))
  cell_mem := List.forall_mem_singleton.2 (mem_rowRegion hk)
  blank := by
    rintro i j ⟨rfl, hfrom, hto⟩ hfree
    obtain ⟨n, rfl⟩ := Nat.exists_eq_add_of_le hfrom
    have hne : n ≠ k := fun heq => hfree (heq ▸ List.mem_singleton_self _)
    exact (hrow n (Nat.lt_of_add_lt_add_left hto)).trans (if_neg hne)
  nodup := List.nodup_singleton _

/-- A row with two marks. -/
theorem row_two (hk : k < k') (hk' : k' < width)
    (hrow : ∀ n, n < width →
      grid top (left + n) = if n = k' then c' else if n = k then c else ' ') :
    Shows grid (rowRegion width top left) [⟨top, left + k, c⟩, ⟨top, left + k', c'⟩] where
  char_eq := by
    have hchar : grid top (left + k) = c := by
      rw [hrow k (Nat.lt_trans hk hk'), if_neg (Nat.ne_of_lt hk), if_pos rfl]
    have hchar' : grid top (left + k') = c' := by rw [hrow k' hk', if_pos rfl]
    exact List.forall_mem_cons.2 ⟨hchar, List.forall_mem_singleton.2 hchar'⟩
  cell_mem := List.forall_mem_cons.2
    ⟨mem_rowRegion (Nat.lt_trans hk hk'), List.forall_mem_singleton.2 (mem_rowRegion hk')⟩
  blank := by
    rintro i j ⟨rfl, hfrom, hto⟩ hfree
    obtain ⟨n, rfl⟩ := Nat.exists_eq_add_of_le hfrom
    have hne : n ≠ k := fun heq => hfree (heq ▸ List.mem_cons_self)
    have hne' : n ≠ k' := fun heq => hfree (heq ▸ List.mem_cons_of_mem _ List.mem_cons_self)
    rw [hrow n (Nat.lt_of_add_lt_add_left hto), if_neg hne', if_neg hne]
  nodup := by
    refine List.nodup_cons.2 ⟨fun hmem => ?_, List.nodup_singleton _⟩
    have hcolumn := (Prod.mk.inj (List.mem_singleton.1 hmem)).2
    exact Nat.ne_of_lt hk (Nat.add_left_cancel hcolumn)

/-- A row above a region of the same columns. -/
theorem above (h : Shows grid (region width (top + 1) left) ns)
    (hrow : Shows grid (rowRegion width top left) ms) :
    Shows grid (region width top left) (ms ++ ns) := by
  refine (hrow.append h fun p hp hp' => ?_).widen ?_ fun i j hp hfree => ?_
  · exact absurd hp.1 (Nat.ne_of_gt hp'.1)
  · rintro p (⟨hrow, hcolumns⟩ | ⟨hrow, hcolumns⟩)
    · exact ⟨Nat.le_of_eq hrow.symm, hcolumns⟩
    · exact ⟨Nat.le_of_succ_le hrow, hcolumns⟩
  · obtain ⟨htop, hcolumns⟩ := hp
    rcases Nat.eq_or_lt_of_le htop with heq | hlt
    · exact absurd (.inl ⟨heq.symm, hcolumns⟩) hfree
    · exact absurd (.inr ⟨hlt, hcolumns⟩) hfree

/-- Two regions side by side, with blank columns between them. -/
theorem beside {gap : Nat} (h : Shows grid (region width top left) ms)
    (h' : Shows grid (region width' top (left + (width + gap))) ns)
    (hgap : ∀ i n, top ≤ i → width ≤ n → n < width + gap → grid i (left + n) = ' ') :
    Shows grid (region (width + gap + width') top left) (ms ++ ns) := by
  refine (h.append h' fun p hp hp' => ?_).widen ?_ fun i j hp hfree => ?_
  · have hto := hp.2.2
    have hfrom := hp'.2.1
    omega
  · rintro p (⟨hrow, hfrom, hto⟩ | ⟨hrow, hfrom, hto⟩)
    · exact ⟨hrow, hfrom, by omega⟩
    · exact ⟨hrow, by omega, by omega⟩
  · obtain ⟨htop, hfrom, hto⟩ := hp
    obtain ⟨n, rfl⟩ := Nat.exists_eq_add_of_le hfrom
    rcases Nat.lt_or_ge n width with hn | hn
    · exact absurd (.inl ⟨htop, hfrom, Nat.add_lt_add_left hn _⟩) hfree
    · rcases Nat.lt_or_ge n (width + gap) with hn' | hn'
      · exact hgap i n htop hn hn'
      · exact absurd (.inr ⟨htop, Nat.add_le_add_left hn' _, by simp only; omega⟩) hfree

end Shows

/-! ## The marks of a block -/

namespace Block

variable {grid : Nat → Nat → Char} {x l r : Expr} {o : Operator} {label : Text}
  {top left : Nat} {marks ms ns : List Mark}

theorem Placed.shows_leaf (h : Placed grid (leaf label) top left) :
    Shows grid (region label.length top left) (Mark.ofText top left label) where
  char_eq := by
    intro m hm
    obtain ⟨j, hj, rfl⟩ := List.mem_mapIdx.1 hm
    exact h.label_eq hj
  cell_mem := by
    intro m hm
    obtain ⟨j, hj, rfl⟩ := List.mem_mapIdx.1 hm
    exact ⟨Nat.le_refl _, Nat.le_add_right .., Nat.add_lt_add_left hj _⟩
  blank := by
    intro i j hp hmem
    obtain ⟨hi, hfrom, hto⟩ := hp
    obtain ⟨k, rfl⟩ := Nat.exists_eq_add_of_le hi
    obtain ⟨n, rfl⟩ := Nat.exists_eq_add_of_le hfrom
    have hn : n < label.length := Nat.lt_of_add_lt_add_left hto
    cases k with
    | zero =>
      rw [Mark.map_cell_ofText] at hmem
      exact absurd (List.mem_map.2 ⟨n, List.mem_range.2 hn, rfl⟩) hmem
    | succ k =>
      rw [h.cell_eq (k + 1) n hn]
      exact cell_of_length_le (Nat.le_add_left ..)
  nodup := Mark.nodup_ofText top left label

/-- A sign, the branch below it and the marks of its operand. -/
theorem Placed.shows_unary (h : Placed grid (Expr.unary o x).block top left)
    (hm : Shows grid (region x.block.width (top + 2) left) marks) :
    Shows grid (region (Expr.unary o x).block.width top left)
      (⟨top, left + x.block.centre, o.symbol⟩ :: ⟨top + 1, left + x.block.centre, '\\'⟩ ::
        marks) := by
  have hwidth : x.block.width = (Expr.unary o x).block.width := Expr.width_unary.symm
  have hsymbol := Shows.row_one x.wellFormed_block.centre_lt fun n hn =>
    (h.cell_eq 0 n (Nat.lt_of_lt_of_eq hn hwidth)).trans (Expr.cell_unary_symbol o x n)
  have hbranch := Shows.row_one x.wellFormed_block.centre_lt fun n hn =>
    (h.cell_eq 1 n (Nat.lt_of_lt_of_eq hn hwidth)).trans (Expr.cell_unary_branch o x n)
  rw [Expr.width_unary]
  exact (hm.above hbranch).above hsymbol

/-- An operator, the branches below it and the marks of both operands. -/
theorem Placed.shows_binary (h : Placed grid (Expr.binary o l r).block top left)
    (hms : Shows grid (region l.block.width (top + 2) left) ms)
    (hns : Shows grid (region r.block.width (top + 2) (left + (l.block.width + gap))) ns) :
    Shows grid (region (Expr.binary o l r).block.width top left)
      (⟨top, left + l.block.joinCentre r.block, o.symbol⟩ ::
        ⟨top + 1, left + l.block.centre, '/'⟩ ::
        ⟨top + 1, left + l.block.rightCentre r.block, '\\'⟩ :: (ms ++ ns)) := by
  have hl := l.wellFormed_block
  have hr := r.wellFormed_block
  have hwidth : l.block.width + gap + r.block.width = (Expr.binary o l r).block.width :=
    Expr.width_binary.symm
  have hsymbol := Shows.row_one (joinCentre_lt hl hr) fun n hn =>
    (h.cell_eq 0 n (Nat.lt_of_lt_of_eq hn hwidth)).trans (Expr.cell_binary_symbol o l r n)
  have hbranches := Shows.row_two
    (Nat.lt_trans (centre_lt_joinCentre hl) (joinCentre_lt_rightCentre hl)) (rightCentre_lt hr)
    fun n hn => h.branches hn
  have hoperands := hms.beside hns fun i n hi hn hn' => by
    obtain ⟨k, rfl⟩ := Nat.exists_eq_add_of_le hi
    rw [h.operands k (by omega), if_neg (Nat.not_lt_of_le hn), if_pos hn']
  rw [Expr.width_binary]
  exact (hoperands.above hbranches).above hsymbol

end Block

/-! ## The marks of a drawing -/

namespace Expr

open Block (Placed)

/-- Where the block of a tree is placed, marks draw the tree, and nothing else is seen there. -/
theorem exists_drawn {grid : Nat → Nat → Char} {e : Expr} {top left : Nat}
    (h : Placed grid e.block top left) :
    ∃ marks, Drawn e top (left + e.block.centre) marks ∧
      Shows grid (region e.block.width top left) marks := by
  induction e generalizing top left with
  | num n => exact ⟨_, .num n top left, h.shows_leaf⟩
  | unary o x ih =>
    obtain ⟨marks, hdrawn, hshows⟩ := ih h.operand
    rw [centre_unary]
    exact ⟨_, .unary o hdrawn, h.shows_unary hshows⟩
  | binary o l r ihl ihr =>
    have wl := l.wellFormed_block
    obtain ⟨ms, hdrawnl, hshowsl⟩ := ihl h.leftOperand
    obtain ⟨ns, hdrawnr, hshowsr⟩ := ihr h.rightOperand
    rw [Nat.add_assoc] at hdrawnr
    have hleft := Nat.add_lt_add_left (Block.centre_lt_joinCentre (r := r.block) wl) left
    have hright := Nat.add_lt_add_left (Block.joinCentre_lt_rightCentre (r := r.block) wl) left
    rw [centre_binary]
    exact ⟨_, .binary o hleft hright hdrawnl hdrawnr, h.shows_binary hshowsl hshowsr⟩

theorem cell_block (e : Expr) (i j : Nat) :
    e.block.cell i j = (Text.charAt? e.drawing i j).getD ' ' := by
  rw [Block.cell, Text.charAt?, drawing]
  cases e.block.rows[i]? <;> rfl

/-- A character of a drawing stands in one of the columns of its block. -/
theorem lt_width_of_charAt? {e : Expr} {i j : Nat} {c : Char}
    (h : Text.charAt? e.drawing i j = some c) : j < e.block.width := by
  obtain ⟨row, hrow, hc⟩ := Option.bind_eq_some_iff.1 h
  obtain ⟨hj, _⟩ := List.getElem?_eq_some_iff.1 hc
  exact e.wellFormed_block.length_eq row (List.mem_of_getElem? hrow) ▸ hj

/-- **Every edge of the tree is drawn and ends above its operand.** There are marks that draw the
tree from the first row of the drawing down. The drawing shows each of them, no two in one cell, and
all its other cells are spaces. So the characters that are no spaces are those of the literals,
three for every operator between two operands and two for every other operator. The centre of two
operands is strictly between theirs, so neither of their branches is ever left out. -/
theorem drawing_marks (e : Expr) :
    (∃ column marks, Drawn e 0 column marks ∧ (marks.map Mark.cell).Nodup ∧
      (∀ m ∈ marks, Text.charAt? e.drawing m.row m.column = some m.char) ∧
      ∀ i j c, Text.charAt? e.drawing i j = some c → (i, j) ∉ marks.map Mark.cell → c = ' ') ∧
    (Text.withoutSpaces e.drawing.flatten).length =
      e.literalsLength + 3 * e.binaryCount + 2 * e.unaryCount ∧
    ∀ l r : Expr, l.block.centre < l.block.joinCentre r.block ∧
      l.block.joinCentre r.block < l.block.rightCentre r.block := by
  obtain ⟨marks, hdrawn, hshows⟩ := exists_drawn e.wellFormed_block.placed
  refine ⟨⟨_, marks, hdrawn, hshows.nodup, fun m hm => ?_, fun i j c hc hfree => ?_⟩, e.ink_block,
    fun l r => ?_⟩
  · have hcell := hshows.char_eq m hm
    rw [cell_block] at hcell
    cases hc : Text.charAt? e.drawing m.row m.column with
    | none =>
      rw [hc] at hcell
      exact absurd hcell.symm (hdrawn.char_ne_space m hm)
    | some c =>
      rw [hc] at hcell
      exact congrArg some hcell
  · have hwidth := lt_width_of_charAt? hc
    have hblank := hshows.blank i j ⟨Nat.zero_le _, Nat.zero_le _, by omega⟩ hfree
    rwa [cell_block, hc] at hblank
  · exact ⟨Block.centre_lt_joinCentre l.wellFormed_block,
      Block.joinCentre_lt_rightCentre l.wellFormed_block⟩

end Expr

end TreeCalculator
