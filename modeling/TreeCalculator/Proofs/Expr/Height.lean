import TreeCalculator.Expr.Basic

/-!
# The height of a tree is structural

`Expr.height` is computed by a worklist. `Expr.levels` is the same number by recursion on the tree,
and `deepestLevel_cons` is what the worklist keeps: to visit a pending tree is to raise the deepest
level so far to that of the tree's lowest node. Everything else about heights follows from the
three equations `height_num`, `height_unary` and `height_binary`.

`Worklist.visit?` is a single pass of the loop. A pass takes one node off the nodes still to be
visited and changes nothing about the outcome (`Worklist.pendingSize_visit`,
`Worklist.deepestLevel_visit`), so the loop makes as many passes as the tree has nodes and ends with
its height.
-/

namespace TreeCalculator.Expr

/-- The number of levels, by recursion on the tree. -/
def levels : Expr → Nat
  | num _ => 1
  | unary _ x => x.levels + 1
  | binary _ l r => max l.levels r.levels + 1

/-- Every tree has a level, that of its root. -/
theorem levels_pos (e : Expr) : 0 < e.levels := by
  cases e <;> exact Nat.succ_pos _

/-- Visiting a pending tree raises the deepest level so far to the level of its lowest node. -/
theorem deepestLevel_cons (e : Expr) (level : Nat) (pending : List (Expr × Nat)) (deepest : Nat) :
    deepestLevel ((e, level) :: pending) deepest =
      deepestLevel pending (max deepest (level + e.levels - 1)) := by
  induction e generalizing level pending deepest with
  | num n => simp [deepestLevel, levels]
  | unary op x ih =>
    rw [deepestLevel, ih, levels]
    have hx := x.levels_pos
    congr 1
    omega
  | binary op l r ihl ihr =>
    rw [deepestLevel, ihr, ihl, levels]
    have hl := l.levels_pos
    have hr := r.levels_pos
    congr 1
    omega

/-- The worklist computes the number of levels. -/
theorem height_eq_levels (e : Expr) : e.height = e.levels := by
  rw [height, deepestLevel_cons, deepestLevel]
  omega

@[simp] theorem height_num (n : Int) : (num n).height = 1 := height_eq_levels _

@[simp] theorem height_unary (op : Operator) (x : Expr) :
    (unary op x).height = x.height + 1 := by
  simp only [height_eq_levels, levels]

@[simp] theorem height_binary (op : Operator) (l r : Expr) :
    (binary op l r).height = max l.height r.height + 1 := by
  simp only [height_eq_levels, levels]

/-! ## The loop, pass by pass -/

/-- The operands of a tree whose root is on the level, with their own level, in the order in which
they are visited. -/
def operandsBelow (level : Nat) : Expr → List (Expr × Nat)
  | num _ => []
  | unary _ x => [(x, level + 1)]
  | binary _ l r => [(r, level + 1), (l, level + 1)]

/-- What the loop works on: the trees still to be visited, the next one first, each with the level
of its root, and the deepest level so far. -/
structure Worklist where
  pending : List (Expr × Nat)
  deepest : Nat

namespace Worklist

variable {n : Nat} {w w' : Worklist}

/-- Before the first pass, the whole tree is to be visited. -/
def start (e : Expr) : Worklist := ⟨[(e, 1)], 0⟩

/-- One pass of the loop, which replaces the next tree by its operands. There is none when no tree
is pending. -/
def visit? : Worklist → Option Worklist
  | ⟨[], _⟩ => none
  | ⟨(e, level) :: pending, deepest⟩ =>
    some ⟨e.operandsBelow level ++ pending, max deepest level⟩

/-- `Visits n w w'`: the loop goes from `w` to `w'` in `n` passes. -/
inductive Visits : Nat → Worklist → Worklist → Prop where
  | refl (w : Worklist) : Visits 0 w w
  | visit {n : Nat} {w w₁ w' : Worklist} : w.visit? = some w₁ → Visits n w₁ w' →
      Visits (n + 1) w w'

/-- A pass leaves one node less to be visited. -/
theorem pendingSize_visit (h : w.visit? = some w') :
    pendingSize w.pending = pendingSize w'.pending + 1 := by
  match w, h with
  | ⟨(e, level) :: pending, deepest⟩, rfl =>
    cases e with
    | num n | unary op x | binary op l r =>
      simp only [operandsBelow, List.cons_append, List.nil_append, pendingSize, size]
      omega

/-- A pass does not change the level that the loop finds in the end. -/
theorem deepestLevel_visit (h : w.visit? = some w') :
    deepestLevel w.pending w.deepest = deepestLevel w'.pending w'.deepest := by
  match w, h with
  | ⟨(e, level) :: pending, deepest⟩, rfl =>
    cases e with
    | num n | unary op x | binary op l r =>
      rw [deepestLevel]
      rfl

/-- So a run of the loop has made a pass for every node that is no longer to be visited. -/
theorem Visits.pendingSize_eq (h : Visits n w w') :
    pendingSize w.pending = pendingSize w'.pending + n := by
  induction h with
  | refl w => rfl
  | visit hvisit _ ih => rw [pendingSize_visit hvisit, ih, Nat.add_assoc]

/-- From any worklist the loop ends, after a pass for every node, with the deepest level. -/
theorem visits_pendingSize (w : Worklist) :
    Visits (pendingSize w.pending) w ⟨[], deepestLevel w.pending w.deepest⟩ := by
  cases h : w.visit? with
  | none =>
    match w, h with
    | ⟨[], deepest⟩, _ =>
      rw [deepestLevel]
      exact .refl _
  | some w' =>
    rw [pendingSize_visit h, deepestLevel_visit h]
    exact .visit h (visits_pendingSize w')
termination_by pendingSize w.pending
decreasing_by
  rw [pendingSize_visit h]
  exact Nat.lt_succ_self _

end Worklist

open Worklist (start Visits)

/-- **The worklist ends with the structural height.** On every tree the loop makes exactly one pass
for each node and ends with the height; no run of it is longer. The height is one for a literal, one
more than that of its operand for a node with one operand, and one more than the larger of those of
its operands for a node with two. -/
theorem height_worklist :
    (∀ e : Expr, Visits e.size (start e) ⟨[], e.height⟩ ∧
      ∀ n w, Visits n (start e) w → n ≤ e.size) ∧
    (∀ n, (num n).height = 1) ∧
    (∀ op x, (unary op x).height = 1 + x.height) ∧
    ∀ op l r, (binary op l r).height = 1 + max l.height r.height := by
  refine ⟨fun e => ⟨Worklist.visits_pendingSize (start e), fun n w hvisits => ?_⟩, height_num,
    fun op x => ?_, fun op l r => ?_⟩
  · have hsize : e.size = pendingSize w.pending + n := hvisits.pendingSize_eq
    omega
  · rw [height_unary, Nat.add_comm]
  · rw [height_binary, Nat.add_comm]

/-- The tree of `-(1 + 2) * 3` has six nodes on four levels. -/
theorem height_worklist_product :
    let e : Expr :=
      .binary .mul (.unary .neg (.binary .add (.num 1) (.num 2))) (.num 3)
    e.size = 6 ∧ e.height = 4 ∧ Visits 6 (start e) ⟨[], 4⟩ ∧ ∀ w, ¬ Visits 7 (start e) w := by
  intro e
  obtain ⟨hloop, hnum, hunary, hbinary⟩ := height_worklist
  have hheight : e.height = 4 := by simp only [e, hnum, hunary, hbinary]; rfl
  obtain ⟨hends, hlongest⟩ := hloop e
  rw [hheight] at hends
  refine ⟨rfl, hheight, hends, fun w hvisits => ?_⟩
  have hle : 7 ≤ 6 := hlongest 7 w hvisits
  omega

end TreeCalculator.Expr
