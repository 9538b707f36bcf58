import Mathlib.Data.List.Chain
import Mathlib.Data.Set.List
import TreeCalculator.Proofs.Stacks.Conservation

/-!
# The layers of the operator stack

Before an operator goes on its stack, all those on top are reduced that take the operand before it.
So whatever waits right below an operator leaves that operand to it (`Token.Carries`), and since
every move takes from the top or puts on it, this holds between any two neighbours
(`Reached.isChain_pending`). Between two open parentheses that leaves little room: the precedence
grows from bottom to top, and only operators that group to the right wait above their like
(`Operator.layered_of_isChain`).
-/

namespace TreeCalculator

namespace Operator

variable {o a : Operator} {layer : Option Operator} {ops rest : List Operator}

/-- At most one of `+` and `-`, then at most one of `*` and `/`, then any number of `^`, then any
number of signs. -/
def Layered (ops : List Operator) : Prop :=
  ∃ (sum product : Option Operator) (powers signs : Nat),
    (∀ o ∈ sum, o = .add ∨ o = .sub) ∧ (∀ o ∈ product, o = .mul ∨ o = .div) ∧
    ops = sum.toList ++ (product.toList ++ (List.replicate powers .pow ++
      List.replicate signs .neg))

/-- Every operator takes the operand before a sum or a difference. -/
theorem takesOperandBefore_sum (ha : a = .add ∨ a = .sub) :
    o.takesOperandBefore a = true := by
  rcases ha with rfl | rfl <;> cases o <;> rfl

/-- Every operator takes the operand before a product or a quotient, unless it is a sum or a
difference. -/
theorem takesOperandBefore_product (ho : 1 < o.precedence) (ha : a = .mul ∨ a = .div) :
    o.takesOperandBefore a = true := by
  rw [takesOperandBefore_eq_true_iff]
  rcases ha with rfl | rfl <;> exact (Nat.lt_or_eq_of_le ho).imp_right fun h => ⟨h, rfl⟩

/-- A layer of operators before which `o` takes the operand is empty if `o` waits right below. -/
theorem eq_none_of_waits
    (hwaits : ∀ a ∈ (layer.toList ++ rest).head?, o.takesOperandBefore a = false)
    (hlayer : ∀ a ∈ layer, o.takesOperandBefore a = true) : layer = none := by
  cases layer with
  | none => rfl
  | some a =>
    have hfalse := hwaits a rfl
    rw [hlayer a rfl] at hfalse
    cases hfalse

/-- Operators that each leave the operand to the next one are layered. -/
theorem layered_of_isChain
    (h : ops.IsChain fun lower upper => lower.takesOperandBefore upper = false) :
    Layered ops := by
  induction ops with
  | nil => exact ⟨none, none, 0, 0, nofun, nofun, rfl⟩
  | cons o ops ih =>
    obtain ⟨hwaits, hrest⟩ := List.isChain_cons.1 h
    obtain ⟨sum, product, powers, signs, hsum, hproduct, rfl⟩ := ih hrest
    obtain rfl : sum = none :=
      eq_none_of_waits hwaits fun a ha => takesOperandBefore_sum (hsum a ha)
    have hempty (ho : 1 < o.precedence) : product = none :=
      eq_none_of_waits hwaits fun a ha => takesOperandBefore_product ho (hproduct a ha)
    cases o with
    | add | sub => exact ⟨some _, product, powers, signs, by simp, hproduct, rfl⟩
    | mul | div =>
      obtain rfl := hempty (by decide)
      exact ⟨none, some _, powers, signs, nofun, by simp, rfl⟩
    | pow =>
      obtain rfl := hempty (by decide)
      exact ⟨none, none, powers + 1, signs, nofun, nofun, rfl⟩
    | neg =>
      obtain rfl := hempty (by decide)
      cases powers with
      | zero => exact ⟨none, none, 0, signs + 1, nofun, nofun, rfl⟩
      | succ k => cases hwaits .pow rfl

end Operator

namespace Token

/-- Whether `upper` may wait right above `lower`: an operator does not wait above one that takes
the operand before it. -/
def Carries (lower upper : Token) : Prop :=
  ∀ o o' : Operator, lower = op o → upper = op o' → o.takesOperandBefore o' = false

/-- An open parenthesis may wait above everything. -/
theorem carries_lparen (t : Token) : t.Carries lparen :=
  fun _ _ _ hupper => absurd hupper lparen_ne_op

/-- Two operators. -/
theorem carries_op_iff {o o' : Operator} :
    (op o).Carries (op o') ↔ o.takesOperandBefore o' = false := by
  refine ⟨fun h => h o o' rfl rfl, ?_⟩
  intro h a b ha hb
  rw [← op_inj.1 ha, ← op_inj.1 hb]
  exact h

end Token

namespace Stacks

variable {limit : Nat} {o : Operator} {s : Stacks} {ps segment ts : List Token}

/-- Once the operators on top are settled, the next one may wait above what is left. -/
theorem Settled.carries (h : Settled (·.takesOperandBefore o) ps) :
    ∀ t ∈ ps.head?, t.Carries (.op o) := by
  cases h with
  | nil => exact nofun
  | lparen ps =>
    rintro t ht
    obtain rfl := Option.mem_some.1 ht
    exact fun _ _ hlower => absurd hlower Token.lparen_ne_op
  | op ps ho =>
    rintro t ht
    obtain rfl := Option.mem_some.1 ht
    exact Token.carries_op_iff.2 ho

/-- On reached stacks, each that waits may wait above the one below it. -/
theorem Reached.isChain_pending (h : Reached limit ts s) :
    s.pending.IsChain fun upper lower => lower.Carries upper := by
  induction h with
  | start => exact .nil
  | num _ _ _ ih => exact ih
  | lparen _ ih => exact List.isChain_cons.2 ⟨fun t _ => t.carries_lparen, ih⟩
  | op o _ hsettled ih => exact List.isChain_cons.2 ⟨hsettled.carries, ih⟩
  | rparen _ ih | reduce _ _ _ ih => exact ih.tail

/-- What waits below the top keeps its order when the top is taken. -/
theorem sublist_below {t : Token} (h : (t :: ps).reverse.Sublist ts) : ps.reverse.Sublist ts := by
  rw [List.reverse_cons] at h
  exact (List.sublist_append_left ..).trans h

/-- What waits has been read, in the order from bottom to top. -/
theorem Reached.pending_sublist (h : Reached limit ts s) : s.pending.reverse.Sublist ts := by
  induction h with
  | start => exact .slnil
  | num n _ _ ih => exact ih.trans (List.sublist_append_left ..)
  | lparen _ ih | op _ _ _ ih =>
    rw [List.reverse_cons]
    exact ih.append (.refl _)
  | rparen _ ih => exact (sublist_below ih).trans (List.sublist_append_left ..)
  | reduce _ _ _ ih => exact sublist_below ih

/-- Between two open parentheses on reached stacks, the operators are layered. -/
theorem Reached.layered (h : Reached limit ts s) (hsegment : segment <:+: s.pending.reverse)
    (hparen : .lparen ∉ segment) : ∃ ops, segment = ops.map .op ∧ Operator.Layered ops := by
  obtain ⟨ops, rfl⟩ : segment ∈ Set.range (List.map Token.op) := by
    rw [Set.range_list_map]
    intro t ht
    have hwaits : t ∈ s.pending := List.mem_reverse.1 (hsegment.subset ht)
    rcases h.known t hwaits with rfl | ⟨o, rfl⟩
    · exact absurd ht hparen
    · exact ⟨o, rfl⟩
  have hpending : s.pending.reverse.IsChain Token.Carries :=
    List.isChain_reverse.2 h.isChain_pending
  have hops : (ops.map .op).IsChain Token.Carries := List.IsChain.infix hpending hsegment
  refine ⟨ops, rfl, Operator.layered_of_isChain ?_⟩
  exact ((List.isChain_map _).1 hops).imp fun _ _ => Token.carries_op_iff.1

/-- **The shape of the stacks.** Whatever has been read without an error, any run of neighbours on
the operator stack that holds no open parenthesis, in particular all that waits between two of them,
is layered from bottom to top: at most one of `+ -`, at most one of `* /`, any number of `^`, any
number of signs. Only operators and open parentheses wait, which have been read in this order; as
many parentheses are open as were opened and not closed; and every operand carries the height of its
tree. -/
theorem run_layers (h : run limit {} ts = .ok s) :
    (∀ segment, segment <:+: s.pending.reverse → .lparen ∉ segment →
      ∃ ops, segment = ops.map .op ∧ Operator.Layered ops) ∧
    (∀ t ∈ s.pending, t = .lparen ∨ ∃ o, t = .op o) ∧
    s.pending.reverse.Sublist ts ∧
    (s.pending.count .lparen : Int) = ts.count .lparen - ts.count .rparen ∧
    ∀ x ∈ s.operands, x.height = x.expr.height := by
  have hreached : Reached limit ts s := Reached.start.run h
  refine ⟨fun segment => hreached.layered, hreached.known, hreached.pending_sublist, ?_,
    fun x hx => (hreached.sound x hx).height_eq⟩
  have hcount := hreached.count_paren
  omega

/-- After `1 - ( 2 + 3 * 4 ^ u- u-`, five operators wait above the open parenthesis, on three
operands and the one below it. -/
theorem run_layers_group :
    let ts : List Token := [.num 1, .op .sub, .lparen, .num 2, .op .add, .num 3, .op .mul, .num 4,
      .op .pow, .op .neg, .op .neg]
    let segment : List Token := [.op .add, .op .mul, .op .pow, .op .neg, .op .neg]
    let s : Stacks :=
      ⟨[.ofInt 4, .ofInt 3, .ofInt 2, .ofInt 1], segment.reverse ++ [.lparen, .op .sub]⟩
    run 1 {} ts = .ok s ∧ segment <:+: s.pending.reverse ∧ .lparen ∉ segment ∧
      (∃ ops, segment = ops.map .op ∧ Operator.Layered ops) ∧ s.pending.count .lparen = 1 := by
  intro ts segment s
  have hrun : run 1 {} ts = .ok s := rfl
  have hsegment : segment <:+: s.pending.reverse := ⟨[.op .sub, .lparen], [], rfl⟩
  have hparen : .lparen ∉ segment := by simp [segment]
  obtain ⟨hlayered, -, -, hcount, -⟩ := run_layers hrun
  exact ⟨hrun, hsegment, hparen, hlayered segment hsegment hparen, Int.ofNat.inj hcount⟩

end Stacks

end TreeCalculator
