import Mathlib.Data.List.Induction
import TreeCalculator.Proofs.Expr.Parts
import TreeCalculator.Proofs.Stacks.Reached

/-!
# Nothing is lost on the stacks

Many token lists that are no sentences are built all the same, such as `1 2 -` or `1 ( 2 - )`. What
can be said of all of them is what every move keeps: the literals on the operand stack are those
that were read, in their order; the operators in its trees and those that wait are those that were
read, in some order; and as many parentheses are open as were opened and not closed. At the end
nothing waits, and the laws for the stacks become laws for the tree.
-/

namespace TreeCalculator

open Operand (Reduction)

/-! ## What a token list is made of -/

namespace Token

/-- The number that a token is. -/
def literal? : Token → Option Int
  | num n => some n
  | plus | minus | sign | star | slash | caret | lparen | rparen => none

/-- The operator that a token is: the two kinds of `-` are two operators. -/
def operator? : Token → Option Operator
  | plus => some .add
  | minus => some .sub
  | sign => some .neg
  | star => some .mul
  | slash => some .div
  | caret => some .pow
  | num _ | lparen | rparen => none

theorem literal?_op (o : Operator) : (op o).literal? = none := by cases o <;> rfl

theorem operator?_op (o : Operator) : (op o).operator? = some o := by cases o <;> rfl

/-- The numbers of a token list, in their order. -/
def literals (ts : List Token) : List Int := ts.filterMap literal?

/-- The operators of a token list. -/
def operators (ts : List Token) : List Operator := ts.filterMap operator?

/-- How many operators of a token list take two operands. -/
def binaryCount (ts : List Token) : Nat := (operators ts).countP fun o => !o.isUnary

/-- A token list whose parentheses are paired: as many close as open, and none before its partner
has opened. -/
structure Balanced (ts : List Token) : Prop where
  closed : ts.count .rparen = ts.count .lparen
  opened : ∀ us, us <+: ts → us.count .rparen ≤ us.count .lparen

variable {ts us : List Token} {t : Token}

theorem literals_append (ts us : List Token) : literals (ts ++ us) = literals ts ++ literals us :=
  List.filterMap_append ..

theorem operators_append (ts us : List Token) :
    operators (ts ++ us) = operators ts ++ operators us := List.filterMap_append ..

/-- An operator is no number. -/
theorem literals_concat_op (ts : List Token) (o : Operator) :
    literals (ts ++ [op o]) = literals ts := by
  rw [literals_append, literals, literals, List.filterMap_cons_none (literal?_op o)]
  exact List.append_nil _

theorem operators_cons_op (o : Operator) (ts : List Token) :
    operators (op o :: ts) = o :: operators ts := List.filterMap_cons_some (operator?_op o)

/-- One more parenthesis opens, and none closes. -/
theorem count_concat_lparen (ts : List Token) :
    (ts ++ [lparen]).count lparen = ts.count lparen + 1 ∧
      (ts ++ [lparen]).count rparen = ts.count rparen :=
  ⟨List.count_append, List.count_append⟩

/-- One more parenthesis closes, and none opens. -/
theorem count_concat_rparen (ts : List Token) :
    (ts ++ [rparen]).count rparen = ts.count rparen + 1 ∧
      (ts ++ [rparen]).count lparen = ts.count lparen :=
  ⟨List.count_append, List.count_append⟩

/-- A token list without numbers and operators consists of parentheses. -/
theorem eq_paren_of_mem (hl : literals ts = []) (ho : operators ts = []) (ht : t ∈ ts) :
    t = .lparen ∨ t = .rparen := by
  have hnum : literal? t = none := List.filterMap_eq_nil_iff.1 hl t ht
  have hop : operator? t = none := List.filterMap_eq_nil_iff.1 ho t ht
  cases t with
  | num n => cases hnum
  | op o =>
    rw [operator?_op] at hop
    cases hop
  | lparen => exact .inl rfl
  | rparen => exact .inr rfl

end Token

/-! ## What the operands on a stack are made of -/

namespace Operand

variable {limit : Nat} {o : Operator} {x : Operand} {xs rest : List Operand}

/-- The literals of the operands, from the bottom of the stack to its top. -/
def literals : List Operand → List Int
  | [] => []
  | x :: xs => literals xs ++ x.expr.literals

/-- The operators of the operands. -/
def operators : List Operand → List Operator
  | [] => []
  | x :: xs => x.expr.operators ++ operators xs

/-- A reduction joins neighbours, so the literals stay in their order. -/
theorem Reduction.literals_eq (h : Reduction o xs x rest) :
    literals (x :: rest) = literals xs := by
  cases h with
  | sign x rest => rfl
  | binary ho l r rest =>
    show literals rest ++ (Expr.binary o l.expr r.expr).literals = _
    rw [Expr.literals_binary]
    exact (List.append_assoc ..).symm

/-- A reduction adds its operator to those of the operands. -/
theorem Reduction.operators_perm (h : Reduction o xs x rest) :
    (operators (x :: rest)).Perm (o :: operators xs) := by
  cases h with
  | sign x rest => exact .refl _
  | binary ho l r rest =>
    show ((Expr.binary o l.expr r.expr).operators ++ operators rest).Perm _
    rw [Expr.operators_binary]
    refine List.Perm.cons o ?_
    have hswap : (l.expr.operators ++ r.expr.operators).Perm
        (r.expr.operators ++ l.expr.operators) := List.perm_append_comm
    exact (hswap.append_right _).trans (.of_eq (List.append_assoc ..))

/-- Sound operands have as many literals as there are operands and operators that join two. -/
theorem length_literals (h : ∀ x ∈ xs, x.Sound limit) :
    (literals xs).length = (operators xs).countP (fun o => !o.isUnary) + xs.length := by
  induction xs with
  | nil => rfl
  | cons x xs ih =>
    obtain ⟨hx, hxs⟩ := List.forall_mem_cons.1 h
    have hhead := hx.wellTyped.length_literals
    have htail := ih hxs
    rw [literals, operators, List.length_append, List.countP_append, List.length_cons]
    omega

end Operand

/-! ## What every move keeps -/

namespace Stacks

variable {limit : Nat} {s : Stacks} {xs : List Operand} {ps ts us : List Token} {t : Token}

/-- The literals on the stack are those that were read. -/
theorem Reached.literals_eq (h : Reached limit ts s) :
    Operand.literals s.operands = Token.literals ts := by
  induction h with
  | start => rfl
  | num n _ _ ih => rw [Token.literals_append, ← ih]; rfl
  | lparen _ ih | rparen _ ih =>
    rw [Token.literals_append, ← ih]
    exact (List.append_nil _).symm
  | op o _ _ ih => rw [Token.literals_concat_op, ← ih]
  | reduce _ hr _ ih => rw [hr.literals_eq, ih]

/-- The operators on both stacks are those that were read. -/
theorem Reached.operators_perm (h : Reached limit ts s) :
    (Operand.operators s.operands ++ Token.operators s.pending).Perm (Token.operators ts) := by
  induction h with
  | start => exact .refl _
  | num _ _ _ ih | lparen _ ih | rparen _ ih =>
    rw [Token.operators_append]
    exact ih.trans (.of_eq (List.append_nil _).symm)
  | op o _ _ ih =>
    rw [Token.operators_append, Token.operators_cons_op, Token.operators_cons_op]
    exact (List.perm_middle.trans (ih.cons o)).trans (List.perm_append_singleton o _).symm
  | reduce _ hr _ ih =>
    rw [Token.operators_cons_op] at ih
    refine (hr.operators_perm.append_right _).trans (List.Perm.trans ?_ ih)
    exact List.perm_middle.symm

/-- As many parentheses are open as were opened and not closed. -/
theorem Reached.count_paren (h : Reached limit ts s) :
    s.pending.count .lparen + ts.count .rparen = ts.count .lparen := by
  induction h with
  | start => rfl
  | num _ _ _ ih | op _ _ _ ih => simpa using ih
  | @lparen ts s _ ih =>
    obtain ⟨hopened, hclosed⟩ := Token.count_concat_lparen ts
    rw [List.count_cons_self]
    omega
  | @rparen ts xs ps _ ih =>
    obtain ⟨hclosed, hopened⟩ := Token.count_concat_rparen ts
    rw [List.count_cons_self] at ih
    show ps.count .lparen + _ = _
    omega
  | reduce _ _ _ ih => simpa using ih

/-- Nothing is closed before it was opened. -/
theorem Reached.opened (h : Reached limit ts s) :
    ∀ us, us <+: ts → us.count .rparen ≤ us.count .lparen := by
  have hall : ∀ {ts : List Token} {t : Token} {s : Stacks}, Reached limit (ts ++ [t]) s →
      (∀ us, us <+: ts → us.count .rparen ≤ us.count .lparen) →
      ∀ us, us <+: ts ++ [t] → us.count .rparen ≤ us.count .lparen := by
    intro ts t s h ih us hus
    rcases List.prefix_concat_iff.1 hus with rfl | hus
    · have hcount := h.count_paren
      omega
    · exact ih us hus
  induction h with
  | start =>
    intro us hus
    rw [List.prefix_nil.1 hus]
    exact Nat.le_refl _
  | num n h hlimit ih => exact hall (h.num n hlimit) ih
  | lparen h ih => exact hall h.lparen ih
  | rparen h ih => exact hall h.rparen ih
  | op o h hs ih => exact hall (h.op o hs) ih
  | reduce _ _ _ ih => exact ih

/-- If no parenthesis waits, the parentheses that were read are paired. -/
theorem Reached.balanced (h : Reached limit ts ⟨xs, []⟩) : Token.Balanced ts := by
  have hcount := h.count_paren
  rw [List.count_nil, Nat.zero_add] at hcount
  exact ⟨hcount, h.opened⟩

/-- If a parenthesis waits, it has no partner yet. -/
theorem Reached.not_balanced (h : Reached limit ts ⟨xs, .lparen :: ps⟩) : ¬ Token.Balanced ts := by
  intro hbalanced
  have hcount := h.count_paren
  have hclosed := hbalanced.closed
  rw [List.count_cons_self] at hcount
  omega

/-- If none waits, another one that closes has no partner. -/
theorem Reached.not_balanced_of_rparen (h : Reached limit us ⟨xs, []⟩)
    (hus : us ++ [.rparen] <+: ts) : ¬ Token.Balanced ts := by
  intro hbalanced
  have hclosed := h.balanced.closed
  have hopened := hbalanced.opened _ hus
  obtain ⟨hclosing, hopening⟩ := Token.count_concat_rparen us
  omega

/-- There are as many numbers as there are operands left and operators that join two. -/
theorem Reached.length_literals (h : Reached limit ts ⟨xs, []⟩) :
    (Token.literals ts).length = Token.binaryCount ts + xs.length := by
  have hoperators : (Operand.operators xs).Perm (Token.operators ts) := by
    simpa [Token.operators] using h.operators_perm
  rw [← h.literals_eq, Operand.length_literals h.sound, Token.binaryCount, hoperators.countP_eq]

/-! ## Parentheses alone -/

/-- Parentheses leave nothing behind but those that are open. -/
theorem run_parens (limit : Nat) (hts : ∀ t ∈ ts, t = .lparen ∨ t = .rparen)
    (hopened : ∀ us, us <+: ts → us.count .rparen ≤ us.count .lparen) :
    ∃ k, k + ts.count .rparen = ts.count .lparen ∧
      run limit {} ts = .ok ⟨[], List.replicate k .lparen⟩ := by
  induction ts using List.reverseRecOn with
  | nil => exact ⟨0, rfl, rfl⟩
  | append_singleton ts t ih =>
    obtain ⟨k, hk, hrun⟩ := ih (fun t ht => hts t (List.mem_append_left _ ht))
      fun us hus => hopened us (hus.trans (List.prefix_append ..))
    have hlast := hopened _ List.prefix_rfl
    have hstep : run limit {} (ts ++ [t]) = step limit ⟨[], List.replicate k .lparen⟩ t := by
      rw [run_append, hrun, ← run_singleton]
      rfl
    rw [hstep]
    rcases hts t List.mem_concat_self with rfl | rfl
    · obtain ⟨hopening, hclosing⟩ := Token.count_concat_lparen ts
      refine ⟨k + 1, ?_, rfl⟩
      omega
    · obtain ⟨hclosing, hopening⟩ := Token.count_concat_rparen ts
      obtain ⟨j, rfl⟩ : ∃ j, k = j + 1 := Nat.exists_eq_add_one.2 (by omega)
      refine ⟨j, ?_, ?_⟩
      · omega
      · rw [step_rparen, List.replicate_succ, settle_lparen]
        rfl

end Stacks

/-! ## The laws for the result -/

namespace Expr

open Stacks

variable {limit : Nat} {ts : List Token} {e : Expr}

/-- Every result but these three failures is what operands say on which nothing waits. -/
theorem reached_of_ofTokens {r : Except CalcError (Option Expr)}
    (h : Expr.ofTokens limit ts = r) (hdeep : r ≠ .error (.nestingTooDeep limit))
    (hfew : ∀ c, r ≠ .error (.insufficientOperands c)) (hpair : r ≠ .error .unmatchedParenthesis) :
    ∃ xs, Reached limit ts ⟨xs, []⟩ ∧ answer ⟨xs, []⟩ = r := by
  subst h
  rcases Expr.ofTokens_cases limit ts with h | ⟨c, h⟩ | ⟨h, -⟩ | ⟨xs, hreached, h⟩
  · exact absurd h hdeep
  · exact absurd h (hfew c)
  · exact absurd h hpair
  · exact ⟨xs, hreached, h.symm⟩

/-- A result is returned for paired parentheses only. -/
theorem balanced_of_ofTokens {r : Option Expr} (h : Expr.ofTokens limit ts = .ok r) :
    Token.Balanced ts := by
  obtain ⟨xs, hreached, -⟩ := reached_of_ofTokens h nofun (fun _ => nofun) nofun
  exact hreached.balanced

/-- The tree that is returned is made of the tokens. -/
theorem ofTokens_some (h : Expr.ofTokens limit ts = .ok (some e)) :
    e.literals = Token.literals ts ∧ e.operators.Perm (Token.operators ts) ∧ e.WellTyped ∧
      e.height ≤ limit := by
  have hreached := (reached_of_settled_run (settled_run_of_ofTokens h)).1
  obtain ⟨hwellTyped, -, hheight⟩ := hreached.sound _ List.mem_cons_self
  have hoperators := hreached.operators_perm
  simp only [Operand.operators, Token.operators, List.filterMap_nil, List.append_nil] at hoperators
  exact ⟨hreached.literals_eq, hoperators, hwellTyped, hheight⟩

/-- No tree and no failure is the answer to paired parentheses alone. -/
theorem ofTokens_none_iff : Expr.ofTokens limit ts = .ok none ↔
    (∀ t ∈ ts, t = .lparen ∨ t = .rparen) ∧ Token.Balanced ts := by
  constructor
  · intro h
    obtain ⟨xs, hreached, hanswer⟩ := reached_of_ofTokens h nofun (fun _ => nofun) nofun
    match xs, hreached, hanswer with
    | [], hreached, _ =>
      have hoperators := hreached.operators_perm.nil_eq
      exact ⟨fun t ht => Token.eq_paren_of_mem hreached.literals_eq.symm hoperators.symm ht,
        hreached.balanced⟩
    | [_], _, hanswer => cases hanswer
    | _ :: _ :: _, _, hanswer => cases hanswer
  · rintro ⟨hts, hbalanced⟩
    obtain ⟨k, hk, hrun⟩ := run_parens limit hts hbalanced.opened
    have hclosed := hbalanced.closed
    obtain rfl : k = 0 := by omega
    rw [Expr.ofTokens_eq, hrun]
    rfl

/-- Operands are left over if there are too many numbers for the operators that join two. -/
theorem ofTokens_dangling {n : Nat} (h : Expr.ofTokens limit ts = .error (.danglingOperands n)) :
    (n : Int) = (Token.literals ts).length - Token.binaryCount ts ∧ 2 ≤ n ∧
      Token.Balanced ts := by
  obtain ⟨xs, hreached, hanswer⟩ :=
    reached_of_ofTokens h (by simp) (by simp) (by simp)
  have hlength := hreached.length_literals
  match xs, hlength, hanswer with
  | [], _, hanswer | [_], _, hanswer => cases hanswer
  | x :: y :: rest, hlength, rfl =>
    refine ⟨?_, Nat.le_add_left .., hreached.balanced⟩
    omega

/-- A parenthesis is reported only if one has no partner. -/
theorem not_balanced_of_ofTokens (h : Expr.ofTokens limit ts = .error .unmatchedParenthesis) :
    ¬ Token.Balanced ts := by
  rcases Expr.ofTokens_cases limit ts with hr | ⟨c, hr⟩ | ⟨-, hopen⟩ | ⟨xs, -, hr⟩
  · rw [h] at hr
    cases hr
  · rw [h] at hr
    cases hr
  · rcases hopen with ⟨us, xs, hus, hreached⟩ | ⟨xs, ps, hreached⟩
    · exact hreached.not_balanced_of_rparen hus
    · exact hreached.not_balanced
  · rw [h] at hr
    match xs, hr with
    | [], hr | [_], hr | _ :: _ :: _, hr => cases hr

/-- An operator is never unknown. -/
theorem ofTokens_ne_unknownOperator (limit : Nat) (ts : List Token) (d : String) :
    Expr.ofTokens limit ts ≠ .error (.unknownOperator d) := by
  intro h
  obtain ⟨xs, -, hanswer⟩ := reached_of_ofTokens h (by simp) (by simp) (by simp)
  match xs, hanswer with
  | [], hanswer | [_], hanswer | _ :: _ :: _, hanswer => cases hanswer

/-- **Nothing is lost, added or moved.** Whatever the tokens and their order, and whatever the
limit: no operator is unknown. A tree that is returned has the numbers as its literals, in their
order, the operators in its nodes, each with the operands that it takes, and no more levels than the
limit admits. No tree is returned for paired parentheses alone, and only for them. If operands are
left over, the numbers exceed the operators that join two by just as many. And parentheses without
partners are always an error, which may be another one, but are reported only where there are
some. -/
theorem ofTokens_conserves (limit : Nat) (ts : List Token) :
    (∀ d, Expr.ofTokens limit ts ≠ .error (.unknownOperator d)) ∧
    (∀ e, Expr.ofTokens limit ts = .ok (some e) →
      e.literals = Token.literals ts ∧ e.operators.Perm (Token.operators ts) ∧ e.WellTyped ∧
        e.height ≤ limit ∧ Token.Balanced ts) ∧
    (Expr.ofTokens limit ts = .ok none ↔
      (∀ t ∈ ts, t = .lparen ∨ t = .rparen) ∧ Token.Balanced ts) ∧
    (∀ n, Expr.ofTokens limit ts = .error (.danglingOperands n) →
      (n : Int) = (Token.literals ts).length - Token.binaryCount ts ∧ 2 ≤ n ∧
        Token.Balanced ts) ∧
    (¬ Token.Balanced ts → ∃ x, Expr.ofTokens limit ts = .error x) ∧
    (Expr.ofTokens limit ts = .error .unmatchedParenthesis → ¬ Token.Balanced ts) := by
  refine ⟨ofTokens_ne_unknownOperator limit ts, fun e h => ?_, ofTokens_none_iff,
    fun n => ofTokens_dangling, fun h => ?_, not_balanced_of_ofTokens⟩
  · obtain ⟨hliterals, hoperators, hwellTyped, hheight⟩ := ofTokens_some h
    exact ⟨hliterals, hoperators, hwellTyped, hheight, balanced_of_ofTokens h⟩
  · cases hr : Expr.ofTokens limit ts with
    | error x => exact ⟨x, rfl⟩
    | ok r => exact absurd (balanced_of_ofTokens hr) h

/-- `1 ( 2 - )` is no sentence, but it has a tree, and the parentheses leave nothing of themselves.
`1 2 3 -` leaves two operands, and the parentheses of `1 2 + ) )` have no partners. -/
theorem ofTokens_conserves_postfix :
    let ts : List Token := [.num 1, .lparen, .num 2, .op .sub, .rparen]
    let e : Expr := .binary .sub (.num 1) (.num 2)
    Expr.ofTokens 2 ts = .ok (some e) ∧ e.literals = Token.literals ts ∧
      e.operators.Perm (Token.operators ts) ∧ e.WellTyped ∧ e.height ≤ 2 ∧ Token.Balanced ts ∧
      Expr.ofTokens 2 [.num 1, .num 2, .num 3, .op .sub] = .error (.danglingOperands 2) ∧
      Token.Balanced [.num 1, .num 2, .num 3, .op .sub] ∧
      Expr.ofTokens 2 [.num 1, .num 2, .op .add, .rparen, .rparen] =
        .error .unmatchedParenthesis ∧
      ¬ Token.Balanced [.num 1, .num 2, .op .add, .rparen, .rparen] := by
  intro ts e
  have htree : Expr.ofTokens 2 ts = .ok (some e) := rfl
  have hleft : Expr.ofTokens 2 [.num 1, .num 2, .num 3, .op .sub] =
      .error (.danglingOperands 2) := rfl
  have hopen : Expr.ofTokens 2 [.num 1, .num 2, .op .add, .rparen, .rparen] =
      .error .unmatchedParenthesis := rfl
  obtain ⟨hliterals, hoperators, hwellTyped, hheight, hbalanced⟩ :=
    (ofTokens_conserves 2 ts).2.1 e htree
  obtain ⟨-, -, -, hdangling, -, -⟩ := ofTokens_conserves 2 [.num 1, .num 2, .num 3, .op .sub]
  obtain ⟨-, -, -, -, -, hunmatched⟩ :=
    ofTokens_conserves 2 [.num 1, .num 2, .op .add, .rparen, .rparen]
  exact ⟨htree, hliterals, hoperators, hwellTyped, hheight, hbalanced, hleft,
    (hdangling 2 hleft).2.2, hopen, hunmatched hopen⟩

end Expr

end TreeCalculator
