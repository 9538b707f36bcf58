import TreeCalculator.Stacks

/-!
# Steps of the two stacks

What a token does to the stacks is put together from a few moves: `Stacks.put` puts an operand on
its stack, unless it is too high, `Stacks.settle` reduces the operators on top that need not wait
any longer, and `Stacks.close` drops an open parenthesis. The equations below say what each move
does to stacks of a given shape, and which moves a token makes; proofs about whole runs use them
and do not unfold `reduceWhile`.

A closing parenthesis and the end of the tokens have loops of their own, which ask for the tokens on
top in another way than an operator does. Both come to the same as `settle`
(`reduceWhile_ne_lparen`, `reduceWhile_true`).
-/

namespace TreeCalculator

variable {limit : Nat}

/-- An operator takes the operand before the next one if it binds more tightly, or as tightly and
the next one groups to the left. -/
theorem Operator.takesOperandBefore_eq_true_iff {top next : Operator} :
    top.takesOperandBefore next = true ↔ next.precedence < top.precedence ∨
      next.precedence = top.precedence ∧ next.associativity = .left := by
  simp [takesOperandBefore]

/-- To reduce the token of an operator is to apply the operator. -/
theorem Operand.reduce_op (o : Operator) (stack : List Operand) :
    Operand.reduce limit (.op o) stack = Operand.apply limit o stack := by
  rw [reduce, if_neg Token.op_ne_lparen, Token.operator_op, CalcError.ok_bind]

namespace Stacks

variable {p : Operator → Bool} {o : Operator} {x l r : Operand}
  {xs : List Operand} {ps : List Token} {s : Stacks}

/-- Puts an operand on its stack, unless it is higher than the limit. -/
def put (limit : Nat) (x : Operand) (s : Stacks) : Except CalcError Stacks := do
  return { s with operands := ← Operand.push limit x s.operands }

/-- Whether `p` accepts the operator on top. An open parenthesis is not accepted, and any other
token fails. -/
def accepts (p : Operator → Bool) (top : Token) : Except CalcError Bool :=
  if top = .lparen then .ok false else do return p (← top.operator)

/-- Reduces the operators on top that `p` accepts. -/
def settle (limit : Nat) (p : Operator → Bool) (s : Stacks) : Except CalcError Stacks :=
  reduceWhile limit (accepts p) s.pending s.operands

/-- Drops the open parenthesis on top. -/
def close (s : Stacks) : Except CalcError Stacks :=
  match s.pending with
  | .lparen :: rest => .ok { s with pending := rest }
  | _ => .error .unmatchedParenthesis

/-- The tree that settled stacks hold. -/
def answer (s : Stacks) : Except CalcError (Option Expr) :=
  match s.pending, s.operands with
  | [], [] => .ok none
  | [], [x] => .ok (some x.expr)
  | [], operands => .error (.danglingOperands operands.length)
  | _ :: _, _ => .error .unmatchedParenthesis

/-! ## Putting an operand -/

theorem put_of_le (h : x.height ≤ limit) :
    put limit x ⟨xs, ps⟩ = .ok ⟨x :: xs, ps⟩ := by
  rw [put, Operand.push, if_neg (Nat.not_lt.2 h)]
  rfl

theorem put_of_lt (h : limit < x.height) : put limit x s = .error (.nestingTooDeep limit) := by
  rw [put, Operand.push, if_pos h]
  rfl

theorem put_eq_ok {s' : Stacks} (h : put limit x s = .ok s') :
    x.height ≤ limit ∧ s' = ⟨x :: s.operands, s.pending⟩ := by
  rcases Nat.lt_or_ge limit x.height with hx | hx
  · rw [put_of_lt hx] at h
    cases h
  · rw [put_of_le hx] at h
    cases h
    exact ⟨hx, rfl⟩

theorem put_eq_error {e : CalcError} (h : put limit x s = .error e) :
    e = .nestingTooDeep limit := by
  rcases Nat.lt_or_ge limit x.height with hx | hx
  · rw [put_of_lt hx] at h
    cases h
    rfl
  · rw [put_of_le hx] at h
    cases h

/-! ## Settling the operators -/

theorem settle_nil : settle limit p ⟨xs, []⟩ = .ok ⟨xs, []⟩ := rfl

theorem settle_lparen : settle limit p ⟨xs, .lparen :: ps⟩ = .ok ⟨xs, .lparen :: ps⟩ := rfl

theorem accepts_op (p : Operator → Bool) (o : Operator) : accepts p (.op o) = .ok (p o) := by
  rw [accepts, if_neg Token.op_ne_lparen, Token.operator_op]
  rfl

theorem settle_of_eq_false (h : p o = false) :
    settle limit p ⟨xs, .op o :: ps⟩ = .ok ⟨xs, .op o :: ps⟩ := by
  rw [settle, reduceWhile, accepts_op, h]
  rfl

/-- An operator that need not wait is applied. -/
theorem settle_of_eq_true (h : p o = true) : settle limit p ⟨xs, .op o :: ps⟩ =
    (Operand.apply limit o xs >>= fun xs => settle limit p ⟨xs, ps⟩) := by
  rw [settle, reduceWhile, accepts_op, h, Operand.reduce_op]
  rfl

/-- A token that is no operator fails, unless it is an open parenthesis. -/
theorem settle_unknown {t : Token} {e : CalcError} (ht : t ≠ .lparen) (h : t.operator = .error e) :
    settle limit p ⟨xs, t :: ps⟩ = .error e := by
  rw [settle, reduceWhile, accepts, if_neg ht, h]
  rfl

/-- An operator between two operands that need not wait takes both. -/
theorem settle_binary (ho : o.isUnary = false) (h : p o = true) :
    settle limit p ⟨r :: l :: xs, .op o :: ps⟩ =
      (put limit (.binary o l r) ⟨xs, ps⟩ >>= settle limit p) := by
  simp [settle_of_eq_true h, Operand.apply, ho, put]

/-- A sign that need not wait takes the operand on top. -/
theorem settle_sign (h : p .neg = true) :
    settle limit p ⟨x :: xs, .op .neg :: ps⟩ =
      (put limit (.unary .neg x) ⟨xs, ps⟩ >>= settle limit p) := by
  simp [settle_of_eq_true h, Operand.apply, Operator.isUnary, put]

/-- A closing parenthesis reduces all that waits above the next open one. -/
theorem reduceWhile_ne_lparen (ps : List Token) (xs : List Operand) :
    reduceWhile limit (fun top => .ok (top ≠ .lparen)) ps xs =
      settle limit (fun _ => true) ⟨xs, ps⟩ := by
  induction ps generalizing xs with
  | nil => rfl
  | cons t ps ih =>
    cases t with
    | num n => rfl
    | op o =>
      have hop : decide (Token.op o ≠ .lparen) = true := decide_eq_true Token.op_ne_lparen
      simp only [settle_of_eq_true, reduceWhile, hop, Operand.reduce_op, ← ih]
      rfl
    | lparen => rfl
    | rparen => rfl

/-- At the end all that waits is reduced, and an open parenthesis among it has no partner. -/
theorem reduceWhile_true (ps : List Token) (xs : List Operand) :
    reduceWhile limit (fun _ => .ok true) ps xs =
      (settle limit (fun _ => true) ⟨xs, ps⟩ >>= fun s =>
        if s.pending = [] then .ok s else .error .unmatchedParenthesis) := by
  induction ps generalizing xs with
  | nil => rfl
  | cons t ps ih =>
    cases t with
    | num n => rfl
    | op o =>
      simp only [settle_of_eq_true, reduceWhile, Operand.reduce_op, ih, bind_assoc]
      rfl
    | lparen => rfl
    | rparen => rfl

/-! ## The token on top -/

/-- Nothing waits, or an open parenthesis is on top, or an operator of which `q` holds. -/
inductive OnTop (q : Operator → Prop) : List Token → Prop where
  | nil : OnTop q []
  | lparen (ps : List Token) : OnTop q (.lparen :: ps)
  | op {o : Operator} (ps : List Token) : q o → OnTop q (.op o :: ps)

variable {q q' : Operator → Prop}

theorem OnTop.imp (h : OnTop q ps) (hq : ∀ o, q o → q' o) : OnTop q' ps := by
  cases h with
  | nil => exact .nil
  | lparen ps => exact .lparen ps
  | op ps ho => exact .op ps (hq _ ho)

/-- No operator on top is one that `p` accepts. -/
abbrev Settled (p : Operator → Bool) (ps : List Token) : Prop := OnTop (p · = false) ps

/-- If every operator is accepted, an open parenthesis is all that may be left on top. -/
theorem Settled.eq_nil_or_lparen (h : Settled (fun _ => true) ps) :
    ps = [] ∨ ∃ qs, ps = .lparen :: qs := by
  cases h with
  | nil => exact .inl rfl
  | lparen qs => exact .inr ⟨qs, rfl⟩
  | op _ ho => cases ho

theorem settle_of_settled (h : Settled p ps) : settle limit p ⟨xs, ps⟩ = .ok ⟨xs, ps⟩ := by
  cases h with
  | nil => exact settle_nil
  | lparen => exact settle_lparen
  | op _ ho => exact settle_of_eq_false ho

theorem close_eq_ok {s' : Stacks} (h : close s = .ok s') :
    s = ⟨s'.operands, .lparen :: s'.pending⟩ := by
  match s, h with
  | ⟨_, .lparen :: _⟩, rfl => rfl

/-! ## Reading tokens -/

theorem run_cons (t : Token) (ts : List Token) :
    run limit s (t :: ts) = (step limit s t >>= (run limit · ts)) := rfl

theorem run_singleton (t : Token) : run limit s [t] = step limit s t := by
  rw [run_cons]
  cases step limit s t <;> rfl

theorem run_append (ts us : List Token) :
    run limit s (ts ++ us) = (run limit s ts >>= (run limit · us)) := by
  simp only [run, List.foldlM_append]

theorem step_num (n : Int) : step limit s (.num n) = put limit (.ofInt n) s := rfl

theorem step_op : step limit s (.op o) =
    (settle limit (·.takesOperandBefore o) s >>=
      fun s => .ok { s with pending := .op o :: s.pending }) := by
  cases o <;> rfl

theorem step_lparen : step limit s .lparen = .ok { s with pending := .lparen :: s.pending } := rfl

theorem step_rparen : step limit s .rparen = (settle limit (fun _ => true) s >>= close) := by
  show stepClose limit s = _
  rw [stepClose, reduceWhile_ne_lparen]
  rfl

/-- A group is read above its open parenthesis, which is dropped when all above it is settled. -/
theorem run_group (ts : List Token) : run limit s (.lparen :: (ts ++ [.rparen])) =
    (run limit ⟨s.operands, .lparen :: s.pending⟩ ts >>= settle limit fun _ => true) >>= close := by
  rw [run_cons, step_lparen]
  show run limit _ (ts ++ _) = _
  simp only [run_append, run_singleton, step_rparen, bind_assoc]

end Stacks

open Stacks in
/-- Building a tree is reading the tokens, settling all operators and taking what is left. -/
theorem Expr.ofTokens_eq (ts : List Token) :
    Expr.ofTokens limit ts = ((run limit {} ts >>= settle limit fun _ => true) >>= answer) := by
  rw [ofTokens, bind_assoc]
  refine congrArg _ (funext fun s => ?_)
  rw [finish, reduceWhile_true, bind_assoc]
  refine congrArg _ (funext fun s => ?_)
  match s with
  | ⟨[], []⟩ | ⟨[_], []⟩ | ⟨_ :: _ :: _, []⟩ => rfl
  | ⟨[], _ :: _⟩ | ⟨_ :: _, _ :: _⟩ => rfl

end TreeCalculator
