import TreeCalculator.Proofs.Stacks.Reached

/-!
# A group keeps to itself

Nothing on the operand stack marks where the operands of a group in parentheses begin. A group that
has a tree of its own needs no mark: alone on empty stacks it never lacks an operand, so above any
other stacks it takes none of theirs (`run_within`), and its parenthesis keeps it from their
operators. What it leaves is its tree, whatever its tokens were, and nothing that follows can tell
them apart.
-/

namespace TreeCalculator

open Operand (Reduction)

/-- A reduction takes the same operands when there are others below them. -/
theorem Operand.Reduction.append {o : Operator} {x : Operand} {xs rest : List Operand}
    (h : Reduction o xs x rest) (ys : List Operand) : Reduction o (xs ++ ys) x (rest ++ ys) := by
  cases h with
  | sign x rest => exact .sign x (rest ++ ys)
  | binary ho l r rest => exact .binary ho l r (rest ++ ys)

namespace Stacks

variable {limit : Nat} {p : Operator → Bool} {s s' outer : Stacks} {t : Token}
  {ps qs ts : List Token} {e : Expr}

/-- The stacks `s` of a group, above its open parenthesis and the stacks `outer` around it. -/
def within (outer s : Stacks) : Stacks :=
  ⟨s.operands ++ outer.operands, s.pending ++ .lparen :: outer.pending⟩

/-- The open parenthesis of a group settles what its own operators settle. -/
theorem Settled.append_lparen (h : Settled p ps) : Settled p (ps ++ .lparen :: qs) := by
  cases h with
  | nil => exact .lparen qs
  | lparen ps => exact .lparen _
  | op ps ho => exact .op _ ho

theorem settle_within (h : settle limit p s = .ok s') :
    settle limit p (outer.within s) = .ok (outer.within s') := by
  obtain ⟨xs, ps⟩ := s
  induction xs, ps using settle_induction p with
  | settled xs ps hs =>
    rw [settle_of_settled hs] at h
    cases h
    exact settle_of_settled hs.append_lparen
  | unknown t d xs ps ht hd =>
    rw [settle_unknown ht hd] at h
    cases h
  | stuck o xs ps hp hno =>
    rw [settle_stuck hp hno] at h
    cases h
  | reduce o xs x rest ps hp hr ih =>
    rw [settle_reduction hp hr] at h
    obtain ⟨s₁, hput, hsettle⟩ := CalcError.ok_of_bind h
    obtain ⟨hx, rfl⟩ := put_eq_ok hput
    -- the group has the operands itself, so none is taken from below its parenthesis
    have houter : settle limit p (outer.within ⟨xs, .op o :: ps⟩) =
        (put limit x (outer.within ⟨rest, ps⟩) >>= settle limit p) :=
      settle_reduction hp (hr.append outer.operands)
    rw [houter, put_of_le hx]
    exact ih hsettle

theorem close_within (h : close s = .ok s') : close (outer.within s) = .ok (outer.within s') := by
  obtain rfl := close_eq_ok h
  rfl

theorem step_within (h : step limit s t = .ok s') :
    step limit (outer.within s) t = .ok (outer.within s') := by
  cases t with
  | num n =>
    obtain ⟨hn, rfl⟩ := put_eq_ok h
    exact put_of_le hn
  | lparen =>
    cases h
    rfl
  | rparen =>
    rw [step_rparen] at h ⊢
    obtain ⟨s₁, hsettle, hclose⟩ := CalcError.ok_of_bind h
    rw [settle_within hsettle]
    exact close_within hclose
  | op o =>
    rw [step_op] at h ⊢
    obtain ⟨s₁, hsettle, hpush⟩ := CalcError.ok_of_bind h
    rw [settle_within hsettle]
    cases hpush
    rfl

/-- What does not fail on stacks of its own does the same above any others. -/
theorem run_within (h : run limit s ts = .ok s') :
    run limit (outer.within s) ts = .ok (outer.within s') := by
  induction ts generalizing s with
  | nil =>
    cases h
    rfl
  | cons t ts ih =>
    rw [run_cons] at h ⊢
    obtain ⟨s₁, hstep, hrun⟩ := CalcError.ok_of_bind h
    rw [step_within hstep]
    exact ih hrun

/-- A group that has a tree of its own puts it on the stack, wherever the group stands. -/
theorem run_group_of_ofTokens (h : Expr.ofTokens limit ts = .ok (some e)) (s : Stacks) :
    run limit s (.lparen :: (ts ++ [.rparen])) =
      .ok ⟨⟨e, e.height⟩ :: s.operands, s.pending⟩ := by
  obtain ⟨s₁, hrun, hsettle⟩ := CalcError.ok_of_bind (settled_run_of_ofTokens h)
  have hrun' : run limit ⟨s.operands, .lparen :: s.pending⟩ ts = .ok (s.within s₁) :=
    run_within hrun
  have hsettle' : settle limit (fun _ => true) (s.within s₁) =
      .ok (s.within ⟨[⟨e, e.height⟩], []⟩) := settle_within hsettle
  calc run limit s (.lparen :: (ts ++ [.rparen]))
    _ = (.ok (s.within s₁) >>= settle limit fun _ => true) >>= close := by rw [run_group, hrun']
    _ = .ok (s.within ⟨[⟨e, e.height⟩], []⟩) >>= close := congrArg (· >>= close) hsettle'
    _ = .ok ⟨⟨e, e.height⟩ :: s.operands, s.pending⟩ := rfl

end Stacks

namespace Expr

open Stacks

variable {limit : Nat} {ts ts₁ ts₂ : List Token} {e : Expr}

/-- Of a group that has a tree of its own, the tokens around it see the tree alone. -/
theorem run_around_group (h : Expr.ofTokens limit ts = .ok (some e)) (before after : List Token) :
    run limit {} (before ++ [.lparen] ++ ts ++ [.rparen] ++ after) =
      run limit {} before >>= fun s =>
        run limit ⟨⟨e, e.height⟩ :: s.operands, s.pending⟩ after := by
  have hsplit : before ++ [.lparen] ++ ts ++ [.rparen] ++ after =
      before ++ (.lparen :: (ts ++ [.rparen]) ++ after) := by simp
  rw [hsplit, run_append]
  refine congrArg _ (funext fun s => ?_)
  rw [run_append, run_group_of_ofTokens h]
  rfl

/-- **A group is opaque to what stands around it.** Two token lists with the same tree may stand for
each other in parentheses: whatever stands before and after, the result is the same tree or the same
error. With nothing before and after it, it is their tree. -/
theorem ofTokens_group (h₁ : Expr.ofTokens limit ts₁ = .ok (some e))
    (h₂ : Expr.ofTokens limit ts₂ = .ok (some e)) :
    (∀ before after : List Token,
      Expr.ofTokens limit (before ++ [.lparen] ++ ts₁ ++ [.rparen] ++ after) =
        Expr.ofTokens limit (before ++ [.lparen] ++ ts₂ ++ [.rparen] ++ after)) ∧
    Expr.ofTokens limit ([.lparen] ++ ts₁ ++ [.rparen]) = .ok (some e) := by
  constructor
  · intro before after
    rw [ofTokens_eq, ofTokens_eq, run_around_group h₁, run_around_group h₂]
  · have hgroup : run limit {} ([.lparen] ++ ts₁ ++ [.rparen]) = .ok ⟨[⟨e, e.height⟩], []⟩ :=
      run_group_of_ofTokens h₁ {}
    rw [ofTokens_eq, hgroup]
    rfl

/-- `1 ( 2 - )` and `1 - 2` have the same tree, so the one may stand for the other in `3 * ( ) ^ 2`,
and in front of the `)` without a partner in `3 * ( ) )`. -/
theorem ofTokens_group_postfix :
    let ts₁ : List Token := [.num 1, .lparen, .num 2, .op .sub, .rparen]
    let ts₂ : List Token := [.num 1, .op .sub, .num 2]
    let e : Expr := .binary .sub (.num 1) (.num 2)
    Expr.ofTokens 4 ts₁ = .ok (some e) ∧ Expr.ofTokens 4 ts₂ = .ok (some e) ∧
      Expr.ofTokens 4 ([.num 3, .op .mul] ++ [.lparen] ++ ts₁ ++ [.rparen] ++ [.op .pow, .num 2]) =
        .ok (some (.binary .mul (.num 3) (.binary .pow e (.num 2)))) ∧
      Expr.ofTokens 4 ([.num 3, .op .mul] ++ [.lparen] ++ ts₁ ++ [.rparen] ++ [.rparen]) =
        .error .unmatchedParenthesis ∧
      Expr.ofTokens 4 ([.lparen] ++ ts₁ ++ [.rparen]) = .ok (some e) := by
  intro ts₁ ts₂ e
  have h₁ : Expr.ofTokens 4 ts₁ = .ok (some e) := rfl
  have h₂ : Expr.ofTokens 4 ts₂ = .ok (some e) := rfl
  obtain ⟨haround, halone⟩ := ofTokens_group h₁ h₂
  refine ⟨h₁, h₂, ?_, ?_, halone⟩
  · rw [haround]
    rfl
  · rw [haround]
    rfl

end Expr

end TreeCalculator
