import TreeCalculator.Proofs.Expr.Height
import TreeCalculator.Proofs.Stacks.Basic

/-!
# The stacks that a run reaches

The stacks read any token list, a sentence or not. `Reached limit ts s` collects what can become of
them: it says that `s` are stacks between two moves of a run that has read the tokens `ts`. A run
stays within it (`Reached.run`), so what every move keeps holds of every run, by one induction with
a case for each move. `settle_induction` is the induction for the moves that a single token makes.

A run that fails has one of three reasons, and for each of them `Expr.ofTokens_cases` says where the
stacks were.
-/

namespace TreeCalculator

/-- `Reduction o xs x rest`: the operator `o` takes its operands from the top of `xs`, makes the
node `x` of them and leaves `rest`. -/
inductive Operand.Reduction : Operator → List Operand → Operand → List Operand → Prop where
  | sign (x : Operand) (rest : List Operand) : Reduction .neg (x :: rest) (.unary .neg x) rest
  | binary {o : Operator} (ho : o.isUnary = false) (l r : Operand) (rest : List Operand) :
      Reduction o (r :: l :: rest) (.binary o l r) rest

open Operand (Reduction)

namespace Stacks

variable {limit : Nat} {p : Operator → Bool} {o : Operator} {x : Operand}
  {xs rest : List Operand} {ps : List Token} {s s' : Stacks} {t : Token} {ts us : List Token}
  {e : CalcError}

/-! ## Settling, one reduction at a time -/

/-- An operator that need not wait puts the node that it makes on the stack. -/
theorem settle_reduction (hp : p o = true) (h : Reduction o xs x rest) :
    settle limit p ⟨xs, .op o :: ps⟩ = (put limit x ⟨rest, ps⟩ >>= settle limit p) := by
  cases h with
  | sign => exact settle_sign hp
  | binary ho => exact settle_binary ho hp

/-- An operator that need not wait fails if it has too few operands. -/
theorem settle_stuck (hp : p o = true) (h : ∀ x rest, ¬ Reduction o xs x rest) :
    settle limit p ⟨xs, .op o :: ps⟩ = .error (.insufficientOperands o.symbol) := by
  have happly : Operand.apply limit o xs = .error (.insufficientOperands o.symbol) := by
    cases ho : o.isUnary with
    | true =>
      obtain rfl := Operator.eq_neg_of_isUnary ho
      match xs with
      | [] => rfl
      | x :: rest => exact absurd (.sign x rest) (h _ _)
    | false =>
      match xs with
      | [] | [_] => simp [Operand.apply, ho]
      | r :: l :: rest => exact absurd (.binary ho l r rest) (h _ _)
  rw [settle_of_eq_true hp, happly, CalcError.error_bind]

/-- Settling ends where nothing need be reduced, where a token on top is no operator or where a
reduction lacks operands, and goes on after a reduction with one waiting operator less. -/
theorem settle_induction (p : Operator → Bool) {motive : List Operand → List Token → Prop}
    (settled : ∀ xs ps, Settled p ps → motive xs ps)
    (unknown : ∀ t d xs ps, t ≠ .lparen → t.operator = .error (.unknownOperator d) →
      motive xs (t :: ps))
    (stuck : ∀ o xs ps, p o = true → (∀ x rest, ¬ Reduction o xs x rest) →
      motive xs (.op o :: ps))
    (reduce : ∀ o xs x rest ps, p o = true → Reduction o xs x rest → motive (x :: rest) ps →
      motive xs (.op o :: ps)) (xs : List Operand) (ps : List Token) : motive xs ps := by
  induction ps generalizing xs with
  | nil => exact settled xs [] .nil
  | cons t ps ih =>
    cases t with
    | num n => exact unknown _ _ xs ps nofun rfl
    | lparen => exact settled xs _ (.lparen ps)
    | rparen => exact unknown _ _ xs ps nofun rfl
    | op o =>
      cases hp : p o with
      | false => exact settled xs _ (.op ps hp)
      | true =>
        by_cases h : ∃ x rest, Reduction o xs x rest
        · obtain ⟨x, rest, h⟩ := h
          exact reduce o xs x rest ps hp h (ih _)
        · exact stuck o xs ps hp fun x rest hr => h ⟨x, rest, hr⟩

/-- Only operators and open parentheses wait. -/
def Known (ps : List Token) : Prop := ∀ t ∈ ps, t = .lparen ∨ ∃ o, t = .op o

/-- Settling fails at the limit, or for want of operands. No operator is unknown, because only
operators and open parentheses wait. -/
theorem settle_error (hknown : Known s.pending) (h : settle limit p s = .error e) :
    e = .nestingTooDeep limit ∨ ∃ c, e = .insufficientOperands c := by
  obtain ⟨xs, ps⟩ := s
  induction xs, ps using settle_induction p with
  | settled xs ps hs =>
    rw [settle_of_settled hs] at h
    cases h
  | unknown t d xs ps ht hd =>
    rcases hknown t List.mem_cons_self with rfl | ⟨o, rfl⟩
    · exact absurd rfl ht
    · rw [Token.operator_op] at hd
      cases hd
  | stuck o xs ps hp hno =>
    rw [settle_stuck hp hno] at h
    cases h
    exact .inr ⟨_, rfl⟩
  | reduce o xs x rest ps hp hr ih =>
    rw [settle_reduction hp hr] at h
    rcases CalcError.error_of_bind h with hput | ⟨s₁, hput, hsettle⟩
    · exact .inl (put_eq_error hput)
    · obtain ⟨-, rfl⟩ := put_eq_ok hput
      exact ih (fun t ht => hknown t (List.mem_cons_of_mem _ ht)) hsettle

/-! ## Reached stacks -/

/-- `Reached limit ts s`: between two moves of a run that has read the tokens `ts`, the stacks may
be `s`. -/
inductive Reached (limit : Nat) : List Token → Stacks → Prop where
  | start : Reached limit [] {}
  | num {ts : List Token} {s : Stacks} (n : Int) : Reached limit ts s → 1 ≤ limit →
      Reached limit (ts ++ [.num n]) ⟨.ofInt n :: s.operands, s.pending⟩
  | lparen {ts : List Token} {s : Stacks} : Reached limit ts s →
      Reached limit (ts ++ [.lparen]) ⟨s.operands, .lparen :: s.pending⟩
  | rparen {ts : List Token} {xs : List Operand} {ps : List Token} :
      Reached limit ts ⟨xs, .lparen :: ps⟩ → Reached limit (ts ++ [.rparen]) ⟨xs, ps⟩
  | op {ts : List Token} {s : Stacks} (o : Operator) : Reached limit ts s →
      Settled (·.takesOperandBefore o) s.pending →
      Reached limit (ts ++ [.op o]) ⟨s.operands, .op o :: s.pending⟩
  | reduce {ts : List Token} {o : Operator} {xs rest : List Operand} {x : Operand}
      {ps : List Token} : Reached limit ts ⟨xs, .op o :: ps⟩ → Reduction o xs x rest →
      x.height ≤ limit → Reached limit ts ⟨x :: rest, ps⟩

/-- Settling goes from reached stacks to settled ones. -/
theorem Reached.settle (h : Reached limit ts s) (hs : Stacks.settle limit p s = .ok s') :
    Reached limit ts s' ∧ Settled p s'.pending := by
  obtain ⟨xs, ps⟩ := s
  induction xs, ps using settle_induction p with
  | settled xs ps hps =>
    rw [settle_of_settled hps] at hs
    cases hs
    exact ⟨h, hps⟩
  | unknown t d xs ps ht hd =>
    rw [settle_unknown ht hd] at hs
    cases hs
  | stuck o xs ps hp hno =>
    rw [settle_stuck hp hno] at hs
    cases hs
  | reduce o xs x rest ps hp hr ih =>
    rw [settle_reduction hp hr] at hs
    obtain ⟨s₁, hput, hsettle⟩ := CalcError.ok_of_bind hs
    obtain ⟨hx, rfl⟩ := put_eq_ok hput
    exact ih (h.reduce hr hx) hsettle

/-- A token goes from reached stacks to reached ones. -/
theorem Reached.step (h : Reached limit ts s) (hs : Stacks.step limit s t = .ok s') :
    Reached limit (ts ++ [t]) s' := by
  cases t with
  | num n =>
    rw [step_num] at hs
    obtain ⟨hn, rfl⟩ := put_eq_ok hs
    exact h.num n hn
  | lparen =>
    rw [step_lparen] at hs
    cases hs
    exact h.lparen
  | rparen =>
    rw [step_rparen] at hs
    obtain ⟨s₁, hsettle, hclose⟩ := CalcError.ok_of_bind hs
    obtain rfl := close_eq_ok hclose
    exact (h.settle hsettle).1.rparen
  | op o =>
    rw [step_op] at hs
    obtain ⟨s₁, hsettle, hpush⟩ := CalcError.ok_of_bind hs
    cases hpush
    obtain ⟨h₁, hsettled⟩ := h.settle hsettle
    exact h₁.op o hsettled

/-- A run goes from reached stacks to reached ones. -/
theorem Reached.run (h : Reached limit us s) (hs : Stacks.run limit s ts = .ok s') :
    Reached limit (us ++ ts) s' := by
  induction ts generalizing us s with
  | nil =>
    cases hs
    rwa [List.append_nil]
  | cons t ts ih =>
    rw [run_cons] at hs
    obtain ⟨s₁, hstep, hrun⟩ := CalcError.ok_of_bind hs
    have hreached := ih (h.step hstep) hrun
    rwa [List.append_assoc] at hreached

/-- Only operators and open parentheses wait on reached stacks: nothing else is ever put there. -/
theorem Reached.known (h : Reached limit ts s) : Known s.pending := by
  induction h with
  | start => exact nofun
  | num _ _ _ ih => exact ih
  | lparen _ ih => exact List.forall_mem_cons.2 ⟨.inl rfl, ih⟩
  | op o _ _ ih => exact List.forall_mem_cons.2 ⟨.inr ⟨o, rfl⟩, ih⟩
  | rparen _ ih | reduce _ _ _ ih => exact (List.forall_mem_cons.1 ih).2

/-- A token fails at the limit, for want of operands, or as a closing parenthesis over settled
stacks on which no parenthesis is open. -/
theorem Reached.step_error (h : Reached limit ts s) (hs : Stacks.step limit s t = .error e) :
    e = .nestingTooDeep limit ∨ (∃ c, e = .insufficientOperands c) ∨
      e = .unmatchedParenthesis ∧ t = .rparen ∧ ∃ xs, Reached limit ts ⟨xs, []⟩ := by
  cases t with
  | num n =>
    rw [step_num] at hs
    exact .inl (put_eq_error hs)
  | lparen =>
    rw [step_lparen] at hs
    cases hs
  | rparen =>
    rw [step_rparen] at hs
    rcases CalcError.error_of_bind hs with hsettle | ⟨s₁, hsettle, hclose⟩
    · exact (settle_error h.known hsettle).imp_right .inl
    · -- all operators are settled, so the parenthesis finds its partner or the bottom
      obtain ⟨xs, ps⟩ := s₁
      obtain ⟨h₁, hsettled⟩ := h.settle hsettle
      rcases hsettled.eq_nil_or_lparen with rfl | ⟨qs, rfl⟩
      · cases hclose
        exact .inr (.inr ⟨rfl, rfl, xs, h₁⟩)
      · cases hclose
  | op o =>
    rw [step_op] at hs
    rcases CalcError.error_of_bind hs with hsettle | ⟨s₁, -, hpush⟩
    · exact (settle_error h.known hsettle).imp_right .inl
    · cases hpush

/-- A run fails as one of its tokens does. -/
theorem Reached.run_error (h : Reached limit us s) (hs : Stacks.run limit s ts = .error e) :
    e = .nestingTooDeep limit ∨ (∃ c, e = .insufficientOperands c) ∨
      e = .unmatchedParenthesis ∧
        ∃ vs xs, vs ++ [.rparen] <+: us ++ ts ∧ Reached limit vs ⟨xs, []⟩ := by
  induction ts generalizing us s with
  | nil => cases hs
  | cons t ts ih =>
    rw [run_cons] at hs
    rcases CalcError.error_of_bind hs with hstep | ⟨s₁, hstep, hrun⟩
    · rcases h.step_error hstep with he | hc | ⟨he, rfl, xs, hxs⟩
      · exact .inl he
      · exact .inr (.inl hc)
      · exact .inr (.inr ⟨he, us, xs, ⟨ts, by simp⟩, hxs⟩)
    · have herror := ih (h.step hstep) hrun
      rwa [List.append_assoc] at herror

end Stacks

/-! ## What the operands carry -/

/-- A well-typed tree with its own height, which the limit admits. -/
structure Operand.Sound (limit : Nat) (x : Operand) : Prop where
  wellTyped : x.expr.WellTyped
  height_eq : x.height = x.expr.height
  le_limit : x.height ≤ limit

namespace Operand

variable {limit : Nat} {o : Operator} {x : Operand} {xs rest : List Operand}

/-- A reduction of sound operands leaves sound operands, if the limit admits the node it makes. -/
theorem Reduction.sound (h : Reduction o xs x rest) (hxs : ∀ y ∈ xs, y.Sound limit)
    (hx : x.height ≤ limit) : ∀ y ∈ x :: rest, y.Sound limit := by
  cases h with
  | sign x rest =>
    obtain ⟨hsx, hrest⟩ := List.forall_mem_cons.1 hxs
    refine List.forall_mem_cons.2 ⟨⟨⟨rfl, hsx.wellTyped⟩, ?_, hx⟩, hrest⟩
    show x.height + 1 = _
    rw [hsx.height_eq]
    exact (Expr.height_unary .neg x.expr).symm
  | binary ho l r rest =>
    obtain ⟨hsr, hxs⟩ := List.forall_mem_cons.1 hxs
    obtain ⟨hsl, hrest⟩ := List.forall_mem_cons.1 hxs
    refine List.forall_mem_cons.2 ⟨⟨⟨ho, hsl.wellTyped, hsr.wellTyped⟩, ?_, hx⟩, hrest⟩
    show max l.height r.height + 1 = _
    rw [hsl.height_eq, hsr.height_eq]
    exact (Expr.height_binary o l.expr r.expr).symm

end Operand

namespace Stacks

variable {limit : Nat} {ts : List Token} {s : Stacks} {e : Expr}

/-- Every operand on reached stacks is sound. -/
theorem Reached.sound (h : Reached limit ts s) : ∀ x ∈ s.operands, x.Sound limit := by
  induction h with
  | start => exact nofun
  | num n _ hlimit ih =>
    refine List.forall_mem_cons.2 ⟨⟨trivial, ?_, hlimit⟩, ih⟩
    exact (Expr.height_num n).symm
  | lparen _ ih | rparen _ ih | op _ _ _ ih => exact ih
  | reduce _ hr hx ih => exact hr.sound ih hx

/-! ## Outcomes -/

/-- The stacks that are left at the end are reached and settled. -/
theorem reached_of_settled_run (h : (run limit {} ts >>= settle limit fun _ => true) = .ok s) :
    Reached limit ts s ∧ Settled (fun _ => true) s.pending := by
  obtain ⟨s₁, hrun, hsettle⟩ := CalcError.ok_of_bind h
  have hreached : Reached limit ts s₁ := Reached.start.run hrun
  exact hreached.settle hsettle

/-- A run to the end fails as one of its tokens does, or as the last reductions do. -/
theorem settled_run_error {x : CalcError}
    (h : (run limit {} ts >>= settle limit fun _ => true) = .error x) :
    x = .nestingTooDeep limit ∨ (∃ c, x = .insufficientOperands c) ∨
      x = .unmatchedParenthesis ∧ ∃ us xs, us ++ [.rparen] <+: ts ∧ Reached limit us ⟨xs, []⟩ := by
  rcases CalcError.error_of_bind h with hrun | ⟨s₁, hrun, hsettle⟩
  · exact Reached.start.run_error hrun
  · have hreached : Reached limit ts s₁ := Reached.start.run hrun
    exact (settle_error hreached.known hsettle).imp_right .inl

/-- If a tree is returned, it is alone on the stacks at the end, with its height. -/
theorem settled_run_of_ofTokens (h : Expr.ofTokens limit ts = .ok (some e)) :
    (run limit {} ts >>= settle limit fun _ => true) = .ok ⟨[⟨e, e.height⟩], []⟩ := by
  rw [Expr.ofTokens_eq] at h
  obtain ⟨s, hs, hanswer⟩ := CalcError.ok_of_bind h
  match s, hs, hanswer with
  | ⟨[⟨x, height⟩], []⟩, hs, hanswer =>
    cases hanswer
    have hheight : height = x.height :=
      ((reached_of_settled_run hs).1.sound _ List.mem_cons_self).height_eq
    rw [hs, hheight]
  | ⟨[], []⟩, _, hanswer | ⟨_ :: _ :: _, []⟩, _, hanswer => cases hanswer
  | ⟨[], _ :: _⟩, _, hanswer | ⟨_ :: _, _ :: _⟩, _, hanswer => cases hanswer

end Stacks

open Stacks in
/-- What comes of a token list: a node above the limit, an operator without its operands, a
parenthesis without its partner, or what reached stacks hold on which nothing waits. -/
theorem Expr.ofTokens_cases (limit : Nat) (ts : List Token) :
    Expr.ofTokens limit ts = .error (.nestingTooDeep limit) ∨
    (∃ c, Expr.ofTokens limit ts = .error (.insufficientOperands c)) ∨
    (Expr.ofTokens limit ts = .error .unmatchedParenthesis ∧
      ((∃ us xs, us ++ [.rparen] <+: ts ∧ Reached limit us ⟨xs, []⟩) ∨
        ∃ xs ps, Reached limit ts ⟨xs, .lparen :: ps⟩)) ∨
    ∃ xs, Reached limit ts ⟨xs, []⟩ ∧ Expr.ofTokens limit ts = answer ⟨xs, []⟩ := by
  rw [Expr.ofTokens_eq]
  cases h : run limit {} ts >>= settle limit fun _ => true with
  | error x =>
    rcases settled_run_error h with rfl | ⟨c, rfl⟩ | ⟨rfl, hclose⟩
    · exact .inl rfl
    · exact .inr (.inl ⟨c, rfl⟩)
    · exact .inr (.inr (.inl ⟨rfl, .inl hclose⟩))
  | ok s =>
    obtain ⟨xs, ps⟩ := s
    obtain ⟨hs, hsettled⟩ := reached_of_settled_run h
    rcases hsettled.eq_nil_or_lparen with rfl | ⟨qs, rfl⟩
    · exact .inr (.inr (.inr ⟨xs, hs, rfl⟩))
    · exact .inr (.inr (.inl ⟨by cases xs <;> rfl, .inr ⟨xs, qs, hs⟩⟩))

end TreeCalculator
