import TreeCalculator.Proofs.Stacks.Reached

/-!
# A lower limit only cuts

The same tokens are read under two limits. The two runs make the same moves until the lower limit
refuses a node, and the node that it refuses is still there at the end of the other run, on its own
or inside a higher one: reductions never make the highest operand lower (`run_tallest_le`). So the
lower limit cuts off a run exactly if something on its last stacks is too high, unless that run
fails anyway.

`Cut` is this relation between two results, and `Cut.bind` goes from one move to the next.
-/

namespace TreeCalculator

open Operand (Reduction)

/-- The height of the highest operand. -/
def Operand.tallest : List Operand → Nat
  | [] => 0
  | x :: xs => max x.height (tallest xs)

open Operand (tallest)

namespace Operand

variable {o : Operator} {x : Operand} {xs rest : List Operand}

/-- A reduction never makes the highest operand lower. -/
theorem Reduction.tallest_le (h : Reduction o xs x rest) : tallest xs ≤ tallest (x :: rest) := by
  cases h with
  | sign x rest =>
    simp only [tallest, Operand.unary]
    omega
  | binary ho l r rest =>
    simp only [tallest, Operand.binary]
    omega

/-- What a reduction leaves was there before. -/
theorem Reduction.tallest_rest_le (h : Reduction o xs x rest) : tallest rest ≤ tallest xs := by
  cases h with
  | sign x rest =>
    simp only [tallest]
    omega
  | binary ho l r rest =>
    simp only [tallest]
    omega

end Operand

namespace Stacks

variable {limit limit' : Nat} {p : Operator → Bool} {x : Operand} {s s' : Stacks} {t : Token}
  {ts : List Token} {r r' : Except CalcError Stacks} {f f' : Stacks → Except CalcError Stacks}

/-! ## The highest operand grows -/

theorem settle_tallest_le (h : settle limit p s = .ok s') :
    tallest s.operands ≤ tallest s'.operands := by
  obtain ⟨xs, ps⟩ := s
  induction xs, ps using settle_induction p with
  | settled xs ps hs =>
    rw [settle_of_settled hs] at h
    cases h
    exact Nat.le_refl _
  | unknown t d xs ps ht hd =>
    rw [settle_unknown ht hd] at h
    cases h
  | stuck o xs ps hp hno =>
    rw [settle_stuck hp hno] at h
    cases h
  | reduce o xs x rest ps hp hr ih =>
    rw [settle_reduction hp hr] at h
    obtain ⟨s₁, hput, hsettle⟩ := CalcError.ok_of_bind h
    obtain ⟨-, rfl⟩ := put_eq_ok hput
    exact Nat.le_trans hr.tallest_le (ih hsettle)

theorem close_operands (h : close s = .ok s') : s'.operands = s.operands := by
  obtain rfl := close_eq_ok h
  rfl

theorem step_tallest_le (h : step limit s t = .ok s') :
    tallest s.operands ≤ tallest s'.operands := by
  cases t with
  | num n =>
    obtain ⟨-, rfl⟩ := put_eq_ok h
    exact Nat.le_max_right ..
  | lparen =>
    cases h
    exact Nat.le_refl _
  | rparen =>
    rw [step_rparen] at h
    obtain ⟨s₁, hsettle, hclose⟩ := CalcError.ok_of_bind h
    rw [close_operands hclose]
    exact settle_tallest_le hsettle
  | op o =>
    rw [step_op] at h
    obtain ⟨s₁, hsettle, hpush⟩ := CalcError.ok_of_bind h
    have hgrows := settle_tallest_le hsettle
    cases hpush
    exact hgrows

/-- The highest operand never becomes lower during a run. -/
theorem run_tallest_le (h : run limit s ts = .ok s') :
    tallest s.operands ≤ tallest s'.operands := by
  induction ts generalizing s with
  | nil =>
    cases h
    exact Nat.le_refl _
  | cons t ts ih =>
    rw [run_cons] at h
    obtain ⟨s₁, hstep, hrun⟩ := CalcError.ok_of_bind h
    exact Nat.le_trans (step_tallest_le hstep) (ih hrun)

/-! ## Two limits -/

/-- `Cut limit r' r`: where a higher limit comes to `r'`, the limit `limit` comes to `r`. It comes
to the same stacks if all on them is low enough, and otherwise the run has been cut off. A run that
fails fails in the same way, or has been cut off before. -/
inductive Cut (limit : Nat) : Except CalcError Stacks → Except CalcError Stacks → Prop where
  | fits {s : Stacks} : tallest s.operands ≤ limit → Cut limit (.ok s) (.ok s)
  | cut {s : Stacks} : limit < tallest s.operands →
      Cut limit (.ok s) (.error (.nestingTooDeep limit))
  | fails {x : CalcError} : (∀ n, x ≠ .nestingTooDeep n) → Cut limit (.error x) (.error x)
  | cutBefore {x : CalcError} : Cut limit (.error x) (.error (.nestingTooDeep limit))

/-- A move that never makes the highest operand lower continues two runs of which one is cut, if it
does so where neither has been cut off. -/
theorem Cut.bind (h : Cut limit r' r)
    (hf : ∀ s, r' = .ok s → tallest s.operands ≤ limit → Cut limit (f' s) (f s))
    (hgrows : ∀ s s', f' s = .ok s' → tallest s.operands ≤ tallest s'.operands) :
    Cut limit (r' >>= f') (r >>= f) := by
  cases h with
  | fits hs => exact hf _ rfl hs
  | @cut s hs =>
    -- the higher limit goes on alone, but what was too high for the lower one stays on its stack
    show Cut limit (f' s) (.error (.nestingTooDeep limit))
    cases hr : f' s with
    | ok s' => exact .cut (Nat.lt_of_lt_of_le hs (hgrows s s' hr))
    | error x => exact .cutBefore
  | fails hx => exact .fails hx
  | cutBefore => exact .cutBefore

variable (hle : limit ≤ limit')
include hle

theorem put_cut (hs : tallest s.operands ≤ limit) :
    Cut limit (put limit' x s) (put limit x s) := by
  rcases Nat.lt_or_ge limit x.height with hx | hx
  · rw [put_of_lt hx]
    rcases Nat.lt_or_ge limit' x.height with hx' | hx'
    · rw [put_of_lt hx']
      exact .cutBefore
    · rw [put_of_le hx']
      exact .cut (Nat.lt_of_lt_of_le hx (Nat.le_max_left ..))
  · rw [put_of_le hx, put_of_le (Nat.le_trans hx hle)]
    exact .fits (Nat.max_le.2 ⟨hx, hs⟩)

theorem settle_cut (hs : tallest s.operands ≤ limit) :
    Cut limit (settle limit' p s) (settle limit p s) := by
  obtain ⟨xs, ps⟩ := s
  induction xs, ps using settle_induction p with
  | settled xs ps hsettled =>
    rw [settle_of_settled hsettled, settle_of_settled hsettled]
    exact .fits hs
  | unknown t d xs ps ht hd =>
    rw [settle_unknown ht hd, settle_unknown ht hd]
    exact .fails nofun
  | stuck o xs ps hp hno =>
    rw [settle_stuck hp hno, settle_stuck hp hno]
    exact .fails nofun
  | reduce o xs x rest ps hp hr ih =>
    rw [settle_reduction hp hr, settle_reduction hp hr]
    refine (put_cut hle (Nat.le_trans hr.tallest_rest_le hs)).bind (fun s₁ hput hs₁ => ?_)
      fun _ _ => settle_tallest_le
    obtain ⟨-, rfl⟩ := put_eq_ok hput
    exact ih hs₁

theorem step_cut (hs : tallest s.operands ≤ limit) :
    Cut limit (step limit' s t) (step limit s t) := by
  cases t with
  | num n => exact put_cut hle hs
  | lparen => exact .fits hs
  | rparen =>
    rw [step_rparen, step_rparen]
    refine (settle_cut hle hs).bind (fun s₁ _ hs₁ => ?_) fun s₁ s₂ hclose => ?_
    · unfold close
      split
      · exact .fits hs₁
      · exact .fails nofun
    · exact Nat.le_of_eq (congrArg tallest (close_operands hclose)).symm
  | op o =>
    rw [step_op, step_op]
    refine (settle_cut hle hs).bind (fun s₁ _ hs₁ => .fits hs₁) fun s₁ s₂ hpush => ?_
    cases hpush
    exact Nat.le_refl _

/-- As long as the lower limit admits what is on the stacks, it cuts a run at most. -/
theorem run_cut (hs : tallest s.operands ≤ limit) :
    Cut limit (run limit' s ts) (run limit s ts) := by
  induction ts generalizing s with
  | nil => exact .fits hs
  | cons t ts ih =>
    rw [run_cons, run_cons]
    exact (step_cut hle hs).bind (fun _ _ hs₁ => ih hs₁) fun _ _ => run_tallest_le

/-- The same to the end, when all waiting operators are settled. -/
theorem settled_run_cut : Cut limit (run limit' {} ts >>= settle limit' fun _ => true)
    (run limit {} ts >>= settle limit fun _ => true) :=
  (run_cut hle (Nat.zero_le _)).bind (fun _ _ hs => settle_cut hle hs) fun _ _ => settle_tallest_le

end Stacks

namespace Expr

open Stacks

variable {limit limit' : Nat}

/-- **A lower limit only cuts.** Of two limits, the lower one returns the same tree where its height
admits it and complains of the limit where it does not. It finds no tree where the higher one finds
none, and complains of the limit where the higher one does. Where the higher limit meets another
error, the lower one meets it too, or complains of the limit first. -/
theorem ofTokens_lower_limit (hle : limit ≤ limit') (ts : List Token) :
    match Expr.ofTokens limit' ts with
    | .ok none => Expr.ofTokens limit ts = .ok none
    | .ok (some e) => Expr.ofTokens limit ts =
        if e.height ≤ limit then .ok (some e) else .error (.nestingTooDeep limit)
    | .error (.nestingTooDeep _) => Expr.ofTokens limit ts = .error (.nestingTooDeep limit)
    | .error x => Expr.ofTokens limit ts = .error x ∨
        Expr.ofTokens limit ts = .error (.nestingTooDeep limit) := by
  have hcut : Cut limit (run limit' {} ts >>= settle limit' fun _ => true)
      (run limit {} ts >>= settle limit fun _ => true) := settled_run_cut hle
  rw [ofTokens_eq ts, ofTokens_eq ts]
  generalize hr' : (run limit' {} ts >>= settle limit' fun _ => true) = r' at hcut ⊢
  generalize (run limit {} ts >>= settle limit fun _ => true) = r at hcut ⊢
  cases hcut with
  | @fits s hs =>
    have hsound := (reached_of_settled_run hr').1.sound
    match s, hs, hsound with
    | ⟨[], []⟩, _, _ => rfl
    | ⟨[x], []⟩, hs, hsound =>
      have hheight := (hsound x List.mem_cons_self).height_eq
      have hx : x.height ≤ limit := (Nat.max_le.1 hs).1
      exact (if_pos (hheight ▸ hx)).symm
    | ⟨_ :: _ :: _, []⟩, _, _ | ⟨[], _ :: _⟩, _, _ | ⟨_ :: _, _ :: _⟩, _, _ => exact .inl rfl
  | @cut s hs =>
    have hsound := (reached_of_settled_run hr').1.sound
    match s, hs, hsound with
    | ⟨[], []⟩, hs, _ => exact absurd hs (Nat.not_lt_zero _)
    | ⟨[x], []⟩, hs, hsound =>
      have hheight := (hsound x List.mem_cons_self).height_eq
      have hx : limit < x.height := by simpa [tallest] using hs
      exact (if_neg (Nat.not_le.2 (hheight ▸ hx))).symm
    | ⟨_ :: _ :: _, []⟩, _, _ | ⟨[], _ :: _⟩, _, _ | ⟨_ :: _, _ :: _⟩, _, _ => exact .inr rfl
  | @fails x hx =>
    cases x with
    | nestingTooDeep n => exact absurd rfl (hx n)
    | insufficientOperands | divisionByZero | unknownOperator | unmatchedParenthesis
    | danglingOperands | emptyTree => exact .inl rfl
  | @cutBefore x =>
    cases x with
    | nestingTooDeep n => rfl
    | insufficientOperands | divisionByZero | unknownOperator | unmatchedParenthesis
    | danglingOperands | emptyTree => exact .inr rfl

/-- `1 2 3 + *` is no sentence, but it is built as `1 + 2 * 3`, with one level more than a limit of
two admits. -/
theorem ofTokens_lower_limit_postfix :
    let ts : List Token := [.num 1, .num 2, .num 3, .op .add, .op .mul]
    let e : Expr := .binary .add (.num 1) (.binary .mul (.num 2) (.num 3))
    2 ≤ 3 ∧ Expr.ofTokens 3 ts = .ok (some e) ∧
      Expr.ofTokens 2 ts = .error (.nestingTooDeep 2) := by
  intro ts e
  have hle : 2 ≤ 3 := Nat.le_succ 2
  have hhigh : Expr.ofTokens 3 ts = .ok (some e) := rfl
  have hlow := ofTokens_lower_limit hle ts
  rw [hhigh] at hlow
  have hheight : e.height = 3 := by simp [e]
  refine ⟨hle, hhigh, hlow.trans (if_neg ?_)⟩
  rw [hheight]
  exact Nat.not_succ_le_self 2

end Expr

end TreeCalculator
