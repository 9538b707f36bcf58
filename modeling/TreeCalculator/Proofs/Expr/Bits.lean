import Mathlib.Data.Rat.Lemmas
import Mathlib.Tactic.Ring
import TreeCalculator.Proofs.Expr.Exact
import TreeCalculator.Proofs.Expr.Parts

/-!
# How long exact values are

Sums, products and quotients are about as long as their operands together, but powers of powers grow
beyond all bounds. The guards of `Expr.power?` look at the operands, before a power is computed;
`Expr.bits_le_of_power?` says that they bound the result all the same. So an exact value is never
longer than its tree allows (`Expr.bitBudget`): the literals bring their own bits, an operator
between two operands adds one to those of its operands, and a power adds what the guards let pass.

`Fraction.width` measures a fraction by the longer of its two numbers, and `Fraction.bits` by both
together. Reduction to lowest terms makes neither longer (`Fraction.width_mkRat_le`).
-/

namespace TreeCalculator

namespace Fraction

variable {a b r : Rat} {k l m n : Nat}

/-- The number of bits of the longer of numerator and denominator. -/
def width (r : Rat) : Nat := max r.num.natAbs.size r.den.size

/-- The number of bits of numerator and denominator together. -/
def bits (r : Rat) : Nat := r.num.natAbs.size + r.den.size

theorem width_le_bits (r : Rat) : width r ≤ bits r :=
  Nat.max_le.2 ⟨Nat.le_add_right .., Nat.le_add_left ..⟩

theorem width_le_iff : width r ≤ k ↔ r.num.natAbs < 2 ^ k ∧ r.den < 2 ^ k := by
  rw [width, Nat.max_le, Nat.size_le, Nat.size_le]

theorem num_lt_two_pow_width (r : Rat) : r.num.natAbs < 2 ^ width r :=
  (width_le_iff.1 (Nat.le_refl _)).1

theorem den_lt_two_pow_width (r : Rat) : r.den < 2 ^ width r :=
  (width_le_iff.1 (Nat.le_refl _)).2

/-! ## The four operations -/

/-- In lowest terms a fraction is no longer than as it was written. -/
theorem width_mkRat_le {p : Int} {q : Nat} (hq : q ≠ 0) (hp : p.natAbs < 2 ^ k) (hqk : q < 2 ^ k) :
    width (mkRat p q) ≤ k := by
  rw [width_le_iff, Rat.num_mkRat, Rat.den_mkRat, if_neg hq, if_neg hq]
  exact ⟨Nat.lt_of_le_of_lt (Int.natAbs_ediv_le_natAbs _ _) hp,
    Nat.lt_of_le_of_lt (Nat.div_le_self _ _) hqk⟩

theorem mul_lt_two_pow (hm : m < 2 ^ k) (hn : n < 2 ^ l) : m * n < 2 ^ (k + l) := by
  rw [Nat.pow_add]
  exact Nat.mul_lt_mul'' hm hn

theorem width_mul_le (a b : Rat) : width (a * b) ≤ width a + width b := by
  rw [Rat.mul_def']
  refine width_mkRat_le (Nat.mul_ne_zero a.den_nz b.den_nz) ?_ ?_
  · rw [Int.natAbs_mul]
    exact mul_lt_two_pow (num_lt_two_pow_width a) (num_lt_two_pow_width b)
  · exact mul_lt_two_pow (den_lt_two_pow_width a) (den_lt_two_pow_width b)

/-- A sum has one bit more than the product of the denominators leaves room for: the carry. -/
theorem width_add_le (a b : Rat) : width (a + b) ≤ width a + width b + 1 := by
  rw [Rat.add_def']
  have hleft : (a.num * b.den).natAbs < 2 ^ (width a + width b) := by
    rw [Int.natAbs_mul]
    exact mul_lt_two_pow (num_lt_two_pow_width a) (den_lt_two_pow_width b)
  have hright : (b.num * a.den).natAbs < 2 ^ (width a + width b) := by
    rw [Int.natAbs_mul, Nat.add_comm]
    exact mul_lt_two_pow (num_lt_two_pow_width b) (den_lt_two_pow_width a)
  have hden : a.den * b.den < 2 ^ (width a + width b) :=
    mul_lt_two_pow (den_lt_two_pow_width a) (den_lt_two_pow_width b)
  refine width_mkRat_le (Nat.mul_ne_zero a.den_nz b.den_nz) ?_ ?_
  · have hsum := Int.natAbs_add_le (a.num * b.den) (b.num * a.den)
    rw [Nat.pow_succ]
    omega
  · rw [Nat.pow_succ]
    omega

theorem width_neg (a : Rat) : width (-a) = width a := by
  rw [width, Rat.num_neg_eq_neg_num, Rat.neg_den, Int.natAbs_neg, width]

theorem width_sub_le (a b : Rat) : width (a - b) ≤ width a + width b + 1 := by
  rw [Rat.sub_eq_add_neg, ← width_neg b]
  exact width_add_le a (-b)

/-- The inverse of a fraction is the fraction turned over. -/
theorem inv_parts (h : a ≠ 0) : a⁻¹.num.natAbs = a.den ∧ a⁻¹.den = a.num.natAbs := by
  have hnum : a.num ≠ 0 := Rat.num_ne_zero.2 h
  rw [Rat.num_inv, Rat.den_inv, if_neg hnum, Int.natAbs_mul, Int.natAbs_sign_of_ne_zero hnum,
    Nat.one_mul]
  exact ⟨rfl, rfl⟩

theorem width_inv (a : Rat) : width a⁻¹ = width a := by
  rcases eq_or_ne a 0 with rfl | h
  · rw [inv_zero]
  · rw [width, (inv_parts h).1, (inv_parts h).2, Nat.max_comm, width]

theorem bits_inv (a : Rat) : bits a⁻¹ = bits a := by
  rcases eq_or_ne a 0 with rfl | h
  · rw [inv_zero]
  · rw [bits, (inv_parts h).1, (inv_parts h).2, Nat.add_comm, bits]

theorem width_div_le (a b : Rat) : width (a / b) ≤ width a + width b := by
  rw [div_eq_mul_inv, ← width_inv b]
  exact width_mul_le a b⁻¹

/-! ## Powers -/

theorem size_pow_le (hn : n ≠ 0) (m : Nat) : (m ^ n).size ≤ m.size * n := by
  rw [Nat.size_le, Nat.pow_mul]
  exact Nat.pow_lt_pow_left m.lt_size_self hn

/-- The bits of a power are as many as all its factors have; an empty product is `1/1`. -/
theorem bits_pow_le (a : Rat) (n : Nat) : bits (a ^ n) ≤ max 2 (bits a * n) := by
  rcases Nat.eq_zero_or_pos n with rfl | hn
  · rw [pow_zero]
    exact Nat.le_max_left ..
  · have hnum := size_pow_le (Nat.ne_of_gt hn) a.num.natAbs
    have hden := size_pow_le (Nat.ne_of_gt hn) a.den
    rw [bits, Rat.num_pow, Rat.den_pow, Int.natAbs_pow]
    calc (a.num.natAbs ^ n).size + (a.den ^ n).size
        ≤ a.num.natAbs.size * n + a.den.size * n := Nat.add_le_add hnum hden
      _ = bits a * n := (Nat.add_mul ..).symm
      _ ≤ max 2 (bits a * n) := Nat.le_max_right ..

/-- It makes no difference to the bits of a power whether its exponent is negative. -/
theorem bits_zpow (a : Rat) (n : Int) : bits (a ^ n) = bits (a ^ n.natAbs) := by
  cases n with
  | ofNat m => rw [Int.ofNat_eq_natCast, zpow_natCast, Int.natAbs_natCast]
  | negSucc m => rw [zpow_negSucc, bits_inv, Int.natAbs_negSucc]

end Fraction

namespace Expr

open Fraction

variable {e l r x : Expr} {o : Operator} {a b v : Rat}

/-! ## What a tree allows -/

/-- The bits that the numerator and the denominator of the exact value may each have: those of the
literals, one more for each operator between two operands, and `bitLimit` more for each power. -/
def bitBudget (e : Expr) : Nat :=
  (e.literals.map fun n => max 1 n.natAbs.size).sum + e.binaryOperators.length +
    bitLimit * e.binaryOperators.count .pow

theorem bitBudget_num (n : Int) : (num n).bitBudget = max 1 n.natAbs.size := by
  simp [bitBudget]

theorem bitBudget_unary : (unary o x).bitBudget = x.bitBudget := rfl

theorem bitBudget_binary : (binary o l r).bitBudget =
    l.bitBudget + r.bitBudget + 1 + if o = .pow then bitLimit else 0 := by
  simp only [bitBudget, literals_binary, binaryOperators_binary, List.map_append, List.sum_append,
    List.length_cons, List.length_append, List.count_cons, List.count_append, beq_iff_eq]
  split <;> ring

/-! ## What a value needs -/

/-- A power that passes the guards of `power?` is no longer than the guards say. -/
theorem bits_le_of_power? (h : power? a b = some v) : bits v ≤ bitLimit := by
  obtain ⟨hyields, hadmitted⟩ := power?_eq_some_iff.1 h
  cases hyields with
  | @pow _ n _ =>
    have hfits := powerFits_eq_true_iff.2 hadmitted
    rw [powerFits, bitLength_eq_size, bitLength_eq_size, Bool.and_eq_true, decide_eq_true_eq,
      decide_eq_true_eq] at hfits
    rw [bits_zpow]
    exact (bits_pow_le a n.natAbs).trans (Nat.max_le.2 ⟨by decide, hfits.2⟩)

/-- The result of an operator is no longer than its operands and the operator allow. -/
theorem width_le_of_yields (h : o.Yields a b v) (hpow : o = .pow → power? a b = some v) :
    width v ≤ width a + width b + 1 + if o = .pow then bitLimit else 0 := by
  cases h with
  | add => exact width_add_le a b
  | sub => exact width_sub_le a b
  | mul => exact (width_mul_le a b).trans (Nat.le_succ _)
  | div => exact (width_div_le a b).trans (Nat.le_succ _)
  | pow =>
    have hbits := bits_le_of_power? (hpow rfl)
    rw [if_pos rfl]
    exact ((width_le_bits _).trans hbits).trans (Nat.le_add_left ..)

/-- The exact value of a tree stays within the budget of the tree. -/
theorem width_le_bitBudget (h : e.exactValue? = some v) : width v ≤ e.bitBudget := by
  induction e generalizing v with
  | num n =>
    cases h
    rw [bitBudget_num, width, Rat.num_intCast, Rat.den_intCast, Nat.size_one, Nat.max_comm]
  | unary o x ih =>
    obtain ⟨a, ha, rfl⟩ : ∃ a, x.exactValue? = some a ∧ -a = v := by
      simpa only [exactValue?, Option.bind_eq_bind, Option.bind_eq_some_iff, Option.pure_def,
        Option.some.injEq] using h
    rw [width_neg, bitBudget_unary]
    exact ih ha
  | binary o l r ihl ihr =>
    cases ho : o.isUnary with
    | true =>
      -- between two operands the sign has no value
      rw [Operator.eq_neg_of_isUnary ho] at h
      cases hl : l.exactValue? <;> cases hr : r.exactValue? <;> simp [exactValue?, hl, hr] at h
    | false =>
      obtain ⟨a, b, ha, hb, hyields, hadmitted⟩ := (exactValue?_binary_eq_some_iff ho).1 h
      have hpow : o = .pow → power? a b = some v := by
        rintro rfl
        exact power?_eq_some_iff.2 ⟨hyields, hadmitted rfl⟩
      have hv := width_le_of_yields hyields hpow
      have hl := ihl ha
      have hr := ihr hb
      rw [bitBudget_binary]
      omega

/-- **Exact values are no longer than their trees.** The numerator and the denominator of the exact
value of a tree have each at most as many bits as the literals together, plus one for each operator
between two operands, plus 65536 for each power. A power that is computed at all has no more than
65536 bits, whatever its operands. -/
theorem exactValue?_bits :
    (∀ (e : Expr) (v : Rat), e.exactValue? = some v →
      let budget := (e.literals.map fun n => max 1 n.natAbs.size).sum +
        e.binaryOperators.length + 65536 * e.binaryOperators.count .pow
      v.num.natAbs.size ≤ budget ∧ v.den.size ≤ budget) ∧
    ∀ a b p : Rat, power? a b = some p → p.num.natAbs.size + p.den.size ≤ 65536 :=
  ⟨fun _ _ h => Nat.max_le.1 (width_le_bitBudget h), fun _ _ _ h => bits_le_of_power? h⟩

/-- `(3 / 2) ^ -3 + 1 / 3` is `17 / 27`, of five bits over five. Its literals have nine bits, and
four operators join them, one of which is a power. -/
theorem exactValue?_bits_sum :
    let cube : Expr := binary .pow (binary .div (num 3) (num 2)) (num (-3))
    let e : Expr := binary .add cube (binary .div (num 1) (num 3))
    e.exactValue? = some (17 / 27) ∧ power? (3 / 2) (-3) = some (8 / 27) ∧
      ((17 / 27 : Rat).num.natAbs.size ≤ 9 + 4 + 65536 * 1 ∧
        (17 / 27 : Rat).den.size ≤ 9 + 4 + 65536 * 1) ∧
      (8 / 27 : Rat).num.natAbs.size + (8 / 27 : Rat).den.size ≤ 65536 := by
  intro cube e
  have hvalue : e.exactValue? = some (17 / 27) := by decide +kernel
  have hpower : power? (3 / 2) (-3) = some (8 / 27) := by decide +kernel
  exact ⟨hvalue, hpower, exactValue?_bits.1 e _ hvalue, exactValue?_bits.2 _ _ _ hpower⟩

end Expr

end TreeCalculator
