import Mathlib.Algebra.Order.Ring.Cast
import Mathlib.Algebra.Order.Ring.Rat
import Mathlib.Data.Nat.Size
import Mathlib.Data.Rat.Lemmas
import Mathlib.Tactic.NormNum
import TreeCalculator.Expr.Exact

/-!
# The exact value is the value in the rationals

`Expr.Denotes e v` says that the tree has the value `v` in the field of rationals, where every
operator is defined that has a rational result. `Operator.Yields` is the part of it about one
operator between two operands: a quotient by zero, a power whose exponent is no integer and a
negative power of zero have no result.

`Expr.exactValue?` finds this value and no other, unless a power on the way is too large for its
guards (`Expr.PowersAdmitted`). The guards look at the operands of every power, also where the
result would be small.
-/

namespace TreeCalculator

/-! ## Values in the rationals -/

/-- `o.Yields a b v`: between the operands `a` and `b`, the operator has the result `v`. -/
inductive Operator.Yields : Operator → Rat → Rat → Rat → Prop where
  | add (a b : Rat) : Yields .add a b (a + b)
  | sub (a b : Rat) : Yields .sub a b (a - b)
  | mul (a b : Rat) : Yields .mul a b (a * b)
  | div (a : Rat) {b : Rat} : b ≠ 0 → Yields .div a b (a / b)
  | pow {a : Rat} {n : Int} : ¬ (a = 0 ∧ n < 0) → Yields .pow a n (a ^ n)

/-- `Denotes e v`: the tree has the value `v`. -/
inductive Expr.Denotes : Expr → Rat → Prop where
  | num (n : Int) : Denotes (.num n) n
  | neg {x : Expr} {a : Rat} : Denotes x a → Denotes (.unary .neg x) (-a)
  | binary {o : Operator} {l r : Expr} {a b v : Rat} : Denotes l a → Denotes r b →
      o.Yields a b v → Denotes (.binary o l r) v

/-- Between two operands an operator has at most one result. -/
theorem Operator.Yields.unique {o : Operator} {a b v w : Rat} (hv : o.Yields a b v)
    (hw : o.Yields a b w) : v = w := by
  cases hv with
  | add | sub | mul => cases hw; rfl
  | div a hb => cases hw; rfl
  | @pow a n hn =>
    generalize hm : (n : Rat) = b at hw
    cases hw with
    | pow => rw [Rat.intCast_inj.1 hm]

namespace Expr

variable {e x l r : Expr} {o : Operator} {a b v w : Rat}

/-- A tree has at most one value. -/
theorem Denotes.unique (hv : Denotes e v) (hw : Denotes e w) : v = w := by
  induction hv generalizing w with
  | num n => cases hw; rfl
  | neg _ ih =>
    cases hw with
    | neg hx => rw [ih hx]
  | binary _ _ hv ihl ihr =>
    cases hw with
    | binary hl hr hw =>
      rw [← ihl hl, ← ihr hr] at hw
      exact hv.unique hw

/-! ## The guards of a power -/

/-- The trees of which the tree is made, itself among them. -/
def subterms : Expr → List Expr
  | num n => [num n]
  | unary o x => unary o x :: x.subterms
  | binary o l r => binary o l r :: (l.subterms ++ r.subterms)

/-- The power of `a` to `b` passes the guards: they bound the exponent, and the exponent times the
number of bits in the fraction `a`. -/
def PowerAdmitted (a b : Rat) : Prop :=
  |b| ≤ 1024 ∧ ((a.num.natAbs.size + a.den.size : Nat) : Rat) * |b| ≤ 65536

/-- Every power in the tree passes the guards. -/
def PowersAdmitted (e : Expr) : Prop :=
  ∀ l r a b, binary .pow l r ∈ e.subterms → Denotes l a → Denotes r b → PowerAdmitted a b

theorem powersAdmitted_num (n : Int) : (num n).PowersAdmitted := by
  intro l r a b hmem
  simp [subterms] at hmem

theorem powersAdmitted_unary : (unary o x).PowersAdmitted ↔ x.PowersAdmitted := by
  simp [PowersAdmitted, subterms]

theorem powersAdmitted_binary : (binary o l r).PowersAdmitted ↔
    (o = .pow → ∀ a b, Denotes l a → Denotes r b → PowerAdmitted a b) ∧
      l.PowersAdmitted ∧ r.PowersAdmitted := by
  constructor
  · intro h
    refine ⟨?_, fun l' r' a b hmem => ?_, fun l' r' a b hmem => ?_⟩
    · rintro rfl a b
      exact h l r a b List.mem_cons_self
    · exact h l' r' a b (List.mem_cons_of_mem _ (List.mem_append_left _ hmem))
    · exact h l' r' a b (List.mem_cons_of_mem _ (List.mem_append_right _ hmem))
  · rintro ⟨hroot, hl, hr⟩ l' r' a b hmem
    rcases List.mem_cons.1 hmem with hself | hmem
    · cases hself
      exact hroot rfl a b
    · rcases List.mem_append.1 hmem with hmem | hmem
      · exact hl l' r' a b hmem
      · exact hr l' r' a b hmem

/-- The number of binary digits is the size of the number. -/
theorem bitLength_eq_size (n : Nat) : bitLength n = n.size := by
  rw [bitLength]
  split
  · next h => rw [h, Nat.size_zero]
  · next h =>
    apply Nat.le_antisymm
    · exact Nat.lt_size.2 (Nat.log2_self_le h)
    · exact Nat.size_le.2 Nat.lt_log2_self

/-- The guards as the code checks them, for an integer exponent. -/
theorem powerFits_eq_true_iff {n : Int} : powerFits a n = true ↔ PowerAdmitted a n := by
  have habs : |(n : Rat)| = (n.natAbs : Rat) := by
    rw [← Int.cast_abs, Int.abs_eq_natAbs, Int.cast_natCast]
  rw [powerFits, PowerAdmitted, habs, bitLength_eq_size, bitLength_eq_size, Bool.and_eq_true,
    decide_eq_true_eq, decide_eq_true_eq]
  norm_cast

/-! ## Soundness and completeness -/

/-- The power with an integer exponent, which may be negative. -/
theorem power?_intCast_eq_some_iff {n : Int} : power? a n = some v ↔
    ¬ (a = 0 ∧ n < 0) ∧ a ^ n = v ∧ PowerAdmitted a n := by
  rw [power?, Rat.num_intCast, Rat.den_intCast]
  by_cases hfits : powerFits a n = true
  · have hadmitted : PowerAdmitted a n := powerFits_eq_true_iff.1 hfits
    simp only [hfits, hadmitted, decide_true, Bool.and_self, if_true, and_true]
    -- `a ^ n` is a power of `a` for a natural number, and the inverse of one for a negative number
    cases n with
    | ofNat m => simp
    | negSucc m => simp
  · have hadmitted : ¬ PowerAdmitted a n := fun h => hfits (powerFits_eq_true_iff.2 h)
    simp [hfits, hadmitted]

/-- The power is computed exactly if it is defined and passes the guards. -/
theorem power?_eq_some_iff :
    power? a b = some v ↔ Operator.Yields .pow a b v ∧ PowerAdmitted a b := by
  constructor
  · intro h
    have hden : b.den = 1 := by
      by_contra hden
      simp [power?, hden] at h
    obtain ⟨n, rfl⟩ : ∃ n : Int, b = n := ⟨b.num, ((Rat.den_eq_one_iff b).1 hden).symm⟩
    obtain ⟨hdefined, rfl, hadmitted⟩ := power?_intCast_eq_some_iff.1 h
    exact ⟨.pow hdefined, hadmitted⟩
  · rintro ⟨hyields, hadmitted⟩
    cases hyields with
    | pow hdefined => exact power?_intCast_eq_some_iff.2 ⟨hdefined, rfl, hadmitted⟩

theorem quotient?_eq_some_iff : quotient? a b = some v ↔ Operator.Yields .div a b v := by
  rw [quotient?]
  split
  · next h =>
    refine iff_of_false (by simp) fun hyields => ?_
    cases hyields with
    | div _ hb => exact hb h
  · next h =>
    constructor
    · rintro ⟨⟩
      exact .div a h
    · intro hyields
      cases hyields with
      | div => rfl

/-- The value of an operator between two operands: both have values, and the operator computes one
from them. -/
theorem exactValue?_binary_eq_some_iff (ho : o.isUnary = false) :
    (binary o l r).exactValue? = some v ↔ ∃ a b, l.exactValue? = some a ∧ r.exactValue? = some b ∧
      o.Yields a b v ∧ (o = .pow → PowerAdmitted a b) := by
  rw [exactValue?]
  simp only [Option.bind_eq_bind, Option.bind_eq_some_iff, ← exists_and_left]
  refine exists₂_congr fun a b => and_congr_right fun _ => and_congr_right fun _ => ?_
  cases o with
  | add | sub | mul =>
    constructor
    · rintro ⟨⟩
      exact ⟨by constructor, nofun⟩
    · rintro ⟨hyields, -⟩
      cases hyields
      rfl
  | div => exact quotient?_eq_some_iff.trans (and_iff_left nofun).symm
  | pow => exact power?_eq_some_iff.trans (and_congr_right fun _ => by simp)
  | neg => cases ho

/-- A tree has an exact value exactly if it denotes it and all its powers pass the guards. -/
theorem exactValue?_eq_some_iff (h : e.WellTyped) :
    e.exactValue? = some v ↔ Denotes e v ∧ PowersAdmitted e := by
  induction e generalizing v with
  | num n =>
    rw [exactValue?, and_iff_left (powersAdmitted_num n)]
    constructor
    · rintro ⟨⟩
      exact .num n
    · rintro ⟨⟩
      rfl
  | unary o x ih =>
    obtain ⟨ho, hx⟩ := h
    obtain rfl := Operator.eq_neg_of_isUnary ho
    have hvalue : (unary .neg x).exactValue? = some v ↔ ∃ a, x.exactValue? = some a ∧ -a = v := by
      simp only [exactValue?, Option.bind_eq_bind, Option.bind_eq_some_iff, Option.pure_def,
        Option.some.injEq]
    rw [hvalue, powersAdmitted_unary]
    constructor
    · rintro ⟨a, ha, rfl⟩
      obtain ⟨hdenotes, hadmitted⟩ := (ih hx).1 ha
      exact ⟨.neg hdenotes, hadmitted⟩
    · rintro ⟨hdenotes, hadmitted⟩
      cases hdenotes with
      | neg ha => exact ⟨_, (ih hx).2 ⟨ha, hadmitted⟩, rfl⟩
  | binary o l r ihl ihr =>
    obtain ⟨ho, hl, hr⟩ := h
    rw [exactValue?_binary_eq_some_iff ho, powersAdmitted_binary]
    constructor
    · rintro ⟨a, b, ha, hb, hyields, hroot⟩
      obtain ⟨hda, hadmittedl⟩ := (ihl hl).1 ha
      obtain ⟨hdb, hadmittedr⟩ := (ihr hr).1 hb
      refine ⟨.binary hda hdb hyields, fun hpow a' b' ha' hb' => ?_, hadmittedl, hadmittedr⟩
      -- the operands have no other values than those that were found
      rw [← hda.unique ha', ← hdb.unique hb']
      exact hroot hpow
    · rintro ⟨hdenotes, hroot, hadmittedl, hadmittedr⟩
      cases hdenotes with
      | binary hda hdb hyields =>
        exact ⟨_, _, (ihl hl).2 ⟨hda, hadmittedl⟩, (ihr hr).2 ⟨hdb, hadmittedr⟩, hyields,
          fun hpow => hroot hpow _ _ hda hdb⟩

/-- **Exact evaluation is sound, and complete up to its guards.** The exact value of a well-typed
tree is its value in the rationals, and it is absent exactly if the tree has no value there or one
of its powers does not pass the guards. -/
theorem exactValue?_iff_denotes (h : e.WellTyped) :
    (∀ v, e.exactValue? = some v ↔ Denotes e v ∧
      ∀ l r a b, binary .pow l r ∈ e.subterms → Denotes l a → Denotes r b →
        |b| ≤ 1024 ∧ ((a.num.natAbs.size + a.den.size : Nat) : Rat) * |b| ≤ 65536) ∧
    (e.exactValue? = none ↔ (∀ v, ¬ Denotes e v) ∨
      ∃ l r a b, binary .pow l r ∈ e.subterms ∧ Denotes l a ∧ Denotes r b ∧
        (1024 < |b| ∨ 65536 < ((a.num.natAbs.size + a.den.size : Nat) : Rat) * |b|)) := by
  refine ⟨fun v => exactValue?_eq_some_iff h, ?_⟩
  have hfails : (∃ l r a b, binary .pow l r ∈ e.subterms ∧ Denotes l a ∧ Denotes r b ∧
      (1024 < |b| ∨ 65536 < ((a.num.natAbs.size + a.den.size : Nat) : Rat) * |b|)) ↔
      ¬ PowersAdmitted e := by
    simp only [PowersAdmitted, PowerAdmitted, not_forall, not_and_or, not_le, exists_prop]
  rw [hfails, Option.eq_none_iff_forall_ne_some]
  constructor
  · intro hnone
    by_contra hcontra
    push Not at hcontra
    obtain ⟨⟨v, hv⟩, hadmitted⟩ := hcontra
    exact hnone v ((exactValue?_eq_some_iff h).2 ⟨hv, hadmitted⟩)
  · rintro (hundefined | hrefused) v hv
    · exact hundefined v ((exactValue?_eq_some_iff h).1 hv).1
    · exact hrefused ((exactValue?_eq_some_iff h).1 hv).2

/-- `(-2 / 3) ^ -3` is `-27 / 8`. The power `2 ^ 1025` has a value, but its exponent is too large.
-/
theorem exactValue?_iff_denotes_powers :
    let cube : Expr := binary .pow (binary .div (num (-2)) (num 3)) (num (-3))
    let large : Expr := binary .pow (num 2) (num 1025)
    cube.WellTyped ∧ Denotes cube (-27 / 8) ∧ cube.exactValue? = some (-27 / 8) ∧
      large.WellTyped ∧ Denotes large ((2 : Int) ^ (1025 : Int)) ∧ large.exactValue? = none := by
  intro cube large
  have hcube : cube.WellTyped := ⟨rfl, ⟨rfl, trivial, trivial⟩, trivial⟩
  have hlarge : large.WellTyped := ⟨rfl, trivial, trivial⟩
  have hbase : Denotes (binary .div (num (-2)) (num 3)) ((-2 : Int) / (3 : Int)) :=
    .binary (.num (-2)) (.num 3) (.div _ (by norm_num))
  have hdenotes : Denotes cube (-27 / 8) := by
    have hvalue : (((-2 : Int) / (3 : Int) : Rat)) ^ (-3 : Int) = -27 / 8 := by norm_num
    rw [← hvalue]
    exact .binary hbase (.num (-3)) (.pow (by norm_num))
  have hadmitted : cube.PowersAdmitted := by
    refine powersAdmitted_binary.2 ⟨fun _ a b ha hb => ?_, powersAdmitted_binary.2
      ⟨nofun, powersAdmitted_num _, powersAdmitted_num _⟩, powersAdmitted_num _⟩
    rw [ha.unique hbase, hb.unique (.num (-3))]
    exact powerFits_eq_true_iff.1 (by decide +kernel)
  have hpower : Denotes large ((2 : Int) ^ (1025 : Int)) :=
    .binary (.num 2) (.num 1025) (.pow (by norm_num))
  have hnone : large.exactValue? = none := (exactValue?_iff_denotes hlarge).2.2 <| .inr
    ⟨num 2, num 1025, _, _, List.mem_cons_self, .num 2, .num 1025, .inl (by norm_num)⟩
  exact ⟨hcube, hdenotes, ((exactValue?_iff_denotes hcube).1 _).2 ⟨hdenotes, hadmitted⟩,
    hlarge, hpower, hnone⟩

end Expr

end TreeCalculator
