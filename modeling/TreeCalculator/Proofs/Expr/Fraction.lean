import Mathlib.Data.Rat.Lemmas
import TreeCalculator.Limit
import TreeCalculator.Proofs.Entry.Spacing
import TreeCalculator.Proofs.Expr.Reentry

/-!
# Reading a rational number again

The exact value of a result is shown as an integer or as a fraction in lowest terms. That text is
the infix form of a tree without its spaces: the literal, or the quotient of two literals
(`Expr.ofRat`, `Expr.withoutSpaces_infixForm_ofRat`). So what is known of infix forms tells how it
is read. A negative fraction is read with a sign before its numerator, which changes its tree and
not its value, and an integer is refused as an entry because it is a number alone.
-/

namespace TreeCalculator.Expr

variable {limit : Nat}

/-- The tree of a rational number: a literal if it is an integer, otherwise a quotient of two. -/
def ofRat (r : Rat) : Expr :=
  if r.den = 1 then num r.num else binary .div (num r.num) (num r.den)

theorem wellTyped_ofRat (r : Rat) : (ofRat r).WellTyped := by
  unfold ofRat
  split
  · trivial
  · exact ⟨rfl, trivial, trivial⟩

/-- The exact value of the tree is the number. -/
theorem exactValue?_ofRat (r : Rat) : (ofRat r).exactValue? = some r := by
  unfold ofRat
  split
  · next h => rw [exactValue?, (Rat.den_eq_one_iff r).1 h]
  · have hden : ((r.den : Int) : Rat) ≠ 0 := by exact_mod_cast r.den_ne_zero
    show quotient? r.num (r.den : Int) = some r
    rw [quotient?, if_neg hden, Int.cast_natCast, Rat.num_div_den]

/-- The number is written as its tree is, but for the spaces around the division. -/
theorem withoutSpaces_infixForm_ofRat (r : Rat) :
    (ofRat r).infixForm.withoutSpaces = Text.ofRat r := by
  unfold ofRat Text.ofRat
  split
  · exact Text.withoutSpaces_ofInt r.num
  · show Text.withoutSpaces (Text.ofInt r.num ++ ' ' :: '/' :: ' ' :: Text.ofInt r.den) = _
    rw [Text.withoutSpaces_append, Text.withoutSpaces_cons_space,
      Text.withoutSpaces_cons (by decide), Text.withoutSpaces_cons_space,
      Text.withoutSpaces_ofInt, Text.withoutSpaces_ofInt]
    rfl

/-- A literal is read with a sign at most. -/
theorem height_explicitSigns_num (n : Int) : (num n).explicitSigns.height ≤ 2 := by
  cases n with
  | ofNat m => simp [explicitSigns]
  | negSucc m => simp [explicitSigns]

/-- A rational number is read as a tree of three levels at most. -/
theorem height_explicitSigns_ofRat (r : Rat) : (ofRat r).explicitSigns.height ≤ 3 := by
  have hnum := height_explicitSigns_num r.num
  unfold ofRat
  split
  · exact Nat.le_succ_of_le hnum
  · rw [explicitSigns, height_binary]
    exact Nat.succ_le_succ (Nat.max_le.2 ⟨hnum, height_explicitSigns_num r.den⟩)

/-- The tree that is read from the text of a rational number. -/
theorem ofTokens_scan_ofRat (r : Rat) (hlimit : 3 ≤ limit) :
    Expr.ofTokens limit (Token.scan (Text.ofRat r)) = .ok (some (ofRat r).explicitSigns) := by
  rw [← withoutSpaces_infixForm_ofRat, Token.scan_withoutSpaces,
    ofTokens_scan_of_writes (writes_infixForm (wellTyped_ofRat r)),
    if_pos (Nat.le_trans (height_explicitSigns_ofRat r) hlimit)]

/-- A fraction has its sign before the numerator alone. -/
example : Expr.ofTokens 3 (Token.scan (Text.ofRat (-3 / 4))) =
    .ok (some (binary .div (unary .neg (num 3)) (num 4))) := by cbv

/-- As an entry, a rational number breaks no rule but that against a number alone. -/
theorem fault?_ofRat (r : Rat) :
    Entry.fault? (Text.ofRat r) = if r.den = 1 then some .bareNumber else none := by
  split
  · next h =>
    have hinteger : Text.ofRat r = (num r.num).infixForm := if_pos h
    rw [hinteger, fault?_infixForm]
    rfl
  · next h =>
    have hfraction : ofRat r = binary .div (num r.num) (num r.den) := if_neg h
    -- the division sign is an operator, so the spaces around it do not matter
    have hsymbol : (ofRat r).infixForm.withoutSpaces.any Operator.isSymbol = true := by
      rw [withoutSpaces_infixForm, hfraction]
      exact any_isSymbol_infixForm fun m => nofun
    rw [← withoutSpaces_infixForm_ofRat, Entry.fault?_withoutSpaces (by simp [hsymbol]),
      fault?_infixForm, hfraction]
    rfl

/-- **The exact value can be entered again.** The text of a rational number is read, under the
standard limit, as a tree whose exact value is that number. As an entry it is accepted exactly if
the number is no integer; an integer is refused as a number alone. -/
theorem exactValue?_ofTokens_scan_ofRat (r : Rat) :
    (∃ t, Expr.ofTokens HeightLimit.standard (Token.scan (Text.ofRat r)) = .ok (some t) ∧
      t.exactValue? = some r) ∧
    (Entry.fault? (Text.ofRat r) = none ↔ ¬ ∃ n : Int, r = n) ∧
    (Entry.fault? (Text.ofRat r) = some .bareNumber ↔ ∃ n : Int, r = n) := by
  have hinteger : (∃ n : Int, r = n) ↔ r.den = 1 := by
    rw [Rat.den_eq_one_iff]
    constructor
    · rintro ⟨n, rfl⟩
      rw [Rat.num_intCast]
    · intro h
      exact ⟨r.num, h.symm⟩
  refine ⟨⟨(ofRat r).explicitSigns, ofTokens_scan_ofRat r (by decide), ?_⟩, ?_⟩
  · rw [exactValue?_explicitSigns, exactValue?_ofRat]
  · rw [hinteger, fault?_ofRat]
    split
    · next h => simp [h]
    · next h => simp [h]

end TreeCalculator.Expr
