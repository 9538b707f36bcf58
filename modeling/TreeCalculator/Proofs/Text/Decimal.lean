import Mathlib.Logic.Function.Basic
import TreeCalculator.Text

/-!
# Decimal texts

The decimal text of a number determines the number, and it is recognized by its characters: digits,
after a `-` if the number is negative. The character in the middle is a digit in any case.
`Text.toInt?` reads the number back.
-/

namespace TreeCalculator.Text

variable {c : Char} {m n : Int} {k : Nat}

theorem ofNat_ne_nil (n : Nat) : ofNat n ≠ [] := Nat.toDigits_ne_nil

theorem isDigit_of_mem_ofNat (hc : c ∈ ofNat k) : c.isDigit = true :=
  Nat.isDigit_of_mem_toDigits (by decide) (by decide) hc

theorem ofNat_injective : Function.Injective ofNat :=
  Function.LeftInverse.injective (g := fun t => Nat.ofDigitChars 10 t 0)
    fun _ => Nat.ofDigitChars_ten_toDigits

/-- A `-` does not begin the digits of a natural number. -/
theorem ofNat_ne_minus_cons (k : Nat) (t : Text) : ofNat k ≠ '-' :: t := by
  intro h
  have hminus : '-' ∈ ofNat k := h ▸ List.mem_cons_self
  exact absurd (isDigit_of_mem_ofNat hminus) (by decide)

theorem ofInt_injective : Function.Injective ofInt := by
  intro m n h
  match m, n, h with
  | .ofNat _, .ofNat _, h => rw [ofNat_injective h]
  | .ofNat j, .negSucc _, h => exact absurd h (ofNat_ne_minus_cons j _)
  | .negSucc _, .ofNat k, h => exact absurd h.symm (ofNat_ne_minus_cons k _)
  | .negSucc _, .negSucc _, h => rw [Nat.succ.inj (ofNat_injective (List.cons.inj h).2)]

theorem ofInt_ne_nil (n : Int) : ofInt n ≠ [] := by
  cases n with
  | ofNat k => exact ofNat_ne_nil k
  | negSucc k => exact List.cons_ne_nil _ _

/-- A number consists of digits, but for its sign. -/
theorem eq_minus_or_isDigit_of_mem_ofInt (hc : c ∈ ofInt n) : c = '-' ∨ c.isDigit = true := by
  cases n with
  | ofNat k => exact .inr (isDigit_of_mem_ofNat hc)
  | negSucc k => exact (List.mem_cons.1 hc).imp_right isDigit_of_mem_ofNat

/-- No character of a number is a space. -/
theorem ne_space_of_mem_ofInt (hc : c ∈ ofInt n) : c ≠ ' ' := by
  rintro rfl
  rcases eq_minus_or_isDigit_of_mem_ofInt hc with h | h
  · exact absurd h (by decide)
  · exact absurd h (by decide)

/-- So a number has no spaces to remove. -/
theorem withoutSpaces_ofInt (n : Int) : (ofInt n).withoutSpaces = ofInt n :=
  List.filter_eq_self.2 fun _ hc => bne_iff_ne.2 (ne_space_of_mem_ofInt hc)

/-- The character in the middle of a number is a digit: a sign stands in front of at least one. -/
theorem isDigit_middle_ofInt (n : Int) :
    ∃ c, (ofInt n)[(ofInt n).length / 2]? = some c ∧ c.isDigit = true := by
  have hdigit (k i : Nat) (hi : i < (ofNat k).length) :
      ∃ c, (ofNat k)[i]? = some c ∧ c.isDigit = true :=
    ⟨_, List.getElem?_eq_getElem hi, isDigit_of_mem_ofNat (List.getElem_mem hi)⟩
  cases n with
  | ofNat k =>
    have hpos := List.length_pos_iff.2 (ofNat_ne_nil k)
    exact hdigit k _ (Nat.div_lt_self hpos (Nat.lt_succ_self 1))
  | negSucc k =>
    have hpos := List.length_pos_iff.2 (ofNat_ne_nil (k + 1))
    obtain ⟨i, hi⟩ : ∃ i, (ofInt (.negSucc k)).length / 2 = i + 1 := by
      refine Nat.exists_eq_add_one.2 ?_
      rw [ofInt, List.length_cons]
      omega
    have hlt : i < (ofNat (k + 1)).length := by
      rw [ofInt, List.length_cons] at hi
      omega
    rw [hi, ofInt, List.getElem?_cons_succ]
    exact hdigit (k + 1) i hlt

/-! ## Reading a number -/

/-- The natural number that a text of digits stands for. -/
def toNat? (t : Text) : Option Nat :=
  if t ≠ [] ∧ t.all Char.isDigit then some (Nat.ofDigitChars 10 t 0) else none

/-- The integer that a text stands for: digits, after a `-` if it is negative. -/
def toInt? : Text → Option Int
  | '-' :: t => (toNat? t).map fun n => -n
  | t => (toNat? t).map fun n => n

theorem toNat?_ofNat (n : Nat) : toNat? (ofNat n) = some n := by
  have hdigits : (ofNat n).all Char.isDigit = true :=
    List.all_eq_true.2 fun _ hc => isDigit_of_mem_ofNat hc
  rw [toNat?, if_pos ⟨ofNat_ne_nil n, hdigits⟩, ofNat, Nat.ofDigitChars_ten_toDigits]

/-- The decimal text of an integer is read as that integer. -/
theorem toInt?_ofInt (n : Int) : toInt? (ofInt n) = some n := by
  cases n with
  | ofNat k =>
    rw [ofInt, toInt?, toNat?_ofNat]
    · rfl
    · exact fun t h => ofNat_ne_minus_cons k t h
  | negSucc k =>
    rw [ofInt, toInt?, toNat?_ofNat]
    rfl

end TreeCalculator.Text
