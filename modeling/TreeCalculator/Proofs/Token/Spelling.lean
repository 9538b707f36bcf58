import TreeCalculator.Proofs.Token.Grammar
import TreeCalculator.Token.Scan

/-!
# Texts that spell tokens

The scanner reads one character at a time and remembers what stands before it. `afterText` is what
it remembers after a text, and `scanAfter_append_cons` cuts a scan at any character that is no
digit: the tokens of the two sides are independent, but for what the left side leaves behind.

`Spells t ts` says that the text `t` of an operand scans as `ts`. An operand leaves behind that
none has to follow, so a `-` after it is a subtraction. `Writes k t e` adds that the tokens are a
phrase with the tree `e`; its lemmas put operands together with operators and parentheses.
-/

namespace TreeCalculator

/-! ## Blanks -/

namespace Text

/-- A digit is no blank. -/
theorem isBlank_of_isDigit {c : Char} (h : c.isDigit = true) : isBlank c = false := by
  have hdigit : 48 ≤ c.toNat ∧ c.toNat ≤ 57 := by
    simpa [Char.isDigit, UInt32.le_iff_toNat_le] using h
  rw [isBlank, List.any_eq_false]
  intro range hrange
  simp only [blankRanges, List.mem_cons, List.not_mem_nil, or_false] at hrange
  rcases hrange with rfl | rfl | rfl | rfl | rfl | rfl | rfl | rfl | rfl | rfl <;> simp <;> omega

/-- The symbol of an operator is no blank. -/
theorem isBlank_symbol (o : Operator) : isBlank o.symbol = false := by cases o <;> rfl

/-- The text without its blanks. -/
def withoutBlanks (t : Text) : Text := t.filter fun c => !isBlank c

theorem withoutBlanks_append (t u : Text) :
    withoutBlanks (t ++ u) = withoutBlanks t ++ withoutBlanks u := List.filter_append ..

theorem withoutBlanks_cons {c : Char} (hc : isBlank c = false) (t : Text) :
    withoutBlanks (c :: t) = c :: withoutBlanks t := List.filter_cons_of_pos (by simp [hc])

theorem withoutBlanks_cons_blank {c : Char} (hc : isBlank c = true) (t : Text) :
    withoutBlanks (c :: t) = withoutBlanks t := List.filter_cons_of_neg (by simp [hc])

theorem withoutBlanks_parenthesize (t : Text) :
    withoutBlanks (parenthesize t) = parenthesize (withoutBlanks t) := by
  rw [parenthesize, withoutBlanks_cons (by decide), withoutBlanks_append]
  rfl

/-- A text without blanks stays as it is. -/
theorem withoutBlanks_eq_self {t : Text} (h : ∀ c ∈ t, isBlank c = false) :
    withoutBlanks t = t := List.filter_eq_self.2 fun c hc => by simp [h c hc]

/-- With the blanks go the spaces. -/
theorem withoutBlanks_withoutSpaces (t : Text) :
    t.withoutSpaces.withoutBlanks = t.withoutBlanks := by
  rw [withoutBlanks, withoutBlanks, withoutSpaces, List.filter_filter]
  refine List.filter_congr fun c _ => ?_
  by_cases hc : c = ' '
  · subst hc
    decide
  · simp [hc]

end Text

namespace Token

variable {before : Before} {c : Char} {t u v l r d : Text} {ts ls rs : List Token} {o : Operator}

namespace Before

/-- What stands before the character after the text. -/
def afterText : Before → Text → Before
  | before, [] => before
  | before, c :: t => afterText (if c.isDigit then before.extend c else after c) t

theorem afterText_append (t u : Text) :
    before.afterText (t ++ u) = (before.afterText t).afterText u := by
  induction t generalizing before with
  | nil => rfl
  | cons c t ih => rw [List.cons_append, afterText, ih, afterText]

/-- After the digits of a number and more digits, there are all of them. -/
theorem afterText_digits (n : Nat) (hd : ∀ c ∈ d, c.isDigit = true) :
    (digits n).afterText d = digits (Nat.ofDigitChars 10 d n) := by
  induction d generalizing n with
  | nil => rfl
  | cons c d ih =>
    rw [List.forall_mem_cons] at hd
    rw [afterText, if_pos hd.1, Nat.ofDigitChars_cons]
    exact ih _ hd.2

/-- After a numeral, there is the number it writes. -/
theorem afterText_numeral (hb : before.number? = none) (h : d ≠ [])
    (hd : ∀ c ∈ d, c.isDigit = true) :
    before.afterText d = digits (Nat.ofDigitChars 10 d 0) := by
  obtain ⟨c, d, rfl⟩ := List.exists_cons_of_ne_nil h
  rw [List.forall_mem_cons] at hd
  have hfirst : before.extend c = digits (10 * 0 + (c.toNat - '0'.toNat)) := by
    cases before with
    | digits n => cases hb
    | opening | other => rfl
  rw [afterText, if_pos hd.1, Nat.ofDigitChars_cons, hfirst]
  exact afterText_digits _ hd.2

/-- After an operator, an operand has to follow. -/
theorem after_symbol (o : Operator) : after o.symbol = opening := by cases o <;> rfl

end Before

/-! ## Cutting a scan -/

theorem scanAfter_digit (hc : c.isDigit = true) :
    scanAfter before (c :: t) = scanAfter (before.extend c) t := by
  rw [scanAfter, if_pos hc]

/-- Digits are remembered, and no token is made before they end. -/
theorem scanAfter_digits_append (before : Before) (hd : ∀ c ∈ d, c.isDigit = true) (t : Text) :
    scanAfter before (d ++ t) = scanAfter (before.afterText d) t := by
  induction d generalizing before with
  | nil => rfl
  | cons c d ih =>
    rw [List.forall_mem_cons] at hd
    rw [List.cons_append, scanAfter_digit hd.1, ih _ hd.2, Before.afterText, if_pos hd.1]

theorem scanAfter_cons (hc : c.isDigit = false) : scanAfter before (c :: t) =
    before.number?.toList ++ (ofChar? before c).toList ++ scanAfter (.after c) t := by
  rw [scanAfter, if_neg (by simp [hc])]

/-- A character that is no digit ends what stands before it. -/
theorem scanAfter_append_cons (hc : c.isDigit = false) (u v : Text) :
    scanAfter before (u ++ c :: v) = scanAfter before u ++
      ((ofChar? (before.afterText u) c).toList ++ scanAfter (.after c) v) := by
  induction u generalizing before with
  | nil => rw [List.nil_append, scanAfter_cons hc, List.append_assoc]; rfl
  | cons a u ih =>
    by_cases ha : a.isDigit = true
    · rw [List.cons_append, scanAfter_digit ha, ih, scanAfter_digit ha, Before.afterText, if_pos ha]
    · rw [List.cons_append]
      rw [Bool.not_eq_true] at ha
      rw [scanAfter_cons ha, ih, scanAfter_cons ha, Before.afterText, ha]
      simp only [List.append_assoc, Bool.false_eq_true, if_false]

/-- The tokens of a text are those of the text without its blanks. -/
theorem scan_eq (t : Text) : scan t = scanAfter .opening t.withoutBlanks := rfl

/-- The tokens of a text are those of the text without its spaces. -/
theorem scan_withoutSpaces (t : Text) : scan t.withoutSpaces = scan t := by
  rw [scan_eq, Text.withoutBlanks_withoutSpaces, scan_eq]

/-- A `-` is the sign where an operand has to follow, and the subtraction elsewhere. -/
theorem ofChar?_minus (before : Before) :
    ofChar? before '-' = some (op (if before = .opening then .neg else .sub)) := by
  rw [ofChar?]
  split <;> rfl

/-- A single character that is no digit makes no number. -/
theorem ofChar?_ne_num (before : Before) (c : Char) (n : Int) :
    ofChar? before c ≠ some (num n) := by
  unfold ofChar?
  split
  · split <;> nofun
  all_goals nofun

/-- The scanner makes no negative number: it reads digits. -/
theorem num_nonneg_of_mem_scanAfter {n : Int} (h : num n ∈ scanAfter before t) : 0 ≤ n := by
  have hnumber (before : Before) (h : num n ∈ before.number?.toList) : 0 ≤ n := by
    cases before with
    | digits m =>
      obtain rfl : n = m := by simpa [Before.number?] using h
      exact Int.natCast_nonneg m
    | opening | other => cases h
  induction t generalizing before with
  | nil => exact hnumber before h
  | cons a t ih =>
    by_cases ha : a.isDigit = true
    · rw [scanAfter_digit ha] at h
      exact ih h
    · rw [scanAfter_cons (by simpa using ha), List.mem_append, List.mem_append] at h
      rcases h with (h | h) | h
      · exact hnumber before h
      · exact absurd (Option.mem_toList.1 h) (ofChar?_ne_num before a n)
      · exact ih h

/-! ## Operands -/

/-- The text of an operand that scans as the tokens. -/
structure Spells (t : Text) (ts : List Token) : Prop where
  scanAfter_eq : scanAfter .opening t = ts
  afterText_ne : Before.opening.afterText t ≠ .opening

/-- Between two operands, a symbol is the operator with that symbol. -/
theorem ofChar?_symbol (ho : o.isUnary = false) (hb : before ≠ .opening) :
    ofChar? before o.symbol = some (.op o) := by
  cases o with
  | sub => exact (ofChar?_minus before).trans (by rw [if_neg hb])
  | neg => cases ho
  | add | mul | div | pow => rfl

/-- A text of digits is the number they write. -/
theorem Spells.numeral (h : d ≠ []) (hd : ∀ c ∈ d, c.isDigit = true) :
    Spells d [.num (Nat.ofDigitChars 10 d 0 : Nat)] := by
  have hafter : Before.opening.afterText d = .digits (Nat.ofDigitChars 10 d 0) :=
    Before.afterText_numeral rfl h hd
  refine ⟨?_, by simp [hafter]⟩
  have hscan := scanAfter_digits_append .opening hd []
  rwa [List.append_nil, hafter] at hscan

/-- A sign before an operand. -/
theorem Spells.sign (h : Spells t ts) : Spells ('-' :: t) (.op .neg :: ts) where
  scanAfter_eq := by
    rw [scanAfter_cons rfl, show Before.after '-' = .opening from rfl, h.scanAfter_eq]
    rfl
  afterText_ne := h.afterText_ne

/-- An operator between two operands. -/
theorem Spells.binary (hl : Spells l ls) (ho : o.isUnary = false) (hr : Spells r rs) :
    Spells (l ++ o.symbol :: r) (ls ++ .op o :: rs) where
  scanAfter_eq := by
    rw [scanAfter_append_cons o.isDigit_symbol, hl.scanAfter_eq, ofChar?_symbol ho hl.afterText_ne,
      Before.after_symbol, hr.scanAfter_eq]
    rfl
  afterText_ne := by
    rw [Before.afterText_append, Before.afterText, o.isDigit_symbol, if_neg (by simp),
      Before.after_symbol]
    exact hr.afterText_ne

/-- An operand in parentheses. -/
theorem Spells.paren (h : Spells t ts) :
    Spells (Text.parenthesize t) (.lparen :: (ts ++ [.rparen])) where
  scanAfter_eq := by
    rw [Text.parenthesize, scanAfter_cons rfl, show Before.after '(' = .opening from rfl,
      scanAfter_append_cons rfl, h.scanAfter_eq]
    rfl
  afterText_ne := by
    rw [Text.parenthesize, ← List.cons_append, Before.afterText_append]
    show Before.after ')' ≠ .opening
    decide

/-! ## Phrases -/

/-- The text `t` scans as a phrase of the category `k` with the tree `e`. -/
def Writes (k : Category) (t : Text) (e : Expr) : Prop := ∃ ts, Spells t ts ∧ Phrase k ts e

namespace Writes

variable {k k' : Category} {e x y : Expr}

theorem loosen (h : Writes k t e) (hk : k'.precedence ≤ k.precedence) : Writes k' t e := by
  obtain ⟨ts, hts, he⟩ := h
  exact ⟨ts, hts, he.loosen hk⟩

theorem numeral (h : d ≠ []) (hd : ∀ c ∈ d, c.isDigit = true) :
    Writes .signed d (.num (Nat.ofDigitChars 10 d 0 : Nat)) :=
  ⟨_, .numeral h hd, .num _⟩

theorem sign (h : Writes .signed t e) : Writes .signed ('-' :: t) (.unary .neg e) := by
  obtain ⟨ts, hts, he⟩ := h
  exact ⟨_, hts.sign, .sign he⟩

theorem binary (hl : Writes (Category.ofOperator o).left l x) (ho : o.isUnary = false)
    (hr : Writes (Category.ofOperator o).right r y) :
    Writes (.ofOperator o) (l ++ o.symbol :: r) (.binary o x y) := by
  obtain ⟨ls, hls, hx⟩ := hl
  obtain ⟨rs, hrs, hy⟩ := hr
  exact ⟨_, hls.binary ho hrs, .binary ho hx hy⟩

theorem paren (h : Writes .expr t e) : Writes .signed (Text.parenthesize t) e := by
  obtain ⟨ts, hts, he⟩ := h
  exact ⟨_, hts.paren, .paren he⟩

/-- A text that goes on with an operator and an operand is a phrase again, with another tree. -/
theorem exists_append (hl : Writes k l x) (ho : o.isUnary = false)
    (hk : k.precedence ≤ (Category.ofOperator o).precedence)
    (hr : Writes (Category.ofOperator o).right r y) : ∃ e, Writes k (l ++ o.symbol :: r) e := by
  obtain ⟨ls, hls, hx⟩ := hl
  obtain ⟨rs, hrs, hy⟩ := hr
  obtain ⟨e, he⟩ := hx.exists_append ho hk hy
  exact ⟨e, _, hls.binary ho hrs, he⟩

/-- So is a text with an operand and an operator before it. -/
theorem exists_prepend (hr : Writes k r y) (ho : o.isUnary = false)
    (hk : k.precedence ≤ (Category.ofOperator o).precedence)
    (hl : Writes (Category.ofOperator o).left l x) : ∃ e, Writes k (l ++ o.symbol :: r) e := by
  obtain ⟨ls, hls, hx⟩ := hl
  obtain ⟨rs, hrs, hy⟩ := hr
  obtain ⟨e, he⟩ := hy.exists_prepend ho hk hx
  exact ⟨e, _, hls.binary ho hrs, he⟩

/-- The text scans as the phrase that it writes. -/
theorem phrase (h : Writes k t.withoutBlanks e) : Phrase k (scan t) e := by
  obtain ⟨ts, hts, he⟩ := h
  rwa [scan_eq, hts.scanAfter_eq]

end Writes

end Token

end TreeCalculator
