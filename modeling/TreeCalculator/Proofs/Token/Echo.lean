import Mathlib.Data.List.Chain
import TreeCalculator.Proofs.Text.Decimal
import TreeCalculator.Proofs.Token.Spelling

/-!
# The echo of a token list is read again

The echo writes numbers anew, without the zeros in front of them, and puts other spaces between the
tokens than the text had that they were read from. Neither matters to the scanner, but for two
dangers: two numbers with nothing but a space between them would be read as one, and a `-` is read
by what stands before it. Tokens that the scanner has made are in neither danger. They stand as
`MayFollow` says (`isChain_scanAfter`), and tokens that do are read again from their spellings, one
after the other (`scanAfter_spelling`).
-/

namespace TreeCalculator

namespace Text

/-- A filter that drops the spaces between words works on each word alone. -/
theorem filter_unwords {p : Char → Bool} (hp : p ' ' = false) (ws : List Text) :
    (unwords ws).filter p = ws.flatMap (List.filter p) := by
  induction ws with
  | nil => rfl
  | cons w ws ih =>
    cases ws with
    | nil => simp [unwords]
    | cons v ws =>
      rw [unwords] at ih
      rw [unwords, List.intercalate_cons_cons, List.filter_append, List.filter_append, ih]
      simp [hp]

end Text

namespace Token

variable {before : Before} {a b : Token} {c : Char} {t : Text} {ts : List Token}

/-! ## Neighbours -/

/-- Whether an operand may end with the token. -/
def endsOperand : Token → Bool
  | num _ | rparen => true
  | plus | minus | sign | star | slash | caret | lparen => false

theorem endsOperand_op (o : Operator) : (op o).endsOperand = false := by cases o <;> rfl

/-- `b` may stand right after `a` among tokens that the scanner makes: no number follows a number,
and a `-` is the subtraction where an operand has ended and the sign where none has. -/
def MayFollow (a b : Token) : Prop :=
  match b with
  | num _ => ∀ n, a ≠ num n
  | sign => a.endsOperand = false
  | minus => a.endsOperand = true
  | plus | star | slash | caret | lparen | rparen => True

/-- What stands before the next character, if `a` is the last token and has ended there. -/
def Before.ofToken : Token → Before
  | num n => digits n.toNat
  | plus | minus | sign | star | slash | caret | lparen => opening
  | rparen => other

theorem Before.ofToken_op (o : Operator) : ofToken (op o) = opening := by cases o <;> rfl

/-- An operand has to follow after a token that ends none. -/
theorem Before.ofToken_eq_opening_iff : ofToken a = opening ↔ a.endsOperand = false := by
  cases a with
  | num n => exact iff_of_false nofun nofun
  | op o => exact iff_of_true (ofToken_op o) (endsOperand_op o)
  | lparen => exact iff_of_true rfl rfl
  | rparen => exact iff_of_false nofun nofun

/-- `a` may be the last token made, with this before the next character. A number is not made before
it ends, so while its digits are read the last token is the one before it. -/
def Before.Admits : Before → Token → Prop
  | opening, a => a.endsOperand = false
  | digits _, a => ∀ n, a ≠ num n
  | other, a => a = rparen

/-- The last token made is no number: the next digit would belong to it. -/
theorem Before.Admits.ne_num (h : before.Admits a) (n : Int) : a ≠ num n := by
  rintro rfl
  cases before with
  | opening | other => cases h
  | digits m => exact h n rfl

/-! ## What the scanner makes -/

/-- The characters, other than digits, that tokens are made of. -/
def symbols : List Char := ['+', '-', '*', '/', '^', '(', ')']

/-- A symbol makes a token, which is the last one then. It may follow every token that ends an
operand, if an operand ends there, and every other token, if none does. -/
theorem exists_ofChar? (before : Before) (hc : c ∈ symbols) :
    ∃ b, ofChar? before c = some b ∧ (Before.after c).Admits b ∧
      ∀ a, (a.endsOperand = false ↔ before = .opening) → MayFollow a b := by
  simp only [symbols, List.mem_cons, List.not_mem_nil, or_false] at hc
  rcases hc with rfl | rfl | rfl | rfl | rfl | rfl | rfl
  · exact ⟨plus, rfl, rfl, fun _ _ => trivial⟩
  · by_cases hb : before = .opening
    · refine ⟨sign, ?_, rfl, fun a ha => ha.2 hb⟩
      rw [ofChar?, if_pos hb]
    · refine ⟨minus, ?_, rfl, fun a ha => ?_⟩
      · rw [ofChar?, if_neg hb]
      · exact Bool.of_not_eq_false (mt ha.1 hb)
  · exact ⟨star, rfl, rfl, fun _ _ => trivial⟩
  · exact ⟨slash, rfl, rfl, fun _ _ => trivial⟩
  · exact ⟨caret, rfl, rfl, fun _ _ => trivial⟩
  · exact ⟨lparen, rfl, rfl, fun _ _ => trivial⟩
  · exact ⟨rparen, rfl, rfl, fun _ _ => trivial⟩

/-- The tokens of a text of digits and symbols stand as they may, after each other and after the
last token before the text. -/
theorem isChain_scanAfter (ht : ∀ c ∈ t, c.isDigit = true ∨ c ∈ symbols) (ha : before.Admits a) :
    (a :: scanAfter before t).IsChain MayFollow := by
  -- by induction on the text: each symbol is the last token for what follows
  induction t generalizing before a with
  | nil =>
    cases before with
    | digits n => exact List.isChain_pair.2 ha.ne_num
    | opening | other => exact List.isChain_singleton a
  | cons c t ih =>
    rw [List.forall_mem_cons] at ht
    by_cases hc : c.isDigit = true
    · rw [scanAfter_digit hc]
      exact ih ht.2 ha.ne_num
    · obtain ⟨b, hb, hlast, hfollow⟩ := exists_ofChar? before (ht.1.resolve_left hc)
      have hrest := ih ht.2 hlast
      rw [scanAfter_cons (Bool.eq_false_iff.2 hc), hb]
      cases before with
      | digits n =>
        -- the number that ends here stands between the last token and the new one
        refine .cons_cons ha.ne_num (.cons_cons (hfollow (num n) ?_) hrest)
        exact iff_of_false (by simp [endsOperand]) (by simp)
      | opening => exact .cons_cons (hfollow a (iff_of_true ha rfl)) hrest
      | other =>
        obtain rfl : a = rparen := ha
        exact .cons_cons (hfollow rparen (iff_of_false (by simp [endsOperand]) (by simp))) hrest

/-! ## Reading spellings -/

/-- How a token is written where its place tells a sign from a subtraction. -/
def spelling (b : Token) : Text := if b = sign then ['-'] else b.text

theorem spelling_op (o : Operator) : (op o).spelling = [o.symbol] := by cases o <;> rfl

/-- A token that is no number is read from its one character, if it may follow the last token. -/
theorem exists_spelling (hb : ∀ n, b ≠ num n) (h : MayFollow a b) :
    ∃ c, spelling b = [c] ∧ c.isDigit = false ∧ ofChar? (.ofToken a) c = some b ∧
      Before.after c = .ofToken b ∧ (Before.ofToken b).number? = none := by
  cases b with
  | num n => exact absurd rfl (hb n)
  | lparen => exact ⟨'(', rfl, rfl, rfl, rfl, rfl⟩
  | rparen => exact ⟨')', rfl, rfl, rfl, rfl, rfl⟩
  | op o =>
    refine ⟨o.symbol, spelling_op o, o.isDigit_symbol, ?_, ?_, ?_⟩
    · cases o with
      | neg =>
        rw [Operator.symbol, ofChar?_minus, if_pos (Before.ofToken_eq_opening_iff.2 h)]
      | sub =>
        have hends : a.endsOperand = true := h
        rw [Operator.symbol, ofChar?_minus,
          if_neg (by simp [Before.ofToken_eq_opening_iff, hends])]
      | add | mul | div | pow => rfl
    · rw [Before.after_symbol, Before.ofToken_op]
    · rw [Before.ofToken_op]
      rfl

/-- Tokens that stand as they may are read from their spellings, after the token before them. -/
theorem scanAfter_spelling (h : (a :: ts).IsChain MayFollow) (hn : ∀ n, num n ∈ ts → 0 ≤ n) :
    scanAfter (.ofToken a) (ts.flatMap spelling) = (Before.ofToken a).number?.toList ++ ts := by
  induction ts generalizing a with
  | nil => simp [scanAfter]
  | cons b ts ih =>
    obtain ⟨hab, hrest⟩ := List.isChain_cons_cons.1 h
    have ih := ih hrest fun n hmem => hn n (List.mem_cons_of_mem _ hmem)
    rw [List.flatMap_cons]
    cases b with
    | num n =>
      obtain ⟨m, rfl⟩ := Int.eq_ofNat_of_zero_le (hn n List.mem_cons_self)
      have hnone : (Before.ofToken a).number? = none := by
        cases a with
        | num k => exact absurd rfl (hab k)
        | op o => rw [Before.ofToken_op]; rfl
        | lparen | rparen => rfl
      have hdigits : (Before.ofToken a).afterText (Text.ofNat m) = .ofToken (num m) := by
        rw [Before.afterText_numeral hnone (Text.ofNat_ne_nil m) fun c => Text.isDigit_of_mem_ofNat,
          Text.ofNat, Nat.ofDigitChars_ten_toDigits]
        rfl
      show scanAfter _ (Text.ofNat m ++ _) = _
      rw [scanAfter_digits_append _ fun c => Text.isDigit_of_mem_ofNat, hdigits, ih, hnone]
      rfl
    | op _ | lparen | rparen =>
      obtain ⟨c, hspelling, hdigit, hread, hafter, hnone⟩ := exists_spelling (by simp) hab
      rw [hspelling, List.singleton_append, scanAfter_cons hdigit, hread, hafter, ih, hnone]
      simp

/-! ## The echo -/

/-- Without its blanks and the `u` of the signs, the echo consists of the tokens' spellings. -/
theorem withoutBlanks_echo (ts : List Token) :
    Text.withoutBlanks ((echo ts).filter (· != 'u')) = ts.flatMap spelling := by
  have hnumber (n : Int) : ∀ c ∈ Text.ofInt n, (!Text.isBlank c && c != 'u') = true := by
    intro c hc
    rcases Text.eq_minus_or_isDigit_of_mem_ofInt hc with rfl | hdigit
    · decide
    · have hne : c ≠ 'u' := by
        rintro rfl
        cases hdigit
      simp [Text.isBlank_of_isDigit hdigit, hne]
  rw [Text.withoutBlanks, List.filter_filter, echo, Text.filter_unwords (by decide),
    List.flatMap_map]
  refine List.flatMap_congr fun b _ => ?_
  cases b with
  | num n => exact List.filter_eq_self.2 (hnumber n)
  | op o => cases o <;> decide
  | lparen | rparen => decide

/-- **The echo can be read back.** The tokens of a text of digits, symbols and blanks, whether or
not it is a sentence, are the tokens of their echo, once the signs are written without their `u`. -/
theorem scan_echo (h : ∀ c ∈ t, c.isDigit = true ∨
    c ∈ ['+', '-', '*', '/', '^', '(', ')'] ∨ Text.isBlank c = true) :
    scan ((echo (scan t)).filter (· != 'u')) = scan t := by
  have hvisible : ∀ c ∈ t.withoutBlanks, c.isDigit = true ∨ c ∈ symbols := by
    intro c hc
    obtain ⟨hc, hblank⟩ := List.mem_filter.1 hc
    rcases h c hc with hdigit | hsymbol | hc
    · exact .inl hdigit
    · exact .inr hsymbol
    · simp [hc] at hblank
  -- the text is read as if it stood after an open parenthesis
  have hchain : (lparen :: scan t).IsChain MayFollow := isChain_scanAfter hvisible rfl
  rw [scan_eq, withoutBlanks_echo]
  exact scanAfter_spelling hchain fun n hn => num_nonneg_of_mem_scanAfter hn

/-- `-07⇥3)--` is no sentence. Its echo is `u- 73 ) - u-`, and `- 73 ) - -` has the same tokens. -/
theorem scan_echo_minuses :
    let t : Text := ['-', '0', '7', '\t', '3', ')', '-', '-']
    scan t = [op .neg, num 73, rparen, op .sub, op .neg] ∧
      scan ['-', ' ', '7', '3', ' ', ')', ' ', '-', ' ', '-'] = scan t := by
  intro t
  have hkinds : ∀ c ∈ t, c.isDigit = true ∨ c ∈ ['+', '-', '*', '/', '^', '(', ')'] ∨
      Text.isBlank c = true := by simp [t, Text.isBlank, Text.blankRanges]
  have hscan : scan t = [op .neg, num 73, rparen, op .sub, op .neg] := by decide
  have hecho : (echo (scan t)).filter (· != 'u') =
      ['-', ' ', '7', '3', ' ', ')', ' ', '-', ' ', '-'] := by
    rw [hscan]
    decide
  refine ⟨hscan, ?_⟩
  rw [← hecho]
  exact scan_echo hkinds

end Token

end TreeCalculator
