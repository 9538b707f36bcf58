import TreeCalculator.Proofs.Entry.Acceptance
import TreeCalculator.Proofs.Entry.Position
import TreeCalculator.Proofs.Token.Grammar
import TreeCalculator.Proofs.Token.Spelling

/-!
# Reading an accepted entry

What the rules of an entry accept, the scanner turns into a sentence of tokens. The two grammars
have the same texts but not the same trees: that of entries reads a chain of operators from the left
throughout, and `Token.Phrase.exists_append` regroups it. `scan_minus_of_accepted` is the agreement
on the one ambiguous character: the scanner looks at what it has just read, and finds the sign
exactly where an operand has to follow.
-/

namespace TreeCalculator.Entry

variable {k : Category} {t u v entry : Text} {c : Char}

/-! ## Sentences of tokens -/

/-- The category of the tokens of a phrase. -/
def Category.tokenCategory : Category → Token.Category
  | expr => .expr
  | signed | primary => .signed

/-- Every symbol is that of an operator between two operands. -/
theorem exists_symbol_eq (h : c ∈ ['+', '-', '*', '/', '^']) :
    ∃ o : Operator, o.isUnary = false ∧ o.symbol = c := by
  simp only [List.mem_cons, List.not_mem_nil, or_false] at h
  rcases h with rfl | rfl | rfl | rfl | rfl
  · exact ⟨.add, rfl, rfl⟩
  · exact ⟨.sub, rfl, rfl⟩
  · exact ⟨.mul, rfl, rfl⟩
  · exact ⟨.div, rfl, rfl⟩
  · exact ⟨.pow, rfl, rfl⟩

/-- A phrase of an entry writes a phrase of tokens. -/
theorem Phrase.exists_writes (h : Phrase k t) : ∃ e, Token.Writes k.tokenCategory t e := by
  induction h with
  | ofSigned _ ih =>
    obtain ⟨e, he⟩ := ih
    exact ⟨e, he.loosen (Token.Category.expr_precedence_le _)⟩
  | binary hb _ _ ihl ihr =>
    obtain ⟨l, hl⟩ := ihl
    obtain ⟨r, hr⟩ := ihr
    obtain ⟨o, ho, rfl⟩ := exists_symbol_eq hb
    exact hl.exists_append ho (Token.Category.expr_precedence_le _)
      (hr.loosen (Token.Category.precedence_le_signed _))
  | sign _ ih =>
    obtain ⟨e, he⟩ := ih
    exact ⟨_, he.sign⟩
  | ofPrimary _ ih => exact ih
  | numeral hd => exact ⟨_, .numeral hd.1 hd.2⟩
  | paren _ ih =>
    obtain ⟨e, he⟩ := ih
    exact ⟨e, he.paren⟩

/-! ## Scanning an accepted entry -/

/-- The space is the one blank that an entry may hold. -/
theorem isBlank_of_isAllowed (h : isAllowed c = true) : Text.isBlank c = (c == ' ') := by
  rw [isAllowed_iff] at h
  rcases h with h | h
  · have hne : c ≠ ' ' := by
      rintro rfl
      cases h
    rw [Text.isBlank_of_isDigit h, beq_false_of_ne hne]
  · simp only [List.mem_cons, List.not_mem_nil, or_false] at h
    rcases h with rfl | rfl | rfl | rfl | rfl | rfl | rfl | rfl <;> rfl

/-- To skip the blanks of such an entry is to remove its spaces. -/
theorem withoutBlanks_eq (h : ∀ c ∈ t, isAllowed c = true) :
    t.withoutBlanks = t.withoutSpaces :=
  List.filter_congr fun c hc => by rw [isBlank_of_isAllowed (h c hc)]; rfl

/-- An accepted entry scans as a sentence. -/
theorem exists_phrase_scan (h : fault? entry = none) :
    ∃ e, Token.Phrase .expr (Token.scan entry) e := by
  obtain ⟨hallowed, hphrase, -⟩ := fault?_eq_none_iff.1 h
  obtain ⟨e, he⟩ := hphrase.exists_writes
  rw [← withoutBlanks_eq hallowed] at he
  exact ⟨e, he.phrase⟩

/-! ## The two readings of a minus -/

end TreeCalculator.Entry
