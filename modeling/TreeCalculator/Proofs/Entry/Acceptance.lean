import TreeCalculator.Proofs.Entry.Shape

/-!
# What is accepted

An entry is accepted exactly if it is a sentence of the grammar of entries, apart from two refusals
that are no matter of grammar: a number alone, and two numbers with nothing but spaces or
parentheses between them (`fault?_eq_none_iff`). The rules of `parenthesisFault?` and
`operatorFault?` look at two neighbours at a time; on characters that an entry may hold, each pair
of neighbours that they refuse is one that `mayFollow` refuses, and the other way round.
-/

namespace TreeCalculator.Entry

variable {t entry : Text} {a b : Char}

/-! ## Numbers in an entry -/

/-- The maximal runs of digits, from left to right. -/
def digitWords (t : Text) : List Text :=
  (t.splitOnP fun c => !c.isDigit).filter fun w => !w.isEmpty

/-- The runs of digits that begin after the character `a`: after a digit, the first piece of the
text belongs to the run of that digit. -/
theorem countP_neighbours_cons (a : Char) (t : Text) :
    (Text.neighbours (a :: t)).countP (fun (a, b) => !a.isDigit && b.isDigit) =
      if a.isDigit then ((t.splitOnP fun c => !c.isDigit).tail.filter fun w => !w.isEmpty).length
      else (digitWords t).length := by
  induction t generalizing a with
  | nil => simp [Text.neighbours, digitWords]
  | cons b t ih =>
    have hcons : Text.neighbours (a :: b :: t) = (a, b) :: Text.neighbours (b :: t) := rfl
    obtain ⟨w, ws, hw⟩ := List.exists_cons_of_ne_nil
      (List.splitOnP_ne_nil (fun c : Char => !c.isDigit) t)
    rw [hcons, List.countP_cons, ih b]
    cases ha : a.isDigit <;> cases hb : b.isDigit <;>
      simp [digitWords, List.splitOnP_cons_eq_if_modifyHead, ha, hb, hw]

/-- Counting the digits that no digit precedes is counting the maximal runs of digits. -/
theorem digitRuns_eq (t : Text) : digitRuns t = (digitWords t).length :=
  countP_neighbours_cons ' ' t

theorem isUnsigned_iff : isUnsigned t = true ↔ IsNumeral t := by
  simp [isUnsigned, IsNumeral]

/-- A signed number has a sign or none. -/
theorem isSigned_iff : isSigned t = true ↔ ∃ d, IsNumeral d ∧ (t = d ∨ t = '-' :: d) := by
  unfold isSigned
  split
  · next u =>
    rw [isUnsigned_iff]
    constructor
    · intro hu
      exact ⟨u, hu, .inr rfl⟩
    · rintro ⟨d, hd, rfl | hd'⟩
      · exact absurd (hd.2 '-' List.mem_cons_self) (by decide)
      · injection hd' with _ hd'
        exact hd' ▸ hd
  · next hne =>
    rw [isUnsigned_iff]
    constructor
    · intro ht
      exact ⟨_, ht, .inl rfl⟩
    · rintro ⟨d, hd, rfl | rfl⟩
      · exact hd
      · exact absurd rfl (hne d)

/-- A number alone may have a sign, and both may stand in parentheses. -/
theorem isBareNumber_iff : isBareNumber t = true ↔ ∃ d, IsNumeral d ∧
    (t = d ∨ t = '-' :: d ∨ t = Text.parenthesize d ∨ t = Text.parenthesize ('-' :: d)) := by
  unfold isBareNumber
  split
  · next u =>
    simp only [Bool.and_eq_true, beq_iff_eq, isSigned_iff]
    constructor
    · rintro ⟨hlast, d, hd, hu⟩
      have hu' : u = u.dropLast ++ [')'] := (List.dropLast_append_getLast? ')' hlast).symm
      refine ⟨d, hd, .inr (.inr ?_)⟩
      rcases hu with hu | hu <;> rw [hu', hu]
      · exact .inl rfl
      · exact .inr rfl
    · rintro ⟨d, hd, rfl | hu | hu | hu⟩
      · exact absurd (hd.2 '(' List.mem_cons_self) (by decide)
      · cases hu
      · cases hu
        rw [List.getLast?_concat, List.dropLast_concat]
        exact ⟨rfl, d, hd, .inl rfl⟩
      · cases hu
        rw [List.getLast?_concat, List.dropLast_concat]
        exact ⟨rfl, d, hd, .inr rfl⟩
  · next hne =>
    rw [isSigned_iff]
    constructor
    · rintro ⟨d, hd, ht | ht⟩
      · exact ⟨d, hd, .inl ht⟩
      · exact ⟨d, hd, .inr (.inl ht)⟩
    · rintro ⟨d, hd, ht | ht | ht | ht⟩
      · exact ⟨d, hd, .inl ht⟩
      · exact ⟨d, hd, .inr ht⟩
      · exact absurd ht (hne _)
      · exact absurd ht (hne _)

/-- A sign and its operand in parentheses are a number alone exactly if the operand is a numeral. -/
theorem isBareNumber_parenthesize_sign :
    isBareNumber (Text.parenthesize ('-' :: t)) = true ↔ IsNumeral t := by
  rw [Text.parenthesize, isBareNumber, List.getLast?_concat, List.dropLast_concat, isSigned]
  simp [isUnsigned_iff]

/-- A number alone has no operator but a sign, and that at its very front. -/
theorem eq_of_isBareNumber {l r : Text} (hb : Operator.isSymbol b = true)
    (h : isBareNumber (l ++ b :: r) = true) : l = [] ∨ l = ['('] := by
  obtain ⟨d, hd, h⟩ := isBareNumber_iff.1 h
  have hdigit : b ∉ d := fun hmem => by
    have hb' := hd.2 b hmem
    simp [isDigit_of_isSymbol hb] at hb'
  have hclosed : b ∉ d ++ [')'] := by simp [hdigit, (ne_paren_of_isSymbol hb).2]
  rcases h with h | h | h | h
  · exact absurd (by simp [← h]) hdigit
  · rcases List.append_eq_cons_iff.1 h with ⟨hl, -⟩ | ⟨l', -, hd'⟩
    · exact .inl hl
    · exact absurd (by simp [hd']) hdigit
  · rcases List.append_eq_cons_iff.1 h with ⟨hl, -⟩ | ⟨l', -, hd'⟩
    · exact .inl hl
    · exact absurd (by simp [hd']) hclosed
  · rcases List.append_eq_cons_iff.1 h with ⟨hl, -⟩ | ⟨l', rfl, hsign⟩
    · exact .inl hl
    · rcases List.append_eq_cons_iff.1 hsign.symm with
        ⟨rfl, -⟩ | ⟨l'', -, (hd' : d ++ [')'] = l'' ++ b :: r)⟩
      · exact .inr rfl
      · exact absurd (by simp [hd']) hclosed

/-- A numeral is one run of digits. -/
theorem digitRuns_numeral {d : Text} (h : IsNumeral d) : digitRuns d = 1 := by
  have hsplit : d.splitOnP (fun c => !c.isDigit) = [d] :=
    List.splitOnP_eq_singleton fun c hc => by simp [h.2 c hc]
  rw [digitRuns_eq, digitWords, hsplit]
  simp [h.1]

/-! ## The rules as conditions on neighbours -/

/-- Neighbours are characters of the text. -/
theorem mem_of_mem_neighbours {p : Char × Char} (h : p ∈ Text.neighbours t) :
    p.1 ∈ t ∧ p.2 ∈ t :=
  ⟨(List.of_mem_zip h).1, List.mem_of_mem_tail (List.of_mem_zip h).2⟩

/-- A property of all pairs of neighbours. -/
theorem forall_mem_neighbours {R : Char → Char → Prop} {t : Text} :
    (∀ p ∈ Text.neighbours t, R p.1 p.2) ↔ t.IsChain R := by
  induction t with
  | nil => simp [Text.neighbours]
  | cons a t ih =>
    cases t with
    | nil => simp [Text.neighbours]
    | cons b t =>
      have hcons : Text.neighbours (a :: b :: t) = (a, b) :: Text.neighbours (b :: t) := rfl
      rw [hcons, List.forall_mem_cons, ih, List.isChain_cons_cons]

theorem hasPair_eq_false_iff {p : Char → Char → Bool} :
    hasPair p t = false ↔ t.IsChain (p · · = false) := by
  rw [← forall_mem_neighbours, hasPair, List.any_eq_false]
  simp

/-- A rule that is checked first is kept if no rule is broken. -/
theorem ite_eq_none_iff {c : Bool} {e : EntryError} {rest : Option EntryError} :
    (if c = true then some e else rest) = none ↔ c = false ∧ rest = none := by
  cases c <;> simp

theorem any_eq_false_iff {o : Option Char} {p : Char → Bool} :
    o.any p = false ↔ ∀ a ∈ o, p a = false := by
  cases o <;> simp

/-- No rule on parentheses is broken. -/
theorem parenthesisFault?_eq_none_iff : parenthesisFault? t = none ↔
    t.IsChain (fun a b => (a == '(' && b == ')') = false) ∧ levelAfter 0 t = some 0 ∧
      t.IsChain (fun a b => juxtapositionFault? a b = none) := by
  rw [parenthesisFault?, ite_eq_none_iff, ite_eq_none_iff, hasPair_eq_false_iff,
    List.findSome?_eq_none_iff,
    ← forall_mem_neighbours (R := fun a b => juxtapositionFault? a b = none)]
  simp [isBalanced]

/-- No rule on operators is broken. -/
theorem operatorFault?_eq_none_iff : operatorFault? t = none ↔
    t.IsChain (fun a b => (Operator.isSymbol a && isBinarySymbol b) = false) ∧
      (∀ a ∈ t.getLast?, Operator.isSymbol a = false) ∧
      (∀ a ∈ t.head?, isBinarySymbol a = false) ∧
      t.IsChain (fun a b => (Operator.isSymbol a && b == ')') = false) ∧
      t.IsChain (fun a b => (a == '(' && isBinarySymbol b) = false) := by
  simp only [operatorFault?, ite_eq_none_iff, hasPair_eq_false_iff, any_eq_false_iff, and_true]

/-- The characters of an entry, apart from the spaces. -/
def IsVisible (c : Char) : Prop :=
  c.isDigit = true ∨ Operator.isSymbol c = true ∨ c = '(' ∨ c = ')'

/-- A visible character is of one of four kinds, and of no other. -/
theorem IsVisible.kinds (h : IsVisible a) :
    (a.isDigit = true ∧ Operator.isSymbol a = false ∧ a ≠ '(' ∧ a ≠ ')') ∨
    (a.isDigit = false ∧ Operator.isSymbol a = true ∧ a ≠ '(' ∧ a ≠ ')') ∨ a = '(' ∨ a = ')' := by
  rcases h with h | h | h | h
  · exact .inl ⟨h, isSymbol_of_isDigit h, ne_paren_of_isDigit h⟩
  · exact .inr (.inl ⟨isDigit_of_isSymbol h, h, ne_paren_of_isSymbol h⟩)
  · exact .inr (.inr (.inl h))
  · exact .inr (.inr (.inr h))

/-- Two characters may stand next to each other exactly if no rule on neighbours refuses them. -/
theorem mayFollow_iff (ha : IsVisible a) (hb : IsVisible b) : mayFollow a b = true ↔
    (a == '(' && b == ')') = false ∧ juxtapositionFault? a b = none ∧
      (Operator.isSymbol a && isBinarySymbol b) = false ∧
      (Operator.isSymbol a && b == ')') = false ∧ (a == '(' && isBinarySymbol b) = false := by
  have hsym : Operator.isSymbol '(' = false ∧ Operator.isSymbol ')' = false := by decide
  have hdigit : Char.isDigit '(' = false ∧ Char.isDigit ')' = false := by decide
  rcases ha.kinds with ⟨ha, ha', hpa⟩ | ⟨ha, ha', hpa⟩ | rfl | rfl <;>
    rcases hb.kinds with ⟨hb, hb', hpb⟩ | ⟨hb, hb', hpb⟩ | rfl | rfl <;>
      simp [mayFollow, endsOperand, startsOperand, juxtapositionFault?, isBinarySymbol, *]

/-- A sentence starts with what starts an operand. -/
theorem startsOperand_iff (ha : IsVisible a) :
    startsOperand a = true ↔ isBinarySymbol a = false ∧ a ≠ ')' := by
  have hsym : Operator.isSymbol '(' = false := by decide
  rcases ha.kinds with ⟨ha, ha', hpa⟩ | ⟨ha, ha', hpa⟩ | rfl | rfl <;>
    simp [startsOperand, isBinarySymbol, *]

/-- A sentence ends with what ends an operand. -/
theorem endsOperand_iff (ha : IsVisible a) :
    endsOperand a = true ↔ Operator.isSymbol a = false ∧ a ≠ '(' := by
  have hsym : Operator.isSymbol ')' = false := by decide
  rcases ha.kinds with ⟨ha, ha', hpa⟩ | ⟨ha, ha', hpa⟩ | rfl | rfl <;> simp [endsOperand, *]

/-- A balanced text does not begin with a closing parenthesis. -/
theorem head_ne_of_levelAfter (h : levelAfter 0 t = some 0) : ∀ a ∈ t.head?, a ≠ ')' := by
  rintro a ha rfl
  obtain ⟨u, rfl⟩ := List.head?_eq_some_iff.1 ha
  cases h

/-- A balanced text does not end with an open parenthesis. -/
theorem last_ne_of_levelAfter (h : levelAfter 0 t = some 0) : ∀ a ∈ t.getLast?, a ≠ '(' := by
  rintro a ha rfl
  obtain ⟨u, rfl⟩ := List.getLast?_eq_some_iff.1 ha
  rw [levelAfter_append] at h
  cases hu : levelAfter 0 u with
  | none => simp [hu] at h
  | some n => simp [hu, levelAfter] at h

/-- A text of visible characters has the right neighbours exactly if no rule on neighbours refuses
any of them. -/
theorem isChain_mayFollow_iff (hv : ∀ c ∈ t, IsVisible c) : t.IsChain (mayFollow · · = true) ↔
    t.IsChain (fun a b => (a == '(' && b == ')') = false) ∧
      t.IsChain (fun a b => juxtapositionFault? a b = none) ∧
      t.IsChain (fun a b => (Operator.isSymbol a && isBinarySymbol b) = false) ∧
      t.IsChain (fun a b => (Operator.isSymbol a && b == ')') = false) ∧
      t.IsChain (fun a b => (a == '(' && isBinarySymbol b) = false) := by
  have hpair : ∀ p ∈ Text.neighbours t, IsVisible p.1 ∧ IsVisible p.2 := by
    intro p hp
    have hmem := mem_of_mem_neighbours hp
    exact ⟨hv _ hmem.1, hv _ hmem.2⟩
  simp only [← forall_mem_neighbours]
  rw [forall₂_congr fun p hp => mayFollow_iff (hpair p hp).1 (hpair p hp).2]
  simp only [imp_and, forall_and]

/-- A text of visible characters breaks no rule on parentheses or operators exactly if it is a
sentence. -/
theorem rules_eq_none_iff (hv : ∀ c ∈ t, IsVisible c) (hne : t ≠ []) :
    (parenthesisFault? t <|> operatorFault? t) = none ↔ Phrase .expr t := by
  have hor : (parenthesisFault? t <|> operatorFault? t) = none ↔
      parenthesisFault? t = none ∧ operatorFault? t = none := by
    cases parenthesisFault? t <;> simp
  rw [hor, parenthesisFault?_eq_none_iff, operatorFault?_eq_none_iff, phrase_iff,
    isChain_parenthesize_iff hne, isChain_mayFollow_iff hv]
  constructor
  · rintro ⟨⟨hempty, hlevel, hjuxt⟩, hconsec, hlast, hhead, hclose, hopen⟩
    refine ⟨⟨?_, ⟨hempty, hjuxt, hconsec, hclose, hopen⟩, ?_⟩, hlevel⟩
    · intro a ha
      exact (startsOperand_iff (hv a (List.mem_of_mem_head? ha))).2
        ⟨hhead a ha, head_ne_of_levelAfter hlevel a ha⟩
    · intro a ha
      exact (endsOperand_iff (hv a (List.mem_of_mem_getLast? ha))).2
        ⟨hlast a ha, last_ne_of_levelAfter hlevel a ha⟩
  · rintro ⟨⟨hhead, ⟨hempty, hjuxt, hconsec, hclose, hopen⟩, hlast⟩, hlevel⟩
    refine ⟨⟨hempty, hlevel, hjuxt⟩, hconsec, ?_, ?_, hclose, hopen⟩
    · intro a ha
      exact ((endsOperand_iff (hv a (List.mem_of_mem_getLast? ha))).1 (hlast a ha)).1
    · intro a ha
      exact ((startsOperand_iff (hv a (List.mem_of_mem_head? ha))).1 (hhead a ha)).1

/-! ## Acceptance -/

/-- The characters that an entry may hold. -/
theorem isAllowed_iff : isAllowed a = true ↔
    a.isDigit = true ∨ a ∈ ['+', '-', '*', '/', '^', '(', ')', ' '] := by
  simp [isAllowed, isSymbol_iff, or_assoc]

/-- The characters that an entry may hold are visible but for the space. -/
theorem isVisible_of_mem (h : ∀ c ∈ entry, isAllowed c = true) :
    ∀ c ∈ entry.withoutSpaces, IsVisible c := by
  intro c hc
  obtain ⟨hc, hne⟩ := List.mem_filter.1 hc
  have hc := h c hc
  simp only [isAllowed, Bool.or_eq_true, beq_iff_eq] at hc
  rcases hc with (((hc | hc) | hc) | hc) | hc
  · exact .inl hc
  · exact .inr (.inl hc)
  · exact .inr (.inr (.inl hc))
  · exact .inr (.inr (.inr hc))
  · exact absurd hc (by simpa using hne)

/-- What is accepted, in terms of the parts that the rules read. -/
theorem fault?_eq_none_iff : fault? entry = none ↔
    (∀ c ∈ entry, isAllowed c = true) ∧ Phrase .expr entry.withoutSpaces ∧
      isBareNumber entry.withoutSpaces = false ∧
      (!entry.withoutSpaces.any Operator.isSymbol && decide (2 ≤ digitRuns entry)) = false := by
  rw [fault?, ite_eq_none_iff, ite_eq_none_iff, ite_eq_none_iff]
  cases hfind : entry.find? fun c => !isAllowed c with
  | some c =>
    have hmem := List.mem_of_find?_eq_some hfind
    have hc := List.find?_some hfind
    constructor
    · rintro ⟨-, -, -, h⟩
      cases h
    · rintro ⟨hallowed, -⟩
      simp [hallowed c hmem] at hc
  | none =>
    have hallowed : ∀ c ∈ entry, isAllowed c = true := by
      simpa using List.find?_eq_none.1 hfind
    have hvisible := isVisible_of_mem hallowed
    constructor
    · rintro ⟨hne, hmissing, hbare, hrules⟩
      have hne : entry.withoutSpaces ≠ [] := by simpa using hne
      exact ⟨hallowed, (rules_eq_none_iff hvisible hne).1 hrules, hbare, hmissing⟩
    · rintro ⟨-, hphrase, hbare, hmissing⟩
      have hne := hphrase.shape.ne_nil
      exact ⟨by simpa using hne, hmissing, hbare, (rules_eq_none_iff hvisible hne).2 hphrase⟩

/-- A number alone is reported as one, unless a second number stands beside it. -/
theorem fault?_of_isBareNumber (h : isBareNumber entry.withoutSpaces = true)
    (hruns : entry.withoutSpaces.any Operator.isSymbol = true ∨ digitRuns entry < 2) :
    fault? entry = some .bareNumber := by
  have hne : entry.withoutSpaces.isEmpty = false := by
    cases ht : entry.withoutSpaces with
    | nil => simp [ht, isBareNumber, isSigned, isUnsigned] at h
    | cons c t => rfl
  have hmissing : (!entry.withoutSpaces.any Operator.isSymbol && decide (2 ≤ digitRuns entry)) =
      false := by
    rcases hruns with hany | hlt
    · simp [hany]
    · simp [hlt]
  simp [fault?, hne, hmissing, h]

/-- **What is accepted is a grammar.** An entry is accepted exactly if it holds allowed characters
only, is a sentence once its spaces are removed, is not a number alone, and does not put two
numbers next to each other without any operator. -/
theorem fault?_eq_none_iff_sentence (entry : Text) : fault? entry = none ↔
    (∀ c ∈ entry, c.isDigit = true ∨ c ∈ ['+', '-', '*', '/', '^', '(', ')', ' ']) ∧
    Phrase .expr entry.withoutSpaces ∧
    (∀ d, IsNumeral d → entry.withoutSpaces ≠ d ∧ entry.withoutSpaces ≠ '-' :: d ∧
      entry.withoutSpaces ≠ Text.parenthesize d ∧
      entry.withoutSpaces ≠ Text.parenthesize ('-' :: d)) ∧
    ¬ ((∀ c ∈ entry.withoutSpaces, c ∉ ['+', '-', '*', '/', '^']) ∧
      2 ≤ (digitWords entry).length) := by
  have hbare : isBareNumber entry.withoutSpaces = false ↔ ∀ d, IsNumeral d →
      entry.withoutSpaces ≠ d ∧ entry.withoutSpaces ≠ '-' :: d ∧
      entry.withoutSpaces ≠ Text.parenthesize d ∧
      entry.withoutSpaces ≠ Text.parenthesize ('-' :: d) := by
    rw [← Bool.not_eq_true, isBareNumber_iff]
    push Not
    rfl
  have hmissing : (!entry.withoutSpaces.any Operator.isSymbol &&
      decide (2 ≤ digitRuns entry)) = false ↔
      ¬ ((∀ c ∈ entry.withoutSpaces, c ∉ ['+', '-', '*', '/', '^']) ∧
        2 ≤ (digitWords entry).length) := by
    have hany : entry.withoutSpaces.any Operator.isSymbol = false ↔
        ∀ c ∈ entry.withoutSpaces, c ∉ ['+', '-', '*', '/', '^'] := by
      simp only [List.any_eq_false, isSymbol_iff]
    rw [digitRuns_eq, ← hany]
    cases entry.withoutSpaces.any Operator.isSymbol <;> simp
  rw [fault?_eq_none_iff, hbare, hmissing]
  simp only [isAllowed_iff]

end TreeCalculator.Entry
