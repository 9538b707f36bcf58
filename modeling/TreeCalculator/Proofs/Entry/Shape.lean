import Mathlib.Data.List.Chain
import TreeCalculator.Proofs.Entry.Grammar

/-!
# Sentences and their shape

A phrase is told by its edges and by its neighbours alone, but for the parentheses, which have to
be counted. `Shape` states these local conditions, and `Phrase.shape` finds them in every phrase.
`phrase_of_isChain` is the converse for whole entries: what has been read of a text with the right
neighbours is, at each character, a sequence of open groups, and in each of them an operand is due
(`Slot`) or has just been read.
-/

namespace TreeCalculator.Entry

variable {k : Category} {t l r d : Text} {a b : Char}

/-! ## The shape of a phrase -/

/-- What can be seen of a phrase at its edges and between its neighbours. -/
structure Shape (t : Text) : Prop where
  ne_nil : t ≠ []
  head : ∀ a ∈ t.head?, startsOperand a = true
  last : ∀ a ∈ t.getLast?, endsOperand a = true
  chain : t.IsChain (mayFollow · · = true)
  level : ∀ n, levelAfter n t = some n

/-- The head of a phrase stays the head, whatever follows. -/
theorem Shape.head_append (h : Shape l) (r : Text) :
    ∀ a ∈ (l ++ r).head?, startsOperand a = true := by
  rw [List.head?_append_of_ne_nil _ h.ne_nil]
  exact h.head

/-- The last character of a phrase stays the last, whatever goes before. -/
theorem Shape.last_append (h : Shape r) (l : Text) :
    ∀ a ∈ (l ++ r).getLast?, endsOperand a = true := by
  rw [List.getLast?_append_of_ne_nil _ h.ne_nil]
  exact h.last

/-- An operator or an open parenthesis may stand before a phrase. -/
theorem Shape.chain_cons (h : Shape r) (hb : ∀ a, startsOperand a = true → mayFollow b a = true) :
    (b :: r).IsChain (mayFollow · · = true) :=
  List.isChain_cons.2 ⟨fun a ha => hb a (h.head a ha), h.chain⟩

/-- Digits may follow one another. -/
theorem Shape.numeral (h : IsNumeral d) : Shape d where
  ne_nil := h.1
  head a ha := by simp [startsOperand, h.2 a (List.mem_of_mem_head? ha)]
  last a ha := by simp [endsOperand, h.2 a (List.mem_of_mem_getLast? ha)]
  chain := by
    have hp : d.Pairwise (mayFollow · · = true) :=
      List.pairwise_of_forall_mem_list fun a ha b hb => by
        simp [mayFollow, endsOperand, h.2 a ha, h.2 b hb]
    exact hp.isChain
  level n := levelAfter_of_forall_ne n fun c hc => ne_paren_of_isDigit (h.2 c hc)

/-- A sign may stand before what starts an operand. -/
theorem Shape.sign (h : Shape t) : Shape ('-' :: t) where
  ne_nil := List.cons_ne_nil _ _
  head a ha := by
    cases ha
    rfl
  last := h.last_append ['-']
  chain := h.chain_cons fun _ ha => mayFollow_of_symbol rfl ha
  level n := by rw [levelAfter_cons n t (by decide), h.level]

/-- An operator may stand between what ends an operand and what starts one. -/
theorem Shape.binary (hl : Shape l) (hb : Operator.isSymbol b = true) (hr : Shape r) :
    Shape (l ++ b :: r) where
  ne_nil := by simp
  head := hl.head_append _
  last := by
    rw [List.append_cons]
    exact hr.last_append _
  chain := by
    have hright := hr.chain_cons fun _ ha => mayFollow_of_symbol hb ha
    refine List.isChain_append.2 ⟨hl.chain, hright, fun a ha c hc => ?_⟩
    cases hc
    exact mayFollow_symbol (hl.last a ha) hb
  level n := by
    rw [levelAfter_append, hl.level]
    exact (levelAfter_cons n r (ne_paren_of_isSymbol hb)).trans (hr.level n)

/-- A phrase may stand in parentheses. -/
theorem Shape.paren (h : Shape t) : Shape (Text.parenthesize t) where
  ne_nil := List.cons_ne_nil _ _
  head a ha := by
    cases ha
    rfl
  last a ha := by
    rw [Text.parenthesize, ← List.cons_append, List.getLast?_concat] at ha
    cases ha
    rfl
  chain := by
    have hleft := h.chain_cons (b := '(') fun _ ha => ha
    have hlast := h.last_append ['(']
    rw [Text.parenthesize, ← List.cons_append]
    refine hleft.append (List.isChain_singleton _) fun a ha c hc => ?_
    cases hc
    simp [mayFollow, hlast a ha]
  level n := by
    rw [Text.parenthesize, levelAfter, levelAfter_append, h.level]
    rfl

/-- Every phrase has the shape. -/
theorem Phrase.shape (h : Phrase k t) : Shape t := by
  induction h with
  | ofSigned _ ih | ofPrimary _ ih => exact ih
  | binary hb _ _ ihl ihr => exact ihl.binary (isSymbol_iff.2 hb) ihr
  | sign _ ih => exact ih.sign
  | numeral hd => exact .numeral hd
  | paren _ ih => exact ih.paren

/-! ## Recognising a sentence -/

/-- After `s` an operand is due: with any operand it becomes a phrase. -/
def Slot (s : Text) : Prop := ∀ x, Phrase .signed x → Phrase .expr (s ++ x)

/-- `w` opens `n` groups, each where an operand is due, and ends with the last parenthesis. -/
inductive Opened : Nat → Text → Prop where
  | nil : Opened 0 []
  | paren {n : Nat} {w s : Text} : Opened n w → Slot s → Opened (n + 1) (w ++ s ++ ['('])

/-- What has been read of the innermost group, by the last character read: an operand is due, or
one ends with the last character. Only a numeral may go on after that. -/
inductive Reads : Char → Text → Prop where
  | slot {a : Char} {s : Text} : endsOperand a = false → Slot s → Reads a s
  | numeral {a : Char} {s d : Text} : a.isDigit = true → Slot s → IsNumeral d → Reads a (s ++ d)
  | group {s : Text} : Phrase .expr s → Reads ')' s

variable {n : Nat} {s u v w : Text}

theorem Slot.nil : Slot [] := fun _ hx => .ofSigned hx

theorem Slot.sign (h : Slot s) : Slot (s ++ ['-']) := by
  intro x hx
  rw [List.append_assoc]
  exact h _ (.sign hx)

theorem Slot.binary (h : Phrase .expr s) (hb : Operator.isSymbol b = true) : Slot (s ++ [b]) := by
  intro x hx
  rw [List.append_assoc]
  exact .binary (isSymbol_iff.1 hb) h hx

/-- After a character that ends an operand, a phrase has been read. -/
theorem Reads.phrase (h : Reads a s) (ha : endsOperand a = true) : Phrase .expr s := by
  cases h with
  | slot hslot => exact absurd ha (by simp [hslot])
  | numeral _ hs hd => exact hs _ (.ofPrimary (.numeral hd))
  | group hp => exact hp

/-- After a character that does not end an operand, one is due. -/
theorem Reads.slot_of (h : Reads a s) (ha : endsOperand a = false) : Slot s := by
  cases h with
  | slot _ hs => exact hs
  | numeral hdigit => exact absurd ha (by simp [endsOperand, hdigit])
  | group _ => exact absurd ha (by decide)

/-- A digit begins a numeral or continues one. -/
theorem Reads.digit (h : Reads a s) (hab : mayFollow a b = true) (hb : b.isDigit = true) :
    Reads b (s ++ [b]) := by
  cases h with
  | slot _ hs => exact .numeral hb hs ⟨by simp, by simpa using hb⟩
  | @numeral _ s' d _ hs hd =>
    rw [List.append_assoc]
    refine .numeral hb hs ⟨by simp, fun c hc => ?_⟩
    rcases List.mem_append.1 hc with hc | hc
    · exact hd.2 c hc
    · rw [List.mem_singleton.1 hc]
      exact hb
  | group _ => exact absurd hab (by simp [mayFollow, endsOperand, isSymbol_of_isDigit hb, hb,
      (ne_paren_of_isDigit hb).2])

/-- One more character of a text with the right neighbours and levels. -/
theorem Reads.step (h : Reads a s) (hw : Opened n w) (hab : mayFollow a b = true)
    (hv : levelAfter n (b :: v) = some 0) :
    ∃ m w' s', w ++ s ++ [b] = w' ++ s' ∧ Opened m w' ∧ Reads b s' ∧ levelAfter m v = some 0 := by
  by_cases hdigit : b.isDigit = true
  · rw [levelAfter_cons n v (ne_paren_of_isDigit hdigit)] at hv
    exact ⟨n, w, s ++ [b], List.append_assoc .., hw, h.digit hab hdigit, hv⟩
  by_cases hopen : b = '('
  · subst hopen
    have ha : endsOperand a = false := by
      by_contra ha
      simp [mayFollow, ha, Operator.isSymbol, Operator.ofSymbol?] at hab
    rw [levelAfter] at hv
    exact ⟨n + 1, w ++ s ++ ['('], [], by simp, .paren hw (h.slot_of ha), .slot rfl .nil, hv⟩
  by_cases hclose : b = ')'
  · subst hclose
    have ha : endsOperand a = true := by
      by_contra ha
      simp [mayFollow, ha, startsOperand] at hab
    cases hw with
    | nil => cases hv
    | @paren n w s₀ hw hslot =>
      rw [levelAfter] at hv
      have hgroup : Phrase .expr (s₀ ++ Text.parenthesize s) :=
        hslot _ (.ofPrimary (.paren (h.phrase ha)))
      exact ⟨n, w, s₀ ++ Text.parenthesize s, by simp [Text.parenthesize], hw, .group hgroup, hv⟩
  -- what is left is an operator: between two operands, or a sign
  rw [levelAfter_cons n v ⟨hopen, hclose⟩] at hv
  by_cases ha : endsOperand a = true
  · have hb : Operator.isSymbol b = true := by simpa [mayFollow, ha, hclose, hdigit] using hab
    exact ⟨n, w, s ++ [b], List.append_assoc .., hw,
      .slot (endsOperand_of_isSymbol hb) (.binary (h.phrase ha) hb), hv⟩
  · rw [Bool.not_eq_true] at ha
    obtain rfl : b = '-' := by simpa [mayFollow, ha, startsOperand, hopen, hdigit] using hab
    exact ⟨n, w, s ++ ['-'], List.append_assoc .., hw, .slot rfl (.sign (h.slot_of ha)), hv⟩

/-- Reading on through a part of a text with the right neighbours and levels. -/
theorem Reads.steps (h : Reads a s) (hw : Opened n w)
    (hchain : (a :: u).IsChain (mayFollow · · = true)) (hv : levelAfter n (u ++ v) = some 0) :
    ∃ m w' s', w ++ s ++ u = w' ++ s' ∧ Opened m w' ∧ Reads (u.getLastD a) s' ∧
      levelAfter m v = some 0 := by
  induction u generalizing a n w s with
  | nil => exact ⟨n, w, s, List.append_nil _, hw, h, hv⟩
  | cons b u ih =>
    obtain ⟨hab, hrest⟩ := List.isChain_cons_cons.1 hchain
    obtain ⟨m, w', s', heq, hw', hs', hv'⟩ := h.step hw hab hv
    obtain ⟨m', w'', s'', heq', hread⟩ := ih hs' hw' hrest hv'
    rw [← heq, List.append_assoc] at heq'
    exact ⟨m', w'', s'', heq', by rwa [List.getLastD_cons]⟩

/-- A text with the right neighbours and levels is a sentence. -/
theorem phrase_of_isChain (hchain : (Text.parenthesize t).IsChain (mayFollow · · = true))
    (hlevel : levelAfter 0 t = some 0) : Phrase .expr t := by
  rw [Text.parenthesize, ← List.cons_append, List.isChain_append] at hchain
  obtain ⟨hchain, -, hclose⟩ := hchain
  rw [← List.append_nil t] at hlevel
  obtain ⟨m, w, s, heq, hw, hs, hv⟩ := Reads.steps (.slot (a := '(') rfl .nil) .nil hchain hlevel
  have ha : endsOperand (t.getLastD '(') = true := by
    have hclose := hclose (t.getLastD '(') (by simp [List.getLast?_cons]) ')' rfl
    simpa [mayFollow, startsOperand] using hclose
  cases hv
  cases hw
  have ht : t = s := heq
  exact ht ▸ hs.phrase ha

/-- A text is a sentence exactly if, between parentheses, every two of its neighbours may stand
next to each other, and its own parentheses are balanced. -/
theorem phrase_iff : Phrase .expr t ↔
    (Text.parenthesize t).IsChain (mayFollow · · = true) ∧ levelAfter 0 t = some 0 :=
  ⟨fun h => ⟨h.shape.paren.chain, h.shape.level 0⟩, fun h => phrase_of_isChain h.1 h.2⟩

/-- A text with the shape of a phrase is a sentence. -/
theorem Shape.phrase (h : Shape t) : Phrase .expr t :=
  phrase_iff.2 ⟨h.paren.chain, h.level 0⟩

/-- Parentheses around a text ask for the edges of a sentence. -/
theorem isChain_parenthesize_iff (hne : t ≠ []) :
    (Text.parenthesize t).IsChain (mayFollow · · = true) ↔
      (∀ a ∈ t.head?, startsOperand a = true) ∧ t.IsChain (mayFollow · · = true) ∧
        ∀ a ∈ t.getLast?, endsOperand a = true := by
  have hopen (a : Char) : mayFollow '(' a = startsOperand a := rfl
  have hclose (a : Char) : mayFollow a ')' = endsOperand a := by
    simp [mayFollow, startsOperand]
  rw [Text.parenthesize, List.isChain_cons, List.head?_append_of_ne_nil _ hne, List.isChain_append]
  simp [hopen, hclose]

end TreeCalculator.Entry
