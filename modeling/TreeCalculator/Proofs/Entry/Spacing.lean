import Mathlib.Data.Option.Basic
import TreeCalculator.Proofs.Analysis
import TreeCalculator.Proofs.Text.Spaces

/-!
# Spaces that do not matter

The spaces of an entry are of no account, except where they part the digits of two numbers. The
buttons put a space only beside the symbol of an operator or before a `(`, so in a `Tidy` text,
which has no other spaces, the runs of digits are those of the text without its spaces
(`Tidy.digitRuns_withoutSpaces`). Such a text may be added to and cut (`Tidy.append`, `Tidy.cut`),
as long as a space that stands before a symbol is not left at the end.

In other texts a space may cut a run of digits into two. That shows in a single fault, and only if
there is no operator at all (`SpacesPartNumber`); all else about an entry is the same with its
spaces and without (`Analysis.ofEntry_spaces`).
-/

namespace TreeCalculator.Entry

variable {s t u v entry : Text} {a b c : Char}

/-! ## Tidy texts -/

/-- A space between `u` and `v` stands beside a symbol or before a `(`. -/
def IsPadding (u v : Text) : Prop :=
  (∃ a ∈ u.getLast?, Operator.isSymbol a = true) ∨
    ∃ b ∈ v.head?, Operator.isSymbol b = true ∨ b = '('

/-- A text that could be an entry and has spaces only beside symbols and before `(`. -/
structure Tidy (t : Text) : Prop where
  allowed : ∀ c ∈ t, isAllowed c = true
  padding : ∀ u v, t = u ++ ' ' :: v → IsPadding u v

/-- More text on either side does not matter. -/
theorem IsPadding.append (h : IsPadding u v) (l r : Text) : IsPadding (l ++ u) (v ++ r) := by
  refine h.imp ?_ ?_
  · rintro ⟨a, ha, hsymbol⟩
    exact ⟨a, List.mem_getLast?_append_of_mem_getLast? ha, hsymbol⟩
  · rintro ⟨b, hb, hsymbol⟩
    exact ⟨b, List.mem_head?_append_of_mem_head? hb, hsymbol⟩

theorem Tidy.nil : Tidy [] where
  allowed c hc := by cases hc
  padding u v h := by simp at h

/-- A single character other than a space. -/
theorem Tidy.char (hc : isAllowed c = true) (hne : c ≠ ' ') : Tidy [c] where
  allowed d hd := by rwa [List.mem_singleton.1 hd]
  padding u v h := by
    have hmem : ' ' ∈ [c] := by simp [h]
    exact absurd (List.mem_singleton.1 hmem).symm hne

/-- A space may be put before a symbol or a `(`. -/
theorem Tidy.cons_space (h : Tidy (b :: t)) (hb : Operator.isSymbol b = true ∨ b = '(') :
    Tidy (' ' :: b :: t) where
  allowed d hd := by
    rcases List.mem_cons.1 hd with rfl | hd
    · rfl
    · exact h.allowed d hd
  padding u v heq := by
    rcases List.cons_eq_append_iff.1 heq with ⟨rfl, hv⟩ | ⟨u, rfl, ht⟩
    · cases hv
      exact .inr ⟨b, rfl, hb⟩
    · simpa using (h.padding u v ht).append [' '] []

/-- Tidy texts are tidy one after the other. -/
theorem Tidy.append (hs : Tidy s) (ht : Tidy t) : Tidy (s ++ t) where
  allowed c hc := (List.mem_append.1 hc).elim (hs.allowed c) (ht.allowed c)
  padding u v h := by
    rcases List.append_eq_append_iff.1 h with ⟨m, rfl, hm⟩ | ⟨m, hm, hv⟩
    · simpa using (ht.padding m v hm).append s []
    · rcases List.cons_eq_append_iff.1 hv with ⟨rfl, hv⟩ | ⟨m, rfl, rfl⟩
      · simpa [hm] using (ht.padding [] v hv.symm).append u []
      · simpa using (hs.padding u m hm).append [] t

/-- A space may be put after a symbol. -/
theorem Tidy.symbol_space (ha : Operator.isSymbol a = true) : Tidy [a, ' '] where
  allowed d hd := by
    rcases List.mem_cons.1 hd with rfl | hd
    · simp [isAllowed, ha]
    · rw [List.mem_singleton.1 hd]
      rfl
  padding u v h := by
    rcases List.cons_eq_append_iff.1 h with ⟨-, hv⟩ | ⟨u, rfl, ht⟩
    · cases hv
      cases ha
    · rcases List.cons_eq_append_iff.1 ht with ⟨rfl, -⟩ | ⟨u, -, hv⟩
      · exact .inl ⟨a, rfl, ha⟩
      · simp at hv

/-- A tidy text may be cut, but not after a space: that space may be padding for what follows. -/
theorem Tidy.cut (h : Tidy (s ++ t)) (hs : s.getLast? ≠ some ' ') : Tidy s where
  allowed c hc := h.allowed c (List.mem_append_left _ hc)
  padding u v hv := by
    have hne : v ≠ [] := by
      rintro rfl
      exact hs (by simp [hv])
    obtain ⟨b, v, rfl⟩ := List.exists_cons_of_ne_nil hne
    exact h.padding u (b :: v ++ t) (by simp [hv])

/-- Trimming the end of a part of a tidy text leaves a tidy text. -/
theorem Tidy.trimEnd (h : Tidy t) (hs : s <+: t) : Tidy s.trimEnd := by
  obtain ⟨r, hr⟩ := s.trimEnd_prefix.trans hs
  exact cut (hr ▸ h) s.getLast?_trimEnd_ne

/-! ## Runs of digits -/

/-- The number of runs of digits of `t` that begin after the character `a`. -/
def runsAfter (a : Char) (t : Text) : Nat :=
  (Text.neighbours (a :: t)).countP fun (a, b) => !a.isDigit && b.isDigit

theorem runsAfter_cons (a b : Char) (t : Text) :
    runsAfter a (b :: t) = runsAfter b t + if !a.isDigit && b.isDigit then 1 else 0 :=
  List.countP_cons ..

/-- A run does not begin with what is no digit. -/
theorem runsAfter_cons_of_not_digit (a : Char) (hb : b.isDigit = false) (t : Text) :
    runsAfter a (b :: t) = runsAfter b t := by
  simp [runsAfter_cons, hb]

/-- Of the character before a text, only whether it is a digit matters. -/
theorem runsAfter_congr (h : a.isDigit = b.isDigit) (t : Text) : runsAfter a t = runsAfter b t := by
  cases t with
  | nil => rfl
  | cons c t => simp only [runsAfter_cons, h]

/-- In the rest `t` of a tidy text, no run begins or ends with its spaces. -/
theorem Tidy.runsAfter_withoutSpaces {w : Text} (h : Tidy (w ++ t))
    (ha : a.isDigit = (w.getLastD ' ').isDigit) :
    runsAfter a t.withoutSpaces = runsAfter a t := by
  induction t generalizing w a with
  | nil => rfl
  | cons c t ih =>
    rw [List.append_cons] at h
    by_cases hc : c = ' '
    · subst hc
      rw [Text.withoutSpaces_cons_space, runsAfter_cons_of_not_digit a rfl,
        ← ih h (by rw [List.getLastD_concat])]
      -- without the space the rest stands right after `a`, which is no digit or has none after it
      rcases h.padding w t (by simp) with ⟨b, hb, hsymbol⟩ | ⟨b, hb, hsymbol⟩
      · have hlast : w.getLastD ' ' = b := by simp [List.getLastD_eq_getLast?, Option.mem_def.1 hb]
        rw [hlast, isDigit_of_isSymbol hsymbol] at ha
        exact runsAfter_congr ha _
      · obtain ⟨v, rfl⟩ := List.head?_eq_some_iff.1 hb
        obtain ⟨hdigit, hne⟩ : b.isDigit = false ∧ b ≠ ' ' := by
          rcases hsymbol with hsymbol | rfl
          · refine ⟨isDigit_of_isSymbol hsymbol, ?_⟩
            rintro rfl
            cases hsymbol
          · decide
        rw [Text.withoutSpaces_cons hne, runsAfter_cons_of_not_digit _ hdigit,
          runsAfter_cons_of_not_digit _ hdigit]
    · rw [Text.withoutSpaces_cons hc, runsAfter_cons, runsAfter_cons,
        ih h (by rw [List.getLastD_concat])]

/-- A tidy text has the same number of digit runs with its spaces and without. -/
theorem Tidy.digitRuns_withoutSpaces (h : Tidy t) : digitRuns t.withoutSpaces = digitRuns t :=
  runsAfter_withoutSpaces (w := []) h rfl

/-- A run that begins after any character begins after a space too. -/
theorem runsAfter_le_space (a : Char) (t : Text) : runsAfter a t ≤ runsAfter ' ' t := by
  cases t with
  | nil => exact Nat.le_refl _
  | cons b t =>
    rw [runsAfter_cons, runsAfter_cons]
    cases a.isDigit with
    | true => exact Nat.le_add_right ..
    | false => exact Nat.le_refl _

/-- To remove spaces may join two runs, but it parts none. -/
theorem runsAfter_withoutSpaces_le (a : Char) (t : Text) :
    runsAfter a t.withoutSpaces ≤ runsAfter a t := by
  induction t generalizing a with
  | nil => exact Nat.le_refl _
  | cons c t ih =>
    by_cases hc : c = ' '
    · subst hc
      rw [Text.withoutSpaces_cons_space, runsAfter_cons_of_not_digit a rfl]
      exact (runsAfter_le_space a _).trans (ih ' ')
    · rw [Text.withoutSpaces_cons hc, runsAfter_cons, runsAfter_cons]
      exact Nat.add_le_add_right (ih c) _

theorem digitRuns_withoutSpaces_le (t : Text) : digitRuns t.withoutSpaces ≤ digitRuns t :=
  runsAfter_withoutSpaces_le ' ' t

/-- A text of spaces has no digits. -/
theorem digitRuns_of_withoutSpaces_eq_nil (h : t.withoutSpaces = []) : digitRuns t = 0 := by
  have hspace : ∀ c ∈ t, c = ' ' := fun c hc => by simpa using List.filter_eq_nil_iff.1 h c hc
  refine List.countP_eq_zero.2 fun p hp => ?_
  have hdigit : p.2.isDigit = false := by
    rcases List.mem_cons.1 (mem_of_mem_neighbours hp).2 with hc | hc
    · rw [hc]
      rfl
    · rw [hspace p.2 hc]
      rfl
  simp [hdigit]

/-! ## Faults -/

/-- The spaces of an entry do not matter to its faults, unless it has no operator and they part
numbers. -/
theorem fault?_withoutSpaces (h : entry.withoutSpaces.any Operator.isSymbol = false →
    (2 ≤ digitRuns entry.withoutSpaces ↔ 2 ≤ digitRuns entry)) :
    fault? entry.withoutSpaces = fault? entry := by
  have hmissing : (!entry.withoutSpaces.any Operator.isSymbol &&
      decide (2 ≤ digitRuns entry.withoutSpaces)) =
        (!entry.withoutSpaces.any Operator.isSymbol && decide (2 ≤ digitRuns entry)) := by
    cases hany : entry.withoutSpaces.any Operator.isSymbol with
    | true => rfl
    | false => rw [decide_eq_decide.2 (h hany)]
  have hfind : (entry.withoutSpaces.find? fun c => !isAllowed c) =
      entry.find? fun c => !isAllowed c := by
    rw [Text.withoutSpaces, List.find?_filter]
    congr 1
    funext c
    by_cases hc : c = ' '
    · subst hc
      rfl
    · simp [hc]
  simp only [fault?, Text.withoutSpaces_withoutSpaces, hmissing, hfind]

/-- No rule on parentheses complains of a character. -/
theorem parenthesisFault?_ne_invalidCharacter (t : Text) (c : Char) :
    parenthesisFault? t ≠ some (.invalidCharacter c) := by
  unfold parenthesisFault?
  split_ifs
  · simp
  · simp
  · intro h
    obtain ⟨⟨a, b⟩, -, h⟩ := List.exists_of_findSome?_eq_some h
    dsimp only [juxtapositionFault?] at h
    split_ifs at h <;> cases h

/-- No rule on operators complains of a character. -/
theorem operatorFault?_ne_invalidCharacter (t : Text) (c : Char) :
    operatorFault? t ≠ some (.invalidCharacter c) := by
  unfold operatorFault?
  split_ifs <;> simp

/-- No character of an entry is complained of if each is one that it may hold. -/
theorem fault?_ne_invalidCharacter (h : ∀ c ∈ entry, isAllowed c = true) (c : Char) :
    fault? entry ≠ some (.invalidCharacter c) := by
  have hfind : (entry.find? fun c => !isAllowed c) = none :=
    List.find?_eq_none.2 fun c hc => by simp [h c hc]
  rw [fault?, hfind]
  dsimp only
  split_ifs
  · simp
  · simp
  · simp
  · intro hc
    rcases (Option.orElse_eq_some _ _ _).1 hc with hc | ⟨-, hc⟩
    · exact parenthesisFault?_ne_invalidCharacter _ c hc
    · exact operatorFault?_ne_invalidCharacter _ c hc

/-! ## Entries that differ in their spaces -/

/-- Without its spaces the entry has no operator and at most one run of digits, but its spaces cut
that run into several. -/
def SpacesPartNumber (entry : Text) : Prop :=
  (∀ c ∈ entry.withoutSpaces, c ∉ ['+', '-', '*', '/', '^']) ∧
    (digitWords entry.withoutSpaces).length < 2 ∧ 2 ≤ (digitWords entry).length

/-- The rule on two numbers without an operator reads these parts of the entry. -/
theorem any_isSymbol_eq_false_iff : t.any Operator.isSymbol = false ↔
    ∀ c ∈ t, c ∉ ['+', '-', '*', '/', '^'] := by
  simp only [List.any_eq_false, isSymbol_iff]

/-- A number that spaces cut into several is refused for it. -/
theorem SpacesPartNumber.fault? (h : SpacesPartNumber entry) :
    fault? entry = some .missingOperator := by
  obtain ⟨hsymbol, -, hruns⟩ := h
  rw [← any_isSymbol_eq_false_iff] at hsymbol
  rw [← digitRuns_eq] at hruns
  have hne : entry.withoutSpaces ≠ [] := by
    intro hnil
    rw [digitRuns_of_withoutSpaces_eq_nil hnil] at hruns
    exact absurd hruns (by decide)
  simp [Entry.fault?, hne, hsymbol, hruns]

/-- In all other entries the spaces do not matter to the faults. -/
theorem fault?_withoutSpaces_of_not (h : ¬ SpacesPartNumber entry) :
    fault? entry.withoutSpaces = fault? entry := by
  refine fault?_withoutSpaces fun hsymbol => ?_
  constructor
  · intro hruns
    exact hruns.trans (digitRuns_withoutSpaces_le entry)
  · intro hruns
    by_contra hlt
    rw [Nat.not_le, digitRuns_eq] at hlt
    rw [digitRuns_eq] at hruns
    exact h ⟨any_isSymbol_eq_false_iff.1 hsymbol, hlt, hruns⟩

end TreeCalculator.Entry

namespace TreeCalculator.Analysis

/-- **Spaces do not matter, with one exception.** The tokens of an entry are those of the entry
without its spaces. So are its fault and its analysis, unless the entry is a number that its spaces
cut into several, and then a missing operator is reported. Two entries that are the same without
their spaces, and hold an operator, are treated alike in everything. -/
theorem ofEntry_spaces (entry : Text) :
    Token.scan entry = Token.scan entry.withoutSpaces ∧
    ((¬ Entry.SpacesPartNumber entry ∧ Entry.fault? entry = Entry.fault? entry.withoutSpaces ∧
        ∀ limit, ofEntry limit entry = ofEntry limit entry.withoutSpaces) ∨
      (Entry.SpacesPartNumber entry ∧ Entry.fault? entry = some .missingOperator)) ∧
    ∀ other : Text, other.withoutSpaces = entry.withoutSpaces →
      (∃ c ∈ entry.withoutSpaces, c ∈ ['+', '-', '*', '/', '^']) →
      Token.scan other = Token.scan entry ∧ Entry.fault? other = Entry.fault? entry ∧
        ∀ limit, ofEntry limit other = ofEntry limit entry := by
  have hplain (t : Text) (h : ¬ Entry.SpacesPartNumber t) :
      Entry.fault? t = Entry.fault? t.withoutSpaces ∧
        ∀ limit, ofEntry limit t = ofEntry limit t.withoutSpaces := by
    have hfault := Entry.fault?_withoutSpaces_of_not h
    exact ⟨hfault.symm, fun limit => (ofEntry_withoutSpaces hfault).symm⟩
  refine ⟨(Token.scan_withoutSpaces entry).symm, ?_, ?_⟩
  · by_cases h : Entry.SpacesPartNumber entry
    · exact .inr ⟨h, h.fault?⟩
    · exact .inl ⟨h, hplain entry h⟩
  · rintro other hsame ⟨c, hc, hsymbol⟩
    obtain ⟨hfault, hanalysis⟩ := hplain entry fun h => h.1 c hc hsymbol
    obtain ⟨hfault', hanalysis'⟩ := hplain other fun h => h.1 c (hsame ▸ hc) hsymbol
    refine ⟨?_, ?_, fun limit => ?_⟩
    · rw [← Token.scan_withoutSpaces other, hsame, Token.scan_withoutSpaces]
    · rw [hfault', hsame, hfault]
    · rw [hanalysis', hsame, hanalysis]

/-- `1 2 +3` and `12+ 3` are read alike. The spaces of `1 2`, which has no operator, are complained
of. -/
theorem ofEntry_spaces_number :
    let entry : Text := ['1', ' ', '2', ' ', '+', '3']
    let other : Text := ['1', '2', '+', ' ', '3']
    let number : Text := ['1', ' ', '2']
    Token.scan other = Token.scan entry ∧ Entry.fault? other = Entry.fault? entry ∧
      Entry.SpacesPartNumber number ∧ Entry.fault? number = some .missingOperator := by
  intro entry other number
  obtain ⟨-, -, hentries⟩ := ofEntry_spaces entry
  obtain ⟨hscan, hfault, -⟩ := hentries other rfl ⟨'+', by simp [entry, Text.withoutSpaces]⟩
  have hparted : Entry.SpacesPartNumber number := by
    refine ⟨Entry.any_isSymbol_eq_false_iff.1 rfl, ?_, ?_⟩
    · rw [← Entry.digitRuns_eq]
      decide
    · rw [← Entry.digitRuns_eq]
      decide
  obtain ⟨-, ⟨hnot, -⟩ | ⟨-, hmissing⟩, -⟩ := ofEntry_spaces number
  · exact absurd hparted hnot
  · exact ⟨hscan, hfault, hparted, hmissing⟩

end TreeCalculator.Analysis
