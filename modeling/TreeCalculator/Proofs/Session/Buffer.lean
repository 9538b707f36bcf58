import Mathlib.Data.List.Induction
import TreeCalculator.Proofs.Analysis
import TreeCalculator.Proofs.Entry.Spacing
import TreeCalculator.Session

/-!
# The entry field is a plain buffer

The buttons put spaces into the entry field and take them out again. Without its spaces, the field
is a buffer that knows nothing of them: `Action.edit` is what an action does to that buffer, and
`run_entry_withoutSpaces` says that the field and the buffer agree after any list of actions.

The spaces that the buttons put in do not change what the entry means. They leave the field tidy
(`tidy_step`), so that as long as no text is typed the field and the buffer have one analysis.
-/

namespace TreeCalculator

/-- The plain buffer after an action. -/
def Action.edit (buffer : Text) : Action → Text
  | type t => buffer ++ t.withoutSpaces
  | press (.digit d) => buffer ++ [d.val.digitChar]
  | press (.operator o _) => buffer ++ [o.symbol]
  | press .openParen => buffer ++ ['(']
  | press .closeParen => buffer ++ [')']
  | press .delete => buffer.dropLast
  | press .clearEntry | press .clearAll | escape => []
  | press .clearResults | press .evaluate | enter | setLimit _ | dragLimit _ => buffer

/-- The plain buffer after a list of actions. -/
def Session.buffer (actions : List Action) : Text := actions.foldl Action.edit []

/-! ## What the buttons do to the entry -/

namespace Entry

variable {entry : Text}

theorem digitChar_ne_space (d : Fin 10) : d.val.digitChar ≠ ' ' := by
  revert d
  decide

theorem appendOperator_eq (entry : Text) (o : Operator) : appendOperator entry o =
    entry.trimEnd ++ if entry.trimEnd.isEmpty then [o.symbol, ' '] else [' ', o.symbol, ' '] := by
  unfold appendOperator
  cases entry.trimEnd <;> simp

theorem withoutSpaces_appendOperator (entry : Text) (o : Operator) :
    (appendOperator entry o).withoutSpaces = entry.withoutSpaces ++ [o.symbol] := by
  have hsymbol : Text.withoutSpaces [o.symbol, ' '] = [o.symbol] :=
    Text.withoutSpaces_cons o.symbol_ne_space [' ']
  rw [appendOperator_eq, Text.withoutSpaces_append, Text.withoutSpaces_trimEnd]
  split
  · rw [hsymbol]
  · rw [Text.withoutSpaces_cons_space, hsymbol]

theorem withoutSpaces_appendOpenParen (entry : Text) :
    (appendOpenParen entry).withoutSpaces = entry.withoutSpaces ++ ['('] := by
  unfold appendOpenParen
  rw [Text.withoutSpaces_append]
  split <;> rfl

theorem withoutSpaces_appendCloseParen (entry : Text) :
    (appendCloseParen entry).withoutSpaces = entry.withoutSpaces ++ [')'] := by
  rw [appendCloseParen, Text.withoutSpaces_concat (by decide), Text.withoutSpaces_trimEnd]

theorem withoutSpaces_deleteLast (entry : Text) :
    (deleteLast entry).withoutSpaces = entry.withoutSpaces.dropLast := by
  rw [deleteLast, Text.withoutSpaces_trimEnd,
    Text.withoutSpaces_dropLast entry.getLast?_trimEnd_ne, Text.withoutSpaces_trimEnd]

theorem Tidy.appendOperator (h : Tidy entry) (o : Operator) : Tidy (appendOperator entry o) := by
  have hsymbol := Tidy.symbol_space (isSymbol_symbol o)
  rw [appendOperator_eq]
  refine (h.trimEnd List.prefix_rfl).append ?_
  split
  · exact hsymbol
  · exact hsymbol.cons_space (.inl (isSymbol_symbol o))

theorem Tidy.appendOpenParen (h : Tidy entry) : Tidy (appendOpenParen entry) := by
  have hparen : Tidy ['('] := .char rfl (by decide)
  unfold Entry.appendOpenParen
  refine h.append ?_
  split
  · exact hparen.cons_space (.inr rfl)
  · exact hparen

theorem Tidy.appendCloseParen (h : Tidy entry) : Tidy (appendCloseParen entry) :=
  (h.trimEnd List.prefix_rfl).append (.char rfl (by decide))

theorem Tidy.deleteLast (h : Tidy entry) : Tidy (deleteLast entry) :=
  h.trimEnd ((List.dropLast_prefix _).trans entry.trimEnd_prefix)

end Entry

/-! ## One action -/

namespace Session

variable {s : Session} {a : Action} {actions : List Action}

/-- Spaces apart, an action does to the entry what it does to the plain buffer. -/
theorem step_entry_withoutSpaces (s : Session) (a : Action) :
    (s.step a).entry.withoutSpaces = a.edit s.entry.withoutSpaces := by
  cases a with
  | type t => exact Text.withoutSpaces_append s.entry t
  | press b =>
    cases b with
    | digit d => exact Text.withoutSpaces_concat (Entry.digitChar_ne_space d) s.entry
    | operator o _ => exact Entry.withoutSpaces_appendOperator s.entry o
    | openParen => exact Entry.withoutSpaces_appendOpenParen s.entry
    | closeParen => exact Entry.withoutSpaces_appendCloseParen s.entry
    | delete => exact Entry.withoutSpaces_deleteLast s.entry
    | evaluate => exact congrArg Text.withoutSpaces s.evaluate_entry
    | clearEntry | clearResults | clearAll => rfl
  | enter => exact congrArg Text.withoutSpaces s.evaluate_entry
  | escape | setLimit | dragLimit => rfl

/-- Every action but typing leaves a tidy entry tidy. -/
theorem tidy_step (h : Entry.Tidy s.entry) (ha : ∀ t, a ≠ .type t) :
    Entry.Tidy (s.step a).entry := by
  cases a with
  | type t => exact absurd rfl (ha t)
  | press b =>
    cases b with
    | digit d =>
      have hdigit : ∀ d : Fin 10, Entry.isAllowed d.val.digitChar = true := by decide
      exact h.append (.char (hdigit d) (Entry.digitChar_ne_space d))
    | operator o _ => exact h.appendOperator o
    | openParen => exact h.appendOpenParen
    | closeParen => exact h.appendCloseParen
    | delete => exact h.deleteLast
    | evaluate => exact s.evaluate_entry ▸ h
    | clearEntry | clearAll => exact .nil
    | clearResults => exact h
  | enter => exact s.evaluate_entry ▸ h
  | escape => exact .nil
  | setLimit | dragLimit => exact h

/-! ## Every list of actions -/

theorem buffer_concat (actions : List Action) (a : Action) :
    buffer (actions ++ [a]) = a.edit (buffer actions) := List.foldl_append ..

/-- Spaces apart, the entry is the plain buffer. -/
theorem run_entry_withoutSpaces (actions : List Action) :
    (run {} actions).entry.withoutSpaces = buffer actions := by
  induction actions using List.reverseRecOn with
  | nil => rfl
  | append_singleton actions a ih =>
    rw [run_concat, step_entry_withoutSpaces, ih, buffer_concat]

/-- If no text is typed, the entry is tidy. -/
theorem tidy_run (h : ∀ t, Action.type t ∉ actions) : Entry.Tidy (run {} actions).entry := by
  induction actions using List.reverseRecOn with
  | nil => exact .nil
  | append_singleton actions a ih =>
    rw [run_concat]
    refine tidy_step (ih fun t ht => h t (List.mem_append_left _ ht)) ?_
    rintro t rfl
    exact h t List.mem_concat_self

/-- **The entry field refines a plain buffer.** After any list of actions the entry is the plain
buffer, spaces apart. If no text was typed, the two have the same analysis under every limit, and no
character is ever complained of. -/
theorem entry_refines_buffer (actions : List Action) :
    (run {} actions).entry.withoutSpaces = buffer actions ∧
    ((∀ t, Action.type t ∉ actions) → ∀ limit,
      Analysis.ofEntry limit (run {} actions).entry = Analysis.ofEntry limit (buffer actions) ∧
      ∀ c, Analysis.ofEntry limit (run {} actions).entry ≠
        .error (.entry (.invalidCharacter c))) := by
  refine ⟨run_entry_withoutSpaces actions, fun h limit => ⟨?_, fun c hc => ?_⟩⟩
  · have hruns := (tidy_run h).digitRuns_withoutSpaces
    rw [← run_entry_withoutSpaces, Analysis.ofEntry_withoutSpaces]
    exact Entry.fault?_withoutSpaces fun _ => by rw [hruns]
  · exact Entry.fault?_ne_invalidCharacter (tidy_run h).allowed c (Analysis.fault?_of_ofEntry hc)

/-- A `+` is deleted before the second digit, so `2` and `3` are one number; the spaces around `*`
stay. With them and without, what is wrong is the open parenthesis. -/
theorem entry_refines_buffer_delete :
    let actions : List Action := [.press (.digit 2), .press (.operator .add), .press .delete,
      .press (.digit 3), .press (.operator .mul), .press .openParen, .press (.digit 4)]
    (run {} actions).entry = ['2', '3', ' ', '*', ' ', '(', '4'] ∧
      buffer actions = ['2', '3', '*', '(', '4'] ∧
      Analysis.ofEntry 200 (run {} actions).entry = .error (.entry .unbalancedParentheses) ∧
      Analysis.ofEntry 200 (buffer actions) = .error (.entry .unbalancedParentheses) := by
  intro actions
  have hentry : (run {} actions).entry = ['2', '3', ' ', '*', ' ', '(', '4'] := by decide
  have hfault : Entry.fault? (run {} actions).entry = some .unbalancedParentheses := by
    rw [hentry]
    decide
  obtain ⟨hbuffer, hanalysis⟩ := entry_refines_buffer actions
  obtain ⟨hsame, -⟩ := hanalysis (by simp [actions]) 200
  have hfailed : Analysis.ofEntry 200 (run {} actions).entry =
      .error (.entry .unbalancedParentheses) := Analysis.ofEntry_of_fault hfault
  refine ⟨hentry, ?_, hfailed, hsame ▸ hfailed⟩
  rw [← hbuffer, hentry]
  decide

end Session

end TreeCalculator
