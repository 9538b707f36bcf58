import TreeCalculator.Analysis
import TreeCalculator.Binary64
import TreeCalculator.Limit
import TreeCalculator.Text.Blank

/-!
# A session with the calculator

The state of the calculator between two actions of its user, and how each action changes it. The
result panel and the failure line are texts that last longer than the entry they came from: a
success replaces all texts of the panel and clears the failure, and a failure leaves the last result
in view.

The buttons put spaces around operators and remove them again, so that the entry stays readable.
-/

namespace TreeCalculator

/-! ## What is shown -/

/-- The texts of the result panel. Before the first result they are empty. -/
structure Panel where
  value : Text := []
  exactValue : Text := []
  tokens : Text := []
  infixForm : Text := []
  polish : Text := []
  reversePolish : Text := []
  drawing : Text := []
  deriving DecidableEq

/-- What stands in place of an exact value that there is not. -/
def Panel.noExactValue : Text := "indisponible".toList

/-- An analysis as the result panel shows it. -/
def Analysis.panel (a : Analysis) : Panel where
  value := Text.ofFloat a.value
  exactValue := a.exactValue.elim Panel.noExactValue Text.ofRat
  tokens := Token.echo a.tokens
  infixForm := a.infixForm
  polish := a.polish
  reversePolish := a.reversePolish
  drawing := Text.unlines a.drawing

/-! ## Actions -/

/-- The buttons of the calculator. -/
inductive Button where
  | digit (d : Fin 10)
  /-- The button with the symbol of an operator between two operands. The sign has no button of its
  own. -/
  | operator (o : Operator) (binary : o.isUnary = false := by rfl)
  | openParen
  | closeParen
  | delete
  | clearEntry
  | clearResults
  | clearAll
  | evaluate
  deriving DecidableEq

/-- What a user can do. -/
inductive Action where
  /-- Types a text at the end of the entry. -/
  | type (t : Text)
  | press (b : Button)
  | escape
  /-- Presses the Enter key in the entry field. -/
  | enter
  /-- Sets the height limit. -/
  | setLimit (n : Nat)
  /-- Drags the height limit to a number, which may be negative. -/
  | dragLimit (n : Int)
  deriving DecidableEq

/-! ## The entry field -/

namespace Entry

/-- The entry with an operator at its end, and a space on either side of it. -/
def appendOperator (entry : Text) (o : Operator) : Text :=
  let t := entry.trimEnd
  (if t.isEmpty then [] else t ++ [' ']) ++ [o.symbol, ' ']

/-- The entry with `(` at its end, after a space if a digit or `)` is its last character that is
no blank. -/
def appendOpenParen (entry : Text) : Text :=
  let last? := entry.reverse.find? fun c => !Text.isBlank c
  let afterOperand := last?.any fun c => c.isDigit || c == ')'
  entry ++ if afterOperand then [' ', '('] else ['(']

/-- The entry with `)` at its end, in place of the spaces there. -/
def appendCloseParen (entry : Text) : Text := entry.trimEnd ++ [')']

/-- The entry without its last character that is no space, and without the spaces around it. -/
def deleteLast (entry : Text) : Text := Text.trimEnd entry.trimEnd.dropLast

end Entry

/-! ## The state -/

/-- The calculator between two actions. -/
structure Session where
  entry : Text := []
  /-- What the last evaluation with a result has shown, until the results are cleared. -/
  panel : Panel := {}
  /-- The failure line: the wording of the failure of the last evaluation, empty if it had none. -/
  failureText : String := ""
  limit : Nat := HeightLimit.standard
  deriving DecidableEq

namespace Session

/-- Evaluates the entry. -/
def evaluate (s : Session) : Session :=
  match Analysis.ofEntry s.limit s.entry with
  | .ok a => { s with panel := a.panel, failureText := "" }
  | .error e => { s with failureText := e.message }

/-- Evaluation keeps the entry. -/
theorem evaluate_entry (s : Session) : s.evaluate.entry = s.entry := by
  unfold evaluate
  split <;> rfl

/-- Evaluation keeps the limit. -/
theorem evaluate_limit (s : Session) : s.evaluate.limit = s.limit := by
  unfold evaluate
  split <;> rfl

/-- Empties the entry field. -/
def clearEntry (s : Session) : Session := { s with entry := [] }

/-- Empties the result panel and the failure line. -/
def clearResults (s : Session) : Session := { s with panel := {}, failureText := "" }

/-- The state after a button is pressed. -/
def press (s : Session) : Button → Session
  | .digit d => { s with entry := s.entry ++ [d.val.digitChar] }
  | .operator o _ => { s with entry := Entry.appendOperator s.entry o }
  | .openParen => { s with entry := Entry.appendOpenParen s.entry }
  | .closeParen => { s with entry := Entry.appendCloseParen s.entry }
  | .delete => { s with entry := Entry.deleteLast s.entry }
  | .clearEntry => s.clearEntry
  | .clearResults => s.clearResults
  | .clearAll => {}
  | .evaluate => s.evaluate

/-- The state after an action. -/
def step (s : Session) : Action → Session
  | .type t => { s with entry := s.entry ++ t }
  | .press b => s.press b
  | .escape => s.clearEntry
  | .enter => s.evaluate
  | .setLimit n => { s with limit := HeightLimit.clamp n }
  | .dragLimit n => { s with limit := HeightLimit.clamp n.toNat }

/-- The state after a list of actions. -/
def run (s : Session) (actions : List Action) : Session := actions.foldl step s

/-- One more action is one more step. -/
theorem run_concat (s : Session) (actions : List Action) (a : Action) :
    s.run (actions ++ [a]) = (s.run actions).step a := List.foldl_append ..

/-- The states after each of a list of actions. -/
def trace (s : Session) : List Action → List Session
  | [] => []
  | a :: actions => s.step a :: trace (s.step a) actions

end Session

end TreeCalculator
