import Mathlib.Data.List.Induction
import TreeCalculator.Session

/-!
# What a session shows comes from its history

The texts of the result panel, the failure line and the height limit are kept from one action to the
next, and each action changes only some of them. `Session.outcomes` and `Session.limits` say what
they should be by looking back: at the outcomes of the evaluations since the results were last
cleared, and at the numbers given to the limit since everything was. `run_panel`, `run_failureText`
and `run_limit` say that this is what the state holds after any list of actions; each comes from
what a single action does (`step_panel`, `step_failureText`, `step_limit`), by induction on the list
from its end. No action sets one text of the panel without the others.
-/

namespace TreeCalculator

/-! ## Kinds of actions -/

namespace Action

/-- Whether the action evaluates the entry. -/
def isEvaluation : Action → Bool
  | press .evaluate | enter => true
  | _ => false

/-- Whether the action empties the result panel and the failure line. -/
def clearsResults : Action → Bool
  | press .clearResults | press .clearAll => true
  | _ => false

/-- The number that the action gives to the height limit, if it does. -/
def limit? : Action → Option Int
  | setLimit n => some n
  | dragLimit n => some n
  | _ => none

end Action

namespace Session

/-! ## Looking back -/

/-- An action and the state that it met. -/
structure Moment where
  state : Session
  action : Action

/-- The moments of the actions from the state `s` on, the latest first. -/
def history : Session → List Action → List Moment
  | _, [] => []
  | s, a :: actions => history (s.step a) actions ++ [⟨s, a⟩]

/-- The outcomes of the evaluations since the results were last cleared, the latest first. Each is
the analysis of the entry under the limit of its moment. -/
def outcomes (actions : List Action) : List (Except Failure Analysis) :=
  (((history {} actions).takeWhile fun m => !m.action.clearsResults).filter
    fun m => m.action.isEvaluation).map fun m => Analysis.ofEntry m.state.limit m.state.entry

/-- The numbers given to the limit since everything was last cleared, the latest first. -/
def limits (actions : List Action) : List Int :=
  (actions.reverse.takeWhile fun a => a ≠ .press .clearAll).filterMap Action.limit?

/-- The failure line for an outcome. -/
def lineOf : Except Failure Analysis → String
  | .ok _ => ""
  | .error e => e.message

/-- The latest action met the state that the others led to. -/
theorem history_concat (s : Session) (actions : List Action) (a : Action) :
    history s (actions ++ [a]) = ⟨s.run actions, a⟩ :: history s actions := by
  induction actions generalizing s with
  | nil => rfl
  | cons b actions ih =>
    rw [List.cons_append, history, ih, history]
    rfl

theorem outcomes_concat (actions : List Action) (a : Action) :
    outcomes (actions ++ [a]) =
      if a.clearsResults then []
      else if a.isEvaluation then
        Analysis.ofEntry (run {} actions).limit (run {} actions).entry :: outcomes actions
      else outcomes actions := by
  rw [outcomes, history_concat, List.takeWhile_cons]
  by_cases hclears : a.clearsResults = true
  · simp [hclears]
  · by_cases hevaluates : a.isEvaluation = true
    · simp [hclears, hevaluates, outcomes]
    · simp [hclears, hevaluates, outcomes]

theorem limits_concat (actions : List Action) (a : Action) : limits (actions ++ [a]) =
    if a = .press .clearAll then [] else a.limit?.toList ++ limits actions := by
  rw [limits, List.reverse_concat, List.takeWhile_cons]
  by_cases ha : a = .press .clearAll
  · simp [ha]
  · cases hlimit : a.limit? <;> simp [ha, hlimit, limits]

/-! ## What one action does -/

/-- An evaluation replaces the whole panel if it has a result, and the failure line in any case. -/
theorem evaluate_eq (s : Session) : s.evaluate =
    { s with
      panel := (Analysis.ofEntry s.limit s.entry).toOption.elim s.panel Analysis.panel
      failureText := lineOf (Analysis.ofEntry s.limit s.entry) } := by
  unfold evaluate
  cases Analysis.ofEntry s.limit s.entry <;> rfl

/-- The panel after an action: empty if the results are cleared, and that of the new result if the
entry is evaluated and has one. -/
theorem step_panel (s : Session) (a : Action) : (s.step a).panel =
    if a.clearsResults then {}
    else if a.isEvaluation then
      (Analysis.ofEntry s.limit s.entry).toOption.elim s.panel Analysis.panel
    else s.panel := by
  cases a with
  | press b =>
    cases b with
    | evaluate => exact congrArg Session.panel s.evaluate_eq
    | digit | operator | openParen | closeParen | delete | clearEntry | clearResults
    | clearAll => rfl
  | enter => exact congrArg Session.panel s.evaluate_eq
  | type | escape | setLimit | dragLimit => rfl

/-- The failure line after an action: empty if the results are cleared, and that of the evaluation
if the entry is evaluated. -/
theorem step_failureText (s : Session) (a : Action) : (s.step a).failureText =
    if a.clearsResults then ""
    else if a.isEvaluation then lineOf (Analysis.ofEntry s.limit s.entry)
    else s.failureText := by
  cases a with
  | press b =>
    cases b with
    | evaluate => exact congrArg Session.failureText s.evaluate_eq
    | digit | operator | openParen | closeParen | delete | clearEntry | clearResults
    | clearAll => rfl
  | enter => exact congrArg Session.failureText s.evaluate_eq
  | type | escape | setLimit | dragLimit => rfl

/-- The limit after an action. -/
theorem step_limit (s : Session) (a : Action) : (s.step a).limit =
    if a = .press .clearAll then HeightLimit.standard
    else a.limit?.elim s.limit fun n => HeightLimit.clamp n.toNat := by
  cases a with
  | press b =>
    cases b with
    | evaluate => exact s.evaluate_limit
    | digit | operator | openParen | closeParen | delete | clearEntry | clearResults
    | clearAll => rfl
  | enter => exact s.evaluate_limit
  | type | escape | setLimit | dragLimit => rfl

/-- Both ways to ask for an evaluation come to the same. -/
theorem step_of_isEvaluation {a : Action} (s : Session) (ha : a.isEvaluation = true) :
    s.step a = s.evaluate := by
  cases a with
  | press b =>
    cases b with
    | evaluate => rfl
    | digit | operator | openParen | closeParen | delete | clearEntry | clearResults
    | clearAll => cases ha
  | enter => rfl
  | type | escape | setLimit | dragLimit => cases ha

/-- A failed evaluation changes the failure line only. -/
theorem step_of_error {s : Session} {a : Action} {e : Failure} (ha : a.isEvaluation = true)
    (he : Analysis.ofEntry s.limit s.entry = .error e) :
    s.step a = { s with failureText := e.message } := by
  rw [step_of_isEvaluation s ha, evaluate, he]

/-! ## What a run leads to -/

/-- The panel of a session is that of its latest evaluation that had a result. -/
theorem run_panel (actions : List Action) : (run {} actions).panel =
    ((outcomes actions).findSome? Except.toOption).elim {} Analysis.panel := by
  induction actions using List.reverseRecOn with
  | nil => rfl
  | append_singleton actions a ih =>
    rw [run_concat, step_panel, outcomes_concat, ih]
    split
    · rfl
    · split
      · cases h : Analysis.ofEntry (run {} actions).limit (run {} actions).entry <;> rfl
      · rfl

/-- The failure line of a session is that of its latest evaluation. -/
theorem run_failureText (actions : List Action) :
    (run {} actions).failureText = (outcomes actions).head?.elim "" lineOf := by
  induction actions using List.reverseRecOn with
  | nil => rfl
  | append_singleton actions a ih =>
    rw [run_concat, step_failureText, outcomes_concat, ih]
    split
    · rfl
    · split <;> rfl

/-- The limit of a session is the latest number given to it, brought into its bounds. -/
theorem run_limit (actions : List Action) : (run {} actions).limit =
    (limits actions).head?.elim HeightLimit.standard fun n => HeightLimit.clamp n.toNat := by
  induction actions using List.reverseRecOn with
  | nil => rfl
  | append_singleton actions a ih =>
    rw [run_concat, step_limit, limits_concat, ih]
    split
    · rfl
    · cases a.limit? <;> rfl

/-- The limit of a session is one that a user can set. -/
theorem run_limit_bounds (actions : List Action) :
    1 ≤ (run {} actions).limit ∧ (run {} actions).limit ≤ HeightLimit.ceiling := by
  rw [run_limit]
  cases (limits actions).head? with
  | none => exact ⟨by decide, by decide⟩
  | some n => exact ⟨HeightLimit.one_le_clamp _, HeightLimit.clamp_le_ceiling _⟩

/-- A number brought into the bounds of the limit. -/
theorem clamp_toNat (n : Int) : (HeightLimit.clamp n.toNat : Int) = max 1 (min n 2000) := by
  unfold HeightLimit.clamp HeightLimit.ceiling
  omega

/-- **What is shown comes from the history of evaluations.** After any list of actions the panel
shows the latest evaluation with a result since the results were last cleared, and the failure line
the failure of the latest evaluation, if it failed; without one they are empty. The limit is the
latest number given to it since everything was last cleared, brought into its bounds, or the
standard one. A failed evaluation leaves the entry, the panel and the limit as they are. -/
theorem shown_eq_history (actions : List Action) :
    let s := run {} actions
    s.panel = ((outcomes actions).findSome? Except.toOption).elim {} Analysis.panel ∧
    (s.failureText = match (outcomes actions).head? with
      | some (.error e) => e.message
      | some (.ok _) | none => "") ∧
    1 ≤ s.limit ∧ s.limit ≤ 2000 ∧
    ((s.limit : Int) = match (limits actions).head? with
      | some n => max 1 (min n 2000)
      | none => 200) ∧
    ∀ a e, a.isEvaluation = true → Analysis.ofEntry s.limit s.entry = .error e →
      (s.step a).entry = s.entry ∧ (s.step a).panel = s.panel ∧ (s.step a).limit = s.limit ∧
        (s.step a).failureText = e.message := by
  intro s
  have hlimit : (s.limit : Int) = match (limits actions).head? with
      | some n => max 1 (min n 2000)
      | none => 200 := by
    rw [run_limit]
    cases (limits actions).head? with
    | none => rfl
    | some n => exact clamp_toNat n
  obtain ⟨hone, hceiling⟩ := run_limit_bounds actions
  refine ⟨run_panel actions, ?_, hone, hceiling, hlimit, fun a e ha he => ?_⟩
  · rw [run_failureText]
    cases (outcomes actions).head? with
    | none => rfl
    | some x => cases x <;> rfl
  · rw [step_of_error ha he]
    exact ⟨rfl, rfl, rfl, rfl⟩

/-- `2-3` is evaluated, and then `2-3-`: the panel shows the first, with its infix form `2 - 3` and
its exact value `-1`, and the failure line says what is wrong with the second. Evaluating it once
more changes neither. -/
theorem shown_eq_history_failure :
    let actions : List Action := [.type ['2', '-', '3'], .press .evaluate, .type ['-'], .enter]
    let a := Analysis.ofValue [.num 2, .op .sub, .num 3] (.binary .sub (.num 2) (.num 3))
      (.ofInt 2 - .ofInt 3)
    let s := run {} actions
    s.panel = a.panel ∧ s.panel.infixForm = ['2', ' ', '-', ' ', '3'] ∧
      s.panel.exactValue = ['-', '1'] ∧
      s.failureText = (Failure.entry .trailingOperator).message ∧ s.limit = 200 ∧
      (s.step .enter).panel = s.panel ∧ (s.step .enter).failureText = s.failureText := by
  intro actions a s
  have houtcomes : outcomes actions = [.error (.entry .trailingOperator), .ok a] := rfl
  obtain ⟨hpanel, hfailure, -, -, hlimit, hfailed⟩ := shown_eq_history actions
  rw [houtcomes] at hpanel hfailure
  obtain ⟨-, hpanel', -, hfailure'⟩ := hfailed .enter (.entry .trailingOperator) rfl rfl
  have hpanelA : s.panel = a.panel := hpanel
  have hinfix : a.panel.infixForm = ['2', ' ', '-', ' ', '3'] := by decide
  have hexact : a.panel.exactValue = ['-', '1'] := by decide +kernel
  refine ⟨hpanelA, ?_, ?_, hfailure, Int.ofNat.inj hlimit, hpanel', hfailure'.trans hfailure.symm⟩
  · rw [hpanelA, hinfix]
  · rw [hpanelA, hexact]

end Session

end TreeCalculator
