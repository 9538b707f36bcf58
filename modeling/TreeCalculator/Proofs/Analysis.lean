import TreeCalculator.Analysis
import TreeCalculator.Proofs.Entry.Reading
import TreeCalculator.Proofs.Expr.Value
import TreeCalculator.Proofs.Stacks.Grouping

/-!
# An accepted entry fails for two reasons only

An entry is checked, scanned, built and evaluated, and each stage could refuse what the one before
lets through. It does not: an accepted entry scans as a sentence, a sentence has a tree, and that
tree is well typed. What is left is a tree above the limit and a division by zero
(`ofEntry_eq_of_phrase`).
-/

namespace TreeCalculator.Analysis

open Token (Phrase)

variable {limit : Nat} {ts : List Token} {t : Expr} {entry : Text} {x : CalcError}

/-- The analysis of a well-typed tree has a result, or the tree divides by zero. -/
theorem ofTree_eq (h : t.WellTyped) : ofTree ts t =
    match t.value with
    | .error _ => .error .divisionByZero
    | .ok value => .ok (ofValue ts t value) := by
  rw [ofTree]
  cases hv : t.value with
  | error y =>
    obtain rfl := h.value_error hv
    rfl
  | ok value => rfl

/-- The analysis of a sentence: its tree, within the limit, is what is evaluated. -/
theorem ofTokens_eq_of_phrase (h : Phrase .expr ts t) : ofTokens limit ts =
    if limit < t.height then .error (.nestingTooDeep limit) else ofTree ts t := by
  rw [ofTokens, Expr.ofTokens_eq_of_phrase h]
  by_cases hlimit : limit < t.height
  · rw [if_pos hlimit, if_neg (Nat.not_le.2 hlimit)]
    rfl
  · rw [if_neg hlimit, if_pos (Nat.not_lt.1 hlimit)]
    rfl

/-- A fault of the entry is the failure of the whole. -/
theorem ofEntry_of_fault {e : EntryError} (h : Entry.fault? entry = some e) :
    ofEntry limit entry = .error (.entry e) := by
  rw [ofEntry, h]

/-- The analysis of an accepted entry is that of its tokens. -/
theorem ofEntry_of_accepted (h : Entry.fault? entry = none) :
    ofEntry limit entry = (ofTokens limit (Token.scan entry)).mapError .calculation := by
  rw [ofEntry, h]

/-- An entry that is refused as it stands has the fault that is reported. -/
theorem fault?_of_ofEntry {e : EntryError} (h : ofEntry limit entry = .error (.entry e)) :
    Entry.fault? entry = some e := by
  cases hfault : Entry.fault? entry with
  | some e' =>
    rw [ofEntry_of_fault hfault] at h
    cases h
    rfl
  | none =>
    rw [ofEntry_of_accepted hfault] at h
    cases hx : ofTokens limit (Token.scan entry) <;> simp [hx, Except.mapError] at h

/-- The analysis is that of the entry without its spaces, if they do not matter to its faults. -/
theorem ofEntry_withoutSpaces (h : Entry.fault? entry.withoutSpaces = Entry.fault? entry) :
    ofEntry limit entry.withoutSpaces = ofEntry limit entry := by
  rw [ofEntry, ofEntry, h, Token.scan_withoutSpaces]

/-- What comes of an accepted entry, in terms of the tree of its tokens. -/
theorem ofEntry_eq_of_phrase (h : Entry.fault? entry = none)
    (ht : Phrase .expr (Token.scan entry) t) : ofEntry limit entry =
      if limit < t.height then .error (.calculation (.nestingTooDeep limit))
      else match t.value with
        | .error _ => .error (.calculation .divisionByZero)
        | .ok value => .ok (ofValue (Token.scan entry) t value) := by
  rw [ofEntry_of_accepted h, ofTokens_eq_of_phrase ht, ofTree_eq ht.wellTyped]
  by_cases hlimit : limit < t.height
  · rw [if_pos hlimit, if_pos hlimit]
    rfl
  · rw [if_neg hlimit, if_neg hlimit]
    cases t.value <;> rfl

/-- An entry has a result exactly if it is accepted, its tree is within the limit and the tree has a
value. -/
theorem ofEntry_eq_ok_iff {a : Analysis} : ofEntry limit entry = .ok a ↔
    Entry.fault? entry = none ∧ ∃ t value, a = ofValue (Token.scan entry) t value ∧
      Phrase .expr (Token.scan entry) t ∧ t.height ≤ limit ∧ t.value = .ok value := by
  constructor
  · intro ha
    cases h : Entry.fault? entry with
    | some e =>
      rw [ofEntry_of_fault h] at ha
      cases ha
    | none =>
      obtain ⟨t, ht⟩ := Entry.exists_phrase_scan h
      rw [ofEntry_eq_of_phrase h ht] at ha
      split at ha
      · cases ha
      · next hheight =>
        split at ha
        · cases ha
        · next value hvalue =>
          cases ha
          exact ⟨rfl, t, value, rfl, ht, Nat.le_of_not_lt hheight, hvalue⟩
  · rintro ⟨h, t, value, rfl, ht, hheight, hvalue⟩
    rw [ofEntry_eq_of_phrase h ht, if_neg (Nat.not_lt.2 hheight), hvalue]

end TreeCalculator.Analysis
