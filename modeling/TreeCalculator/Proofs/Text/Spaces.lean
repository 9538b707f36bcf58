import Mathlib.Data.List.DropRight
import TreeCalculator.Text

/-!
# Texts without their spaces

How `Text.withoutSpaces` goes with the other operations on texts. Trimming the end of a text removes
spaces only, so it does not change the text without its spaces; after trimming, the last character
is one of that text too.
-/

namespace TreeCalculator.Text

variable {c : Char} {t : Text}

theorem withoutSpaces_append (t u : Text) :
    withoutSpaces (t ++ u) = withoutSpaces t ++ withoutSpaces u := List.filter_append ..

theorem withoutSpaces_cons (hc : c ≠ ' ') (t : Text) :
    withoutSpaces (c :: t) = c :: withoutSpaces t := List.filter_cons_of_pos (by simpa using hc)

theorem withoutSpaces_cons_space (t : Text) : withoutSpaces (' ' :: t) = withoutSpaces t := rfl

theorem withoutSpaces_concat (hc : c ≠ ' ') (t : Text) :
    withoutSpaces (t ++ [c]) = withoutSpaces t ++ [c] := by
  rw [withoutSpaces_append, withoutSpaces_cons hc]
  rfl

theorem withoutSpaces_concat_space (t : Text) : withoutSpaces (t ++ [' ']) = withoutSpaces t := by
  rw [withoutSpaces_append]
  exact List.append_nil _

/-- A text without spaces has none to remove. -/
theorem withoutSpaces_withoutSpaces (t : Text) : t.withoutSpaces.withoutSpaces = t.withoutSpaces :=
  List.filter_eq_self.2 fun _ hc => (List.mem_filter.1 hc).2

theorem withoutSpaces_spaces (n : Nat) : withoutSpaces (spaces n) = [] :=
  List.filter_eq_nil_iff.2 fun c hc => by simp [List.eq_of_mem_replicate hc]

/-- To overwrite a space with another character is to have one character more. -/
theorem length_withoutSpaces_set {k : Nat} (hk : k < t.length) (hspace : t[k] = ' ')
    (hc : c ≠ ' ') : (withoutSpaces (t.set k c)).length = (withoutSpaces t).length + 1 := by
  rw [withoutSpaces, withoutSpaces, ← List.countP_eq_length_filter, ← List.countP_eq_length_filter,
    List.countP_set hk, hspace, if_neg (by decide), if_pos (bne_iff_ne.2 hc), Nat.sub_zero]

/-! ## Trimming -/

theorem trimEnd_eq_rdropWhile (t : Text) : t.trimEnd = t.rdropWhile (· == ' ') := rfl

/-- What is left by trimming is a part of the text, from its start. -/
theorem trimEnd_prefix (t : Text) : t.trimEnd <+: t := List.rdropWhile_prefix _ t

/-- No space is left at the end by trimming. -/
theorem getLast?_trimEnd_ne (t : Text) : t.trimEnd.getLast? ≠ some ' ' := by
  intro h
  obtain ⟨hne, hlast⟩ := List.mem_getLast?_eq_getLast h
  exact List.rdropWhile_last_not _ t hne (beq_iff_eq.2 hlast.symm)

theorem withoutSpaces_trimEnd (t : Text) : t.trimEnd.withoutSpaces = t.withoutSpaces := by
  induction t using List.reverseRecOn with
  | nil => rfl
  | append_singleton t c ih =>
    rw [trimEnd_eq_rdropWhile, List.rdropWhile_concat]
    split
    · next hc =>
      rw [← trimEnd_eq_rdropWhile, ih, eq_of_beq hc, withoutSpaces_concat_space]
    · rfl

/-- To drop the last character, unless it is a space, is to drop the last that is no space. -/
theorem withoutSpaces_dropLast (h : t.getLast? ≠ some ' ') :
    withoutSpaces t.dropLast = t.withoutSpaces.dropLast := by
  rcases List.eq_nil_or_concat' t with rfl | ⟨u, c, rfl⟩
  · rfl
  · have hc : c ≠ ' ' := by simpa using h
    rw [List.dropLast_concat, withoutSpaces_concat hc, List.dropLast_concat]

end TreeCalculator.Text
