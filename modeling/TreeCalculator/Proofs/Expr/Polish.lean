import TreeCalculator.Expr.Written
import TreeCalculator.Proofs.Text.Decimal

/-!
# Reading the Polish forms

In both Polish forms a word is a literal or the symbol of an operator, and no word has a space
in it, so splitting a form at its spaces gives the words back (`Text.words_unwords`).

A `-` that is a word is a sign or a subtraction, and one form alone does not tell which: `- - 1 2`
is the Polish form of `-(1 - 2)` and of `(-1) - 2`. The two forms together do. Read side by side,
they determine where a tree ends (`eq_of_words_append`): behind its first operand, the reverse
Polish form goes on with a literal if there is a second operand, and with the operator if there is
not.

Without signs one form is enough. A stack machine reads the words of the reverse Polish form from
left to right, or those of the Polish form from right to left, and ends with the tree alone on its
stack (`readWords?_reversePolish`, `readWords?_polish`).
-/

namespace TreeCalculator

namespace Text

/-- The words of a text, which single spaces separate. -/
def words (t : Text) : List Text := t.splitOn ' '

theorem words_unwords {ws : List Text} (hne : ws ≠ []) (hws : ∀ w ∈ ws, ' ' ∉ w) :
    words (unwords ws) = ws := List.splitOn_intercalate ' ' hws hne

end Text

namespace Expr

variable {e e' : Expr} {o : Operator} {n : Int} {w : Text} {s s' t t' ws : List Text}

/-! ## The words of a form -/

/-- A word of a Polish form. -/
inductive IsWord : Text → Prop where
  | num (n : Int) : IsWord (Text.ofInt n)
  | symbol (o : Operator) : IsWord [o.symbol]

theorem IsWord.space_not_mem (h : IsWord w) : ' ' ∉ w := by
  cases h with
  | num n => exact fun hmem => Text.ne_space_of_mem_ofInt hmem rfl
  | symbol o => exact fun hmem => o.symbol_ne_space (List.mem_singleton.1 hmem).symm

theorem isWord_of_mem_polishWords (h : w ∈ e.polishWords) : IsWord w := by
  induction e with
  | num n =>
    rw [List.mem_singleton.1 h]
    exact .num n
  | unary o x ih =>
    rcases List.mem_cons.1 h with rfl | h
    · exact .symbol o
    · exact ih h
  | binary o l r ihl ihr =>
    rcases List.mem_cons.1 h with rfl | h
    · exact .symbol o
    · exact (List.mem_append.1 h).elim ihl ihr

theorem isWord_of_mem_reversePolishWords (h : w ∈ e.reversePolishWords) : IsWord w := by
  induction e with
  | num n =>
    rw [List.mem_singleton.1 h]
    exact .num n
  | unary o x ih =>
    rcases List.mem_append.1 h with h | h
    · exact ih h
    · rw [List.mem_singleton.1 h]
      exact .symbol o
  | binary o l r ihl ihr =>
    rcases List.mem_append.1 h with h | h
    · exact (List.mem_append.1 h).elim ihl ihr
    · rw [List.mem_singleton.1 h]
      exact .symbol o

theorem polishWords_ne_nil (e : Expr) : e.polishWords ≠ [] := by
  cases e <;> exact List.cons_ne_nil _ _

/-- The reverse Polish form begins with a literal. -/
theorem exists_reversePolishWords_eq (e : Expr) :
    ∃ n ws, e.reversePolishWords = Text.ofInt n :: ws := by
  induction e with
  | num n => exact ⟨n, [], rfl⟩
  | unary o x ih =>
    obtain ⟨n, ws, h⟩ := ih
    exact ⟨n, ws ++ [[o.symbol]], by rw [reversePolishWords, h, List.cons_append]⟩
  | binary o l r ihl _ =>
    obtain ⟨n, ws, h⟩ := ihl
    refine ⟨n, ws ++ r.reversePolishWords ++ [[o.symbol]], ?_⟩
    rw [reversePolishWords, h, List.cons_append, List.cons_append]

theorem reversePolishWords_ne_nil (e : Expr) : e.reversePolishWords ≠ [] := by
  obtain ⟨n, ws, h⟩ := e.exists_reversePolishWords_eq
  exact h ▸ List.cons_ne_nil _ _

/-- Splitting the Polish form at its spaces gives its words. -/
theorem words_polish (e : Expr) : Text.words e.polish = e.polishWords :=
  Text.words_unwords e.polishWords_ne_nil fun _ h => (isWord_of_mem_polishWords h).space_not_mem

/-- And so does splitting the reverse Polish form. -/
theorem words_reversePolish (e : Expr) : Text.words e.reversePolish = e.reversePolishWords :=
  Text.words_unwords e.reversePolishWords_ne_nil fun _ h =>
    (isWord_of_mem_reversePolishWords h).space_not_mem

/-- No number, not even a negative one, is written like an operator. -/
theorem ofInt_ne_symbol (n : Int) (o : Operator) : Text.ofInt n ≠ [o.symbol] := by
  intro h
  obtain ⟨c, hc, hdigit⟩ := Text.isDigit_middle_ofInt n
  have hmem : c ∈ [o.symbol] := h ▸ List.mem_of_getElem? hc
  rw [List.mem_singleton.1 hmem, o.isDigit_symbol] at hdigit
  cases hdigit

/-! ## Both forms side by side -/

theorem polishWords_binary_append (o : Operator) (l r : Expr) (s : List Text) :
    (binary o l r).polishWords ++ s =
      [o.symbol] :: (l.polishWords ++ (r.polishWords ++ s)) := by
  rw [polishWords, List.cons_append, List.append_assoc]

theorem reversePolishWords_unary_append (o : Operator) (x : Expr) (t : List Text) :
    (unary o x).reversePolishWords ++ t = x.reversePolishWords ++ [o.symbol] :: t := by
  rw [reversePolishWords, List.append_assoc, List.singleton_append]

theorem reversePolishWords_binary_append (o : Operator) (l r : Expr) (t : List Text) :
    (binary o l r).reversePolishWords ++ t =
      l.reversePolishWords ++ (r.reversePolishWords ++ [o.symbol] :: t) := by
  rw [reversePolishWords, List.append_assoc, List.append_assoc, List.singleton_append]

/-- What follows a first operand tells whether there is a second one: the literal that the second
begins with is not the symbol of a sign. -/
theorem reversePolishWords_append_ne_symbol (e : Expr) (o : Operator) :
    e.reversePolishWords ++ s ≠ [o.symbol] :: t := by
  intro h
  obtain ⟨n, ws, hwords⟩ := e.exists_reversePolishWords_eq
  rw [hwords, List.cons_append] at h
  exact ofInt_ne_symbol n o (List.cons.inj h).1

/-- Only one tree begins, with its Polish form and its reverse Polish form, two given lists of
words, whatever follows it in either. -/
theorem eq_of_words_append (he : e.WellTyped) (he' : e'.WellTyped)
    (hp : e.polishWords ++ s = e'.polishWords ++ s')
    (hr : e.reversePolishWords ++ t = e'.reversePolishWords ++ t') : e = e' := by
  -- the words behind the tree are left open: they are those of the second operand, or none
  induction e generalizing e' s s' t t' with
  | num m =>
    cases e' with
    | num n => rw [Text.ofInt_injective (List.cons.inj hp).1]
    | unary o x => exact absurd (List.cons.inj hp).1 (ofInt_ne_symbol m o)
    | binary o l r => exact absurd (List.cons.inj hp).1 (ofInt_ne_symbol m o)
  | unary o x ih =>
    obtain ⟨ho, hx⟩ := he
    rw [reversePolishWords_unary_append] at hr
    cases e' with
    | num n => exact absurd (List.cons.inj hp).1.symm (ofInt_ne_symbol n o)
    | unary o' x' =>
      obtain ⟨ho', hx'⟩ := he'
      rw [reversePolishWords_unary_append] at hr
      rw [Operator.eq_neg_of_isUnary ho, Operator.eq_neg_of_isUnary ho',
        ih hx hx' (List.cons.inj hp).2 hr]
    | binary o' l' r' =>
      rw [polishWords_binary_append] at hp
      rw [reversePolishWords_binary_append] at hr
      obtain rfl := ih hx he'.2.1 (List.cons.inj hp).2 hr
      exact absurd (List.append_cancel_left hr).symm (reversePolishWords_append_ne_symbol r' o)
  | binary o l r ihl ihr =>
    obtain ⟨ho, hl, hright⟩ := he
    rw [polishWords_binary_append] at hp
    rw [reversePolishWords_binary_append] at hr
    cases e' with
    | num n => exact absurd (List.cons.inj hp).1.symm (ofInt_ne_symbol n o)
    | unary o' x' =>
      rw [reversePolishWords_unary_append] at hr
      obtain rfl := ihl hl he'.2 (List.cons.inj hp).2 hr
      exact absurd (List.append_cancel_left hr) (reversePolishWords_append_ne_symbol r o')
    | binary o' l' r' =>
      obtain ⟨ho', hl', hright'⟩ := he'
      rw [polishWords_binary_append] at hp
      rw [reversePolishWords_binary_append] at hr
      obtain ⟨hsymbol, hp⟩ := List.cons.inj hp
      obtain rfl := ihl hl hl' hp hr
      obtain rfl := ihr hright hright' (List.append_cancel_left hp) (List.append_cancel_left hr)
      rw [Operator.eq_of_symbol_eq ho ho' (List.cons.inj hsymbol).1]

/-- **The two Polish forms together determine the tree.** Well-typed trees with the same Polish
form and the same reverse Polish form are the same tree, although signs and subtractions are
written alike. -/
theorem polish_reversePolish_injective (he : e.WellTyped) (he' : e'.WellTyped)
    (hp : e.polish = e'.polish) (hr : e.reversePolish = e'.reversePolish) : e = e' := by
  have hpwords : e.polishWords = e'.polishWords := by
    rw [← words_polish, hp, words_polish]
  have hrwords : e.reversePolishWords = e'.reversePolishWords := by
    rw [← words_reversePolish, hr, words_reversePolish]
  exact eq_of_words_append he he' (congrArg (· ++ []) hpwords) (congrArg (· ++ []) hrwords)

/-- The tree of `-(1 - -2)`. Its Polish form is also that of `(-1) - -2`, its reverse Polish form
also that of `1 - (-(-2))`, and no other tree has both. -/
theorem polish_reversePolish_injective_minuses :
    let e : Expr := .unary .neg (.binary .sub (.num 1) (.num (-2)))
    let e' : Expr := .unary .neg (.binary .sub (.num (.ofNat 1)) (.num (.negSucc 1)))
    e.WellTyped ∧ e'.WellTyped ∧
      e.polish = "- - 1 -2".toList ∧
      e.polish = (Expr.binary .sub (.unary .neg (.num 1)) (.num (-2))).polish ∧
      e.reversePolish = "1 -2 - -".toList ∧
      e.reversePolish = (Expr.binary .sub (.num 1) (.unary .neg (.num (-2)))).reversePolish ∧
      e.polish = e'.polish ∧ e.reversePolish = e'.reversePolish ∧ e = e' := by
  intro e e'
  have htyped : e.WellTyped := ⟨rfl, rfl, trivial, trivial⟩
  have htyped' : e'.WellTyped := ⟨rfl, rfl, trivial, trivial⟩
  have hp : e.polish = e'.polish := rfl
  have hr : e.reversePolish = e'.reversePolish := rfl
  exact ⟨htyped, htyped', rfl, rfl, rfl, rfl, hp, hr,
    polish_reversePolish_injective htyped htyped' hp hr⟩

/-! ## The stack machine -/

/-- A tree of literals and of operators between two operands. -/
def SignFree : Expr → Prop
  | num _ => True
  | unary .. => False
  | binary o l r => o.isUnary = false ∧ l.SignFree ∧ r.SignFree

/-- The operator between two operands that a word stands for. A negative literal stands for none:
it has more than its `-`. -/
def operatorOf? : Text → Option Operator
  | [c] => Operator.ofSymbol? c
  | _ => none

/-- The node of an operator whose operands lie on the stack, `x` on top of `y`. The operand on top
is the one that stands on the side `top`. -/
def joined (top : Side) (o : Operator) (x y : Expr) : Expr :=
  match top with
  | .left => binary o x y
  | .right => binary o y x

/-- The stack after a word: a number is put on it, and an operator takes two operands from it and
puts its node there. There is none if fewer than two operands are left, and none after a word that
is neither. -/
def readWord? (top : Side) (stack : List Expr) (w : Text) : Option (List Expr) :=
  match operatorOf? w, stack with
  | some o, x :: y :: rest => some (joined top o x y :: rest)
  | some _, _ => none
  | none, _ => (Text.toInt? w).map fun n => num n :: stack

/-- The stack after a list of words. -/
def readWords? (top : Side) (stack : List Expr) (ws : List Text) : Option (List Expr) :=
  ws.foldlM (readWord? top) stack

variable {top : Side} {x y : Expr} {stack : List Expr}

theorem readWords?_cons : readWords? top stack (w :: ws) =
    (readWord? top stack w).bind fun stack => readWords? top stack ws := rfl

theorem operatorOf?_symbol (ho : o.isUnary = false) : operatorOf? [o.symbol] = some o :=
  Operator.ofSymbol?_symbol ho

theorem operatorOf?_ofInt (n : Int) : operatorOf? (Text.ofInt n) = none := by
  rw [Option.eq_none_iff_forall_ne_some]
  intro o h
  unfold operatorOf? at h
  split at h
  · next c hc => exact ofInt_ne_symbol n o (Operator.eq_symbol_of_ofSymbol? h ▸ hc)
  · cases h

/-- A number is put on the stack. -/
theorem readWord?_ofInt (n : Int) :
    readWord? top stack (Text.ofInt n) = some (num n :: stack) := by
  unfold readWord?
  rw [operatorOf?_ofInt, Text.toInt?_ofInt]
  rfl

/-- An operator replaces its operands by its node. -/
theorem readWord?_symbol (ho : o.isUnary = false) :
    readWord? top (x :: y :: stack) [o.symbol] = some (joined top o x y :: stack) := by
  unfold readWord?
  rw [operatorOf?_symbol ho]

/-- The words of a reverse Polish form put its tree on the stack. -/
theorem readWords?_reversePolishWords (he : e.SignFree) (stack : List Expr) (ws : List Text) :
    readWords? .right stack (e.reversePolishWords ++ ws) = readWords? .right (e :: stack) ws := by
  induction e generalizing stack ws with
  | num n =>
    rw [reversePolishWords, List.singleton_append, readWords?_cons, readWord?_ofInt]
    rfl
  | unary o x => exact he.elim
  | binary o l r ihl ihr =>
    obtain ⟨ho, hl, hr⟩ := he
    rw [reversePolishWords_binary_append, ihl hl, ihr hr, readWords?_cons, readWord?_symbol ho]
    rfl

/-- So do the words of a Polish form, read from the last to the first. -/
theorem readWords?_polishWords (he : e.SignFree) (stack : List Expr) (ws : List Text) :
    readWords? .left stack (e.polishWords.reverse ++ ws) = readWords? .left (e :: stack) ws := by
  induction e generalizing stack ws with
  | num n =>
    rw [polishWords, List.reverse_singleton, List.singleton_append, readWords?_cons,
      readWord?_ofInt]
    rfl
  | unary o x => exact he.elim
  | binary o l r ihl ihr =>
    obtain ⟨ho, hl, hr⟩ := he
    rw [polishWords, List.reverse_cons, List.reverse_append, List.append_assoc, List.append_assoc,
      ihr hr, ihl hl, List.singleton_append, readWords?_cons, readWord?_symbol ho]
    rfl

/-- Read from left to right, the reverse Polish form leaves its tree alone on the stack. -/
theorem readWords?_reversePolish (he : e.SignFree) :
    readWords? .right [] (Text.words e.reversePolish) = some [e] := by
  have hread := readWords?_reversePolishWords he [] []
  rwa [List.append_nil, ← words_reversePolish] at hread

/-- Read from right to left, the Polish form does. -/
theorem readWords?_polish (he : e.SignFree) :
    readWords? .left [] (Text.words e.polish).reverse = some [e] := by
  have hread := readWords?_polishWords he [] []
  rwa [List.append_nil, ← words_polish] at hread

/-- **Without signs, each Polish form can be read back by itself.** A stack machine that reads the
reverse Polish form from left to right, or the Polish form from right to left, never runs out of
operands and ends with the tree alone on its stack. So no other tree without signs has the same
Polish form or the same reverse Polish form. -/
theorem readWords?_forms (he : e.SignFree) :
    readWords? .right [] (Text.words e.reversePolish) = some [e] ∧
      readWords? .left [] (Text.words e.polish).reverse = some [e] ∧
      ∀ e' : Expr, e'.SignFree →
        (e.polish = e'.polish → e = e') ∧ (e.reversePolish = e'.reversePolish → e = e') := by
  have hr := readWords?_reversePolish he
  have hp := readWords?_polish he
  refine ⟨hr, hp, fun e' he' => ⟨fun h => ?_, fun h => ?_⟩⟩
  · rw [h, readWords?_polish he'] at hp
    exact (List.cons.inj (Option.some.inj hp)).1.symm
  · rw [h, readWords?_reversePolish he'] at hr
    exact (List.cons.inj (Option.some.inj hr)).1.symm

/-- The tree of `(-2 - 3) ^ (4 / -5)`, where a `-` begins two literals and is one operator. -/
theorem readWords?_forms_minuses :
    let e : Expr := .binary .pow (.binary .sub (.num (-2)) (.num 3))
      (.binary .div (.num 4) (.num (-5)))
    e.SignFree ∧
      e.reversePolish = "-2 3 - 4 -5 / ^".toList ∧ e.polish = "^ - -2 3 / 4 -5".toList ∧
      readWords? .right [] (Text.words e.reversePolish) = some [e] ∧
      readWords? .left [] (Text.words e.polish).reverse = some [e] ∧
      ∀ e' : Expr, e'.SignFree →
        (e.polish = e'.polish → e = e') ∧ (e.reversePolish = e'.reversePolish → e = e') := by
  intro e
  have hsigns : e.SignFree := ⟨rfl, ⟨rfl, trivial, trivial⟩, rfl, trivial, trivial⟩
  exact ⟨hsigns, rfl, rfl, readWords?_forms hsigns⟩

end Expr

end TreeCalculator
