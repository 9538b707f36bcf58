import TreeCalculator.Proofs.Expr.Height
import TreeCalculator.Proofs.Stacks.Basic
import TreeCalculator.Proofs.Token.Grammar

/-!
# The stacks group tokens as the grammar does

Inside a phrase the stacks hold a part of its tree only: the operators on the right edge still
wait for what follows. So `Builds` compares the stacks after a phrase with the tree put on them at
once, not as they stand but once the waiting operators of the phrase are settled. Where the phrase
stands matters as little as it can: the operator below must bind too tightly to be reduced inside
the phrase (`Holds`), and whatever follows must settle all of the phrase (`Releases`).

The equation of `Builds` covers the height limit too. A node of a tree is at most as high as the
tree, so a node that is too high fails where the whole tree would have failed.
-/

namespace TreeCalculator.Stacks

open Token (Category Phrase)

/-- `p` lets go of every operator that may stand at the top of a phrase of the category. -/
def Releases (k : Category) (p : Operator → Bool) : Prop :=
  ∀ o : Operator, k.precedence ≤ o.precedence → p o = true

/-- No operator at the top of a phrase of the category reduces the operator that waits on top. -/
def Holds (k : Category) (ps : List Token) : Prop :=
  OnTop (fun waiting => ∀ o : Operator, k.precedence ≤ o.precedence →
    waiting.takesOperandBefore o = false) ps

/-- Reading the tokens amounts to putting the operand on the stack, once the operators that
waited in the phrase are settled. -/
def Builds (limit : Nat) (k : Category) (ts : List Token) (x : Operand) : Prop :=
  ∀ (s : Stacks) (p : Operator → Bool), Holds k s.pending → Releases k p →
    (run limit s ts >>= settle limit p) = (put limit x s >>= settle limit p)

variable {limit : Nat} {k k' : Category} {p : Operator → Bool} {o : Operator} {x l r : Operand}
  {xs : List Operand} {ps ts us : List Token} {e : Expr}

/-! ## Where a phrase may stand -/

theorem Releases.tighten (h : Releases k p) (hk : k.precedence ≤ k'.precedence) :
    Releases k' p := fun o ho => h o (Nat.le_trans hk ho)

theorem Holds.tighten (h : Holds k ps) (hk : k.precedence ≤ k'.precedence) : Holds k' ps :=
  h.imp fun _ hwaiting o ho => hwaiting o (Nat.le_trans hk ho)

/-- An operator between two operands reduces all that waits in its left operand. -/
theorem releases_left (ho : o.isUnary = false) :
    Releases (Category.ofOperator o).left (·.takesOperandBefore o) := by
  intro top htop
  rw [Operator.takesOperandBefore_eq_true_iff]
  cases o with
  | add | sub | mul | div =>
    rcases Nat.lt_or_eq_of_le htop with h | h
    · exact .inl h
    · exact .inr ⟨h, rfl⟩
  | pow => exact .inl htop
  | neg => cases ho

/-- Nothing in its right operand reduces an operator. -/
theorem holds_right : Holds (Category.ofOperator o).right (.op o :: ps) := by
  refine .op ps fun next hnext => ?_
  rw [Bool.eq_false_iff, Ne, Operator.takesOperandBefore_eq_true_iff]
  rintro (h | ⟨h, hassoc⟩)
  · cases o <;> exact absurd (Nat.lt_of_le_of_lt hnext h) (by decide)
  · cases o with
    | add | sub | mul | div => exact absurd (h ▸ hnext) (by decide)
    | pow | neg =>
      -- `next` has the same precedence, so it groups to the right too
      cases next <;> first | exact absurd h (by decide) | exact absurd hassoc (by decide)

/-- What may follow a phrase of its own category settles the operator. -/
theorem Releases.self (h : Releases (Category.ofOperator o) p) : p o = true :=
  h o (Nat.le_of_eq (Category.precedence_ofOperator o))

/-- Below a phrase, no operator waits that an operator of the phrase's own category reduces. -/
theorem Holds.settle (h : Holds (Category.ofOperator o) ps) :
    settle limit (·.takesOperandBefore o) ⟨xs, ps⟩ = .ok ⟨xs, ps⟩ := by
  refine settle_of_settled (h.imp fun _ hwaiting => ?_)
  exact hwaiting o (Nat.le_of_eq (Category.precedence_ofOperator o))

/-! ## Reading a phrase -/

/-- A number is put on the stack as it is read. -/
theorem Builds.num (n : Int) : Builds limit k [.num n] (.ofInt n) := by
  intro s p _ _
  rw [run_singleton, step_num]

/-- What is built as a phrase of a tight category is built as one of every looser category. -/
theorem Builds.loosen (h : Builds limit k' ts x) (hk : k.precedence ≤ k'.precedence) :
    Builds limit k ts x :=
  fun s p hs hp => h s p (hs.tighten hk) (hp.tighten hk)

/-- A sign waits until its operand is settled, and then takes it. -/
theorem Builds.sign (h : Builds limit .signed ts x) :
    Builds limit .signed (.op .neg :: ts) (.unary .neg x) := by
  intro s p hs hp
  have hstep : step limit s (.op .neg) = .ok ⟨s.operands, .op .neg :: s.pending⟩ := by
    rw [step_op, Holds.settle (o := .neg) hs]
    rfl
  rw [run_cons, hstep]
  show (run limit ⟨s.operands, .op .neg :: s.pending⟩ ts >>= settle limit p) = _
  rw [h ⟨s.operands, .op .neg :: s.pending⟩ p (holds_right (o := .neg)) hp]
  rcases Nat.lt_or_ge limit x.height with hx | hx
  · rw [put_of_lt hx, put_of_lt (x := .unary .neg x) (Nat.lt_succ_of_lt hx)]
  · rw [put_of_le hx]
    exact settle_sign (hp.self (o := .neg))

/-- An operator takes its left operand as soon as it is read, and its right one once that is
settled. -/
theorem Builds.binary (ho : o.isUnary = false)
    (hl : Builds limit (Category.ofOperator o).left ts l)
    (hr : Builds limit (Category.ofOperator o).right us r) :
    Builds limit (.ofOperator o) (ts ++ .op o :: us) (.binary o l r) := by
  intro s p hs hp
  have hsplit : (run limit s (ts ++ .op o :: us) >>= settle limit p) =
      (run limit s ts >>= settle limit (·.takesOperandBefore o)) >>= fun s =>
        run limit ⟨s.operands, .op o :: s.pending⟩ us >>= settle limit p := by
    rw [run_append]
    simp only [run_cons, step_op, bind_assoc]
    rfl
  rw [hsplit, hl s _ (hs.tighten (Category.precedence_le_left _)) (releases_left ho)]
  rcases Nat.lt_or_ge limit l.height with hxl | hxl
  · have hx : limit < (Operand.binary o l r).height :=
      Nat.lt_succ_of_lt (Nat.lt_of_lt_of_le hxl (Nat.le_max_left ..))
    rw [put_of_lt hxl, put_of_lt hx]
    rfl
  rw [put_of_le hxl]
  show (settle limit _ ⟨l :: s.operands, s.pending⟩ >>= _) = _
  rw [hs.settle]
  show (run limit ⟨l :: s.operands, .op o :: s.pending⟩ us >>= settle limit p) = _
  rw [hr ⟨l :: s.operands, .op o :: s.pending⟩ p holds_right
    (hp.tighten (Category.precedence_le_right _))]
  rcases Nat.lt_or_ge limit r.height with hxr | hxr
  · have hx : limit < (Operand.binary o l r).height :=
      Nat.lt_succ_of_lt (Nat.lt_of_lt_of_le hxr (Nat.le_max_right ..))
    rw [put_of_lt hxr, put_of_lt hx]
  · rw [put_of_le hxr]
    exact settle_binary ho hp.self

/-- A closing parenthesis settles all that waits above its partner. -/
theorem Builds.paren (h : Builds limit .expr ts x) :
    Builds limit k (.lparen :: (ts ++ [.rparen])) x := by
  intro s p _ _
  rw [run_group, h ⟨s.operands, .lparen :: s.pending⟩ _ (.lparen _) (fun _ _ => rfl)]
  rcases Nat.lt_or_ge limit x.height with hx | hx
  · rw [put_of_lt hx, put_of_lt hx]
    rfl
  · rw [put_of_le hx, put_of_le hx]
    rfl

/-- Reading a phrase amounts to putting its tree on the stack. -/
theorem builds_phrase (h : Phrase k ts e) : Builds limit k ts ⟨e, e.height⟩ := by
  induction h with
  | ofTerm _ ih | ofFactor _ ih | ofSigned _ ih => exact ih.loosen (by decide)
  | sum ho _ _ ihl ihr =>
    rw [Expr.height_binary]
    rcases ho with rfl | rfl
    · exact Builds.binary (o := .add) rfl ihl ihr
    · exact Builds.binary (o := .sub) rfl ihl ihr
  | product ho _ _ ihl ihr =>
    rw [Expr.height_binary]
    rcases ho with rfl | rfl
    · exact Builds.binary (o := .mul) rfl ihl ihr
    · exact Builds.binary (o := .div) rfl ihl ihr
  | power _ _ ihl ihr =>
    rw [Expr.height_binary]
    exact Builds.binary (o := .pow) rfl ihl ihr
  | sign _ ih =>
    rw [Expr.height_unary]
    exact ih.sign
  | num n =>
    rw [Expr.height_num]
    exact Builds.num n
  | paren _ ih => exact ih.paren

end TreeCalculator.Stacks

namespace TreeCalculator

open Token (Phrase)

variable {limit : Nat} {ts : List Token} {e e' : Expr}

/-- The tree of a sentence is built unless it is too high, and then the limit is reported. -/
theorem Expr.ofTokens_eq_of_phrase (h : Phrase .expr ts e) :
    Expr.ofTokens limit ts =
      if e.height ≤ limit then .ok (some e) else .error (.nestingTooDeep limit) := by
  rw [Expr.ofTokens_eq, Stacks.builds_phrase h {} _ .nil (fun _ _ => rfl)]
  split
  · next hle =>
    rw [Stacks.put_of_le hle]
    rfl
  · next hlt =>
    rw [Stacks.put_of_lt (Nat.lt_of_not_le hlt)]
    rfl

/-- A sentence has one tree: under a limit that no tree of it exceeds, the stacks return it. -/
theorem Token.Phrase.tree_unique (h : Phrase .expr ts e) (h' : Phrase .expr ts e') : e' = e := by
  have hb : Expr.ofTokens (max e.height e'.height) ts = .ok (some e) := by
    rw [Expr.ofTokens_eq_of_phrase h, if_pos (Nat.le_max_left ..)]
  rw [Expr.ofTokens_eq_of_phrase h', if_pos (Nat.le_max_right ..)] at hb
  injection hb with hb
  exact Option.some.inj hb

/-- **The stacks compute the tree of the grammar.** On a sentence of the token grammar the result
is its tree, if the limit admits the height of it, and otherwise the limit is what is reported,
wherever in the run it was exceeded. No sentence has two trees. -/
theorem Expr.ofTokens_sentence (h : Phrase .expr ts e) (limit : Nat) :
    (Expr.ofTokens limit ts =
      if e.height ≤ limit then .ok (some e) else .error (.nestingTooDeep limit)) ∧
    ∀ e', Phrase .expr ts e' → e' = e :=
  ⟨Expr.ofTokens_eq_of_phrase h, fun _ h' => h.tree_unique h'⟩

/-- `2 ^ u- 3 - ( 4 - 5 ) - 6` is a sentence with a tree of five levels, which a limit of five
admits and a limit of four refuses. -/
theorem Expr.ofTokens_sentence_mixed :
    let ts : List Token := [.num 2, .op .pow, .op .neg, .num 3, .op .sub, .lparen, .num 4, .op .sub,
      .num 5, .rparen, .op .sub, .num 6]
    let e : Expr := .binary .sub (.binary .sub (.binary .pow (.num 2) (.unary .neg (.num 3)))
      (.binary .sub (.num 4) (.num 5))) (.num 6)
    Phrase .expr ts e ∧ Expr.ofTokens 5 ts = .ok (some e) ∧
      Expr.ofTokens 4 ts = .error (.nestingTooDeep 4) := by
  intro ts e
  have hdiff : Phrase .expr [.num 4, .op .sub, .num 5] (.binary .sub (.num 4) (.num 5)) :=
    .sum (.inr rfl) (.ofTerm (.ofFactor (.ofSigned (.num 4)))) (.ofFactor (.ofSigned (.num 5)))
  have h : Phrase .expr ts e :=
    .sum (.inr rfl)
      (.sum (.inr rfl)
        (.ofTerm (.ofFactor (.power (.num 2) (.ofSigned (.sign (.num 3))))))
        (.ofFactor (.ofSigned (.paren hdiff))))
      (.ofFactor (.ofSigned (.num 6)))
  have he : e.height = 5 := by simp [e]
  refine ⟨h, ?_, ?_⟩
  · rw [(Expr.ofTokens_sentence h 5).1, he]
    rfl
  · rw [(Expr.ofTokens_sentence h 4).1, he]
    rfl

end TreeCalculator
