import Reckon.Proofs.Leftovers

/-!
# Parentheses that do not match

Whether the parentheses of a list match can be counted: no front of it closes more of them than it
opens, and all of it closes as many as it opens (`matches_iff`). No move changes whether the marks
on the stack and the unread parentheses match (`matches_of_moves`). So a mark is left over or
missing only where the counts are wrong, and where they are wrong no evaluation gets as far as the
operands that are left at the end.
-/

namespace Reckon

open Position

variable {α : Type}

/-! ## Counting parentheses

`Matches` follows the parentheses with a depth, as a reader of the list would. The counts say the
same without a reader, by comparing every front of the list with the whole. -/

namespace Token

/-- Whether the token opens a parenthesis. -/
def isLeftParen : Token α → Bool
  | leftParen => true
  | number _ | operator _ | rightParen => false

/-- Whether the token closes one. -/
def isRightParen : Token α → Bool
  | rightParen => true
  | number _ | operator _ | leftParen => false

end Token

/-- How many parentheses are opened. -/
def openings (ts : List (Token α)) : Nat :=
  ts.countP Token.isLeftParen

/-- How many parentheses are closed. -/
def closings (ts : List (Token α)) : Nat :=
  ts.countP Token.isRightParen

@[simp] theorem openings_nil : openings ([] : List (Token α)) = 0 := rfl

@[simp] theorem openings_cons (t : Token α) (ts : List (Token α)) :
    openings (t :: ts) = openings ts + if t.isLeftParen then 1 else 0 :=
  List.countP_cons

@[simp] theorem closings_nil : closings ([] : List (Token α)) = 0 := rfl

@[simp] theorem closings_cons (t : Token α) (ts : List (Token α)) :
    closings (t :: ts) = closings ts + if t.isRightParen then 1 else 0 :=
  List.countP_cons

/-- A front closes more parentheses than it opens, or the whole list does not close as many as it
opens. -/
def Unbalanced (ts : List (Token α)) : Prop :=
  (∃ front, front <+: ts ∧ openings front < closings front) ∨ openings ts ≠ closings ts

/-- The fronts of a list that has a first token. -/
theorem forall_prefix_cons {P : List (Token α) → Prop} {t : Token α} {ts : List (Token α)} :
    (∀ front, front <+: t :: ts → P front) ↔ P [] ∧ ∀ front, front <+: ts → P (t :: front) := by
  constructor
  · intro h
    exact ⟨h [] List.nil_prefix, fun front hfront => h _ ((List.prefix_cons_inj t).2 hfront)⟩
  · rintro ⟨hnil, hcons⟩ front hfront
    rcases List.prefix_cons_iff.1 hfront with rfl | ⟨rest, rfl, hrest⟩
    · exact hnil
    · exact hcons rest hrest

/-- With `depth` parentheses open already, the rest of a list matches if no front of it closes more
than are open and nothing is open behind it. -/
theorem matches_iff (depth : Nat) (ts : List (Token α)) :
    Matches depth ts ↔ (∀ front, front <+: ts → closings front ≤ depth + openings front)
      ∧ depth + openings ts = closings ts := by
  induction ts generalizing depth with
  | nil => simp
  | cons t ts ih =>
    rw [forall_prefix_cons]
    cases t with
    | number x => simp [ih, Token.isLeftParen, Token.isRightParen]
    | operator op => simp [ih, Token.isLeftParen, Token.isRightParen]
    | leftParen =>
      simp [ih, Token.isLeftParen, Token.isRightParen, Nat.add_assoc, Nat.add_comm 1]
    | rightParen =>
      cases depth with
      | succ depth =>
        simp [ih, Token.isLeftParen, Token.isRightParen, Nat.add_right_comm depth 1]
      | zero =>
        -- the first token closes what is not open
        have hfirst : ¬∀ front, front <+: ts →
            closings (.rightParen :: front) ≤ 0 + openings (.rightParen :: front) := fun h =>
          absurd (h [] List.nil_prefix) (by simp [Token.isLeftParen, Token.isRightParen])
        simp only [Matches, hfirst, and_false, false_and]

theorem unbalanced_iff (ts : List (Token α)) : Unbalanced ts ↔ ¬Matches 0 ts := by
  have hcovered : (∃ front, front <+: ts ∧ openings front < closings front)
      ↔ ¬∀ front, front <+: ts → closings front ≤ openings front := by
    simp only [not_forall, exists_prop, Nat.not_le]
  simp only [Unbalanced, hcovered, matches_iff, Nat.zero_add, not_and_or]

/-! ## Outcomes

Two things are needed. A mismatch is found only where the marks on the stack and the unread tokens
do not match, and no move changes whether they do. And an evaluation that gets to the end has no
marks and no tokens left, which do match. -/

/-- The operands that are left at the end say nothing of parentheses. -/
theorem settle_ne_mismatchedParenthesis (os : List α) :
    Evaluation.settle os ≠ .error .mismatchedParenthesis := by
  match os with
  | [] => simp [Evaluation.settle]
  | [_] => simp [Evaluation.settle]
  | _ :: _ :: _ => simp [Evaluation.settle]

variable {A : Arithmetic α} {ts : List (Token α)}

/-- A mark is missing or left over only where the parentheses do not match. -/
theorem unbalanced_of_mismatchedParenthesis
    (h : evaluateTokens A.apply ts = .error .mismatchedParenthesis) : Unbalanced ts := by
  rw [unbalanced_iff]
  intro hmatches
  obtain ⟨q, hmoves, hstops⟩ := evaluateTokens_eq_iff.1 h
  have hopen := (matches_of_moves hmoves).1 hmatches
  generalize hr : Except.error EvalError.mismatchedParenthesis = r at hstops
  -- by the way in which it stops; the two that report a mismatch contradict `hopen`
  cases hstops with
  | settled w => exact settle_ne_mismatchedParenthesis w.operands hr.symm
  | unopened us w => simp [Matches] at hopen
  | unclosed w ps => simp at hopen
  | missing op => cases hr
  | fault op left right e us os log ps hnext happly =>
    obtain ⟨rfl, -⟩ := A.apply_eq_error_iff.1 happly
    cases hr

/-- Where the parentheses do not match, an evaluation ends on the way: the operands that are left
are those of a list in which they match. -/
theorem exists_onTheWay_of_unbalanced (h : Unbalanced ts) :
    ∃ e, OnTheWay e ∧ evaluateTokens A.apply ts = .error e := by
  by_contra hnone
  have hnofault : ∀ e, OnTheWay e → evaluateTokens A.apply ts ≠ .error e :=
    fun e he heq => hnone ⟨e, he, heq⟩
  obtain ⟨w, hmoves, -⟩ := exists_leftovers hnofault
  have hend : Matches (openedCount []) ([] : List (Token α)) := (matches_nil 0).2 rfl
  exact (unbalanced_iff ts).1 h ((matches_of_moves hmoves).2 hend)

/-- A mismatch is reported only for a list whose parentheses do not match. Such a list has no value,
and it is neither called empty nor said to have too many operands, whatever stands around the
parentheses: if no mismatch is reported for it, an operator failed before. -/
theorem parentheses_accounted_for (A : Arithmetic α) (ts : List (Token α)) :
    (evaluateTokens A.apply ts = .error .mismatchedParenthesis → Unbalanced ts)
      ∧ (Unbalanced ts →
        (∀ v, evaluateTokens A.apply ts ≠ .ok v)
          ∧ evaluateTokens A.apply ts ≠ .error .emptyExpression
          ∧ ∀ n, evaluateTokens A.apply ts ≠ .error (.danglingOperands n))
      ∧ Arithmetic.machine.apply = applyOperator := by
  refine ⟨unbalanced_of_mismatchedParenthesis, fun h => ?_, Arithmetic.apply_machine⟩
  obtain ⟨e, he, houtcome⟩ := exists_onTheWay_of_unbalanced (A := A) h
  rw [houtcome]
  cases he <;> simp

/-- `(1))` is reported as a mismatch. The parentheses of `1/0)` do not match either, but the
division fails first. -/
theorem parentheses_accounted_for_behind_division :
    evaluateTokens applyOperator
        [.leftParen, .number ⟨0x3FF0000000000000⟩, .rightParen, .rightParen]
        = .error .mismatchedParenthesis
      ∧ Unbalanced [.leftParen, .number (⟨0x3FF0000000000000⟩ : Binary64), .rightParen, .rightParen]
      ∧ Unbalanced [.number (⟨0x3FF0000000000000⟩ : Binary64), .operator .div, .number ⟨0⟩,
        .rightParen]
      ∧ ∀ v, evaluateTokens applyOperator
        [.number ⟨0x3FF0000000000000⟩, .operator .div, .number ⟨0⟩, .rightParen] ≠ .ok v := by
  have hmismatch := (parentheses_accounted_for Arithmetic.machine
    [.leftParen, .number ⟨0x3FF0000000000000⟩, .rightParen, .rightParen]).1
  have hdivision := (parentheses_accounted_for Arithmetic.machine
    [.number ⟨0x3FF0000000000000⟩, .operator .div, .number ⟨0⟩, .rightParen]).2.1
  rw [Arithmetic.apply_machine] at hmismatch hdivision
  have houtcome : evaluateTokens applyOperator
      [.leftParen, .number (⟨0x3FF0000000000000⟩ : Binary64), .rightParen, .rightParen]
      = .error .mismatchedParenthesis := by decide +kernel
  -- the whole list closes one and opens none
  have hunbalanced : Unbalanced [.number (⟨0x3FF0000000000000⟩ : Binary64), .operator .div,
      .number ⟨0⟩, .rightParen] := .inr (by decide)
  exact ⟨houtcome, hmismatch houtcome, hunbalanced, (hdivision hunbalanced).1⟩

end Reckon
