import Reckon.Proofs.Machine
import Mathlib.Algebra.BigOperators.Group.List.Basic
import Mathlib.Algebra.Order.Ring.Int

/-!
# Accounts of an evaluation

Two accounts that no move changes. Operands waiting, less operators waiting, plus what the unread
tokens will still bring, is one number (`Position.balance`). And the parentheses that are open now
match the unread ones as those of the whole list match among themselves (`Matches`). An evaluation
that comes to a value ends with one operand and nothing else, which settles both accounts for the
list it began with.
-/

namespace Reckon

variable {α : Type}

/-! ## Operands and operators

A number brings one operand, and an operator will take two for one, so each of them counts one, with
opposite signs. Operators are counted where they are: unread, or waiting on the stack. -/

/-- What a token adds to the number of operands, less operators. -/
def Token.weight : Token α → Int
  | number _ => 1
  | operator _ => -1
  | leftParen | rightParen => 0

/-- The number tokens less the operator tokens. -/
def excess (ts : List (Token α)) : Int :=
  (ts.map Token.weight).sum

@[simp] theorem excess_nil : excess ([] : List (Token α)) = 0 := rfl

@[simp] theorem excess_cons (t : Token α) (ts : List (Token α)) :
    excess (t :: ts) = t.weight + excess ts := by
  simp [excess]

/-- The operators on a stack. -/
def operatorCount (ps : List Pending) : Nat :=
  ps.countP (· ≠ .opened)

/-- The opening parentheses on a stack. -/
def openedCount (ps : List Pending) : Nat :=
  ps.count .opened

@[simp] theorem operatorCount_nil : operatorCount [] = 0 := rfl

@[simp] theorem operatorCount_opened (ps : List Pending) :
    operatorCount (.opened :: ps) = operatorCount ps := by
  simp [operatorCount]

@[simp] theorem operatorCount_op (op : Operator) (ps : List Pending) :
    operatorCount (.op op :: ps) = operatorCount ps + 1 := by
  simp [operatorCount]

@[simp] theorem openedCount_nil : openedCount [] = 0 := rfl

@[simp] theorem openedCount_opened (ps : List Pending) :
    openedCount (.opened :: ps) = openedCount ps + 1 := by
  simp [openedCount]

@[simp] theorem openedCount_op (op : Operator) (ps : List Pending) :
    openedCount (.op op :: ps) = openedCount ps := by
  simp [openedCount]

/-- The operands less the operators that there will be when everything is read and nothing more is
applied. -/
def Position.balance (p : Position α) : Int :=
  p.workings.operands.length - operatorCount p.pending + excess p.unread

/-! ## Parentheses -/

/-- With `depth` parentheses open already, each closing one in the tokens finds its opening one, and
none is left open in the end. -/
def Matches : Nat → List (Token α) → Prop
  | depth, [] => depth = 0
  | depth, .leftParen :: ts => Matches (depth + 1) ts
  | 0, .rightParen :: _ => False
  | depth + 1, .rightParen :: ts => Matches depth ts
  | depth, .number _ :: ts => Matches depth ts
  | depth, .operator _ :: ts => Matches depth ts

@[simp] theorem matches_nil (depth : Nat) : Matches depth ([] : List (Token α)) ↔ depth = 0 := by
  rw [Matches]

@[simp] theorem matches_leftParen (depth : Nat) (ts : List (Token α)) :
    Matches depth (.leftParen :: ts) ↔ Matches (depth + 1) ts := by
  rw [Matches]

@[simp] theorem matches_rightParen (depth : Nat) (ts : List (Token α)) :
    Matches (depth + 1) (.rightParen :: ts) ↔ Matches depth ts := by
  rw [Matches]

@[simp] theorem matches_number (depth : Nat) (x : α) (ts : List (Token α)) :
    Matches depth (.number x :: ts) ↔ Matches depth ts := by
  rw [Matches]

@[simp] theorem matches_operator (depth : Nat) (op : Operator) (ts : List (Token α)) :
    Matches depth (.operator op :: ts) ↔ Matches depth ts := by
  rw [Matches]

/-! ## No move changes an account

Each move shifts an item from one side of an account to the other: a number from the unread tokens
to the operands, an operator to the stack, and an application takes one operand and one operator. -/

variable {apply : Operator → α → α → Except EvalError α} {p q : Position α}

/-- Operands and operators are in balance before and after a move. -/
theorem balance_of_move (h : Move apply p q) : p.balance = q.balance := by
  cases h <;> simp [Position.balance, Token.weight] <;> omega

theorem balance_of_moves (h : Moves apply p q) : p.balance = q.balance := by
  induction h with
  | refl => rfl
  | tail _ hmove ih => rw [ih, balance_of_move hmove]

/-- An open parenthesis has its partner among the unread tokens, before and after a move. -/
theorem matches_of_move (h : Move apply p q) :
    Matches (openedCount p.pending) p.unread ↔ Matches (openedCount q.pending) q.unread := by
  cases h <;> simp

theorem matches_of_moves (h : Moves apply p q) :
    Matches (openedCount p.pending) p.unread ↔ Matches (openedCount q.pending) q.unread := by
  induction h with
  | refl => rfl
  | tail _ hmove ih => rw [ih, matches_of_move hmove]

/-! ## What the operands that are left amount to

The three outcomes at the end, told by the operands that are left. -/

theorem settle_eq_ok_iff {os : List α} {v : α} : Evaluation.settle os = .ok v ↔ os = [v] := by
  match os with
  | [] => simp [Evaluation.settle]
  | [x] => simp [Evaluation.settle]
  | _ :: _ :: _ => simp [Evaluation.settle]

theorem settle_eq_empty_iff {os : List α} :
    Evaluation.settle os = .error .emptyExpression ↔ os = [] := by
  match os with
  | [] => simp [Evaluation.settle]
  | [_] => simp [Evaluation.settle]
  | _ :: _ :: _ => simp [Evaluation.settle]

theorem settle_eq_dangling_iff {os : List α} {n : Nat} :
    Evaluation.settle os = .error (.danglingOperands n) ↔ n = os.length ∧ 2 ≤ n := by
  match os with
  | [] => simp [Evaluation.settle]; omega
  | [_] => simp [Evaluation.settle]; omega
  | _ :: _ :: _ => simp [Evaluation.settle]; omega

/-! ## Accounts of a value -/

/-- An evaluation stops with a value where everything is read and one operand is left. -/
theorem stops_ok_iff {v : α} :
    Stops apply p (.ok v) ↔ p.unread = [] ∧ p.workings.operands = [v] ∧ p.pending = [] := by
  constructor
  · intro h
    -- the outcome must be a variable before cases, since `settled` gives it as a term
    generalize hr : Except.ok v = r at h
    cases h with
    | settled w => exact ⟨rfl, settle_eq_ok_iff.1 hr.symm, rfl⟩
    | unopened | unclosed | missing | fault => cases hr
  · obtain ⟨ts, w, ps⟩ := p
    rintro ⟨rfl, hos, rfl⟩
    have hsettle : Evaluation.settle w.operands = .ok v := settle_eq_ok_iff.2 hos
    exact hsettle ▸ Stops.settled w

/-- A value comes of moves that leave one operand and nothing else. -/
theorem evaluateTokens_eq_ok_iff {ts : List (Token α)} {v : α} :
    evaluateTokens apply ts = .ok v ↔
      ∃ log, Moves apply (.start ts) ⟨[], ⟨[v], log⟩, []⟩ := by
  rw [evaluateTokens_eq_iff]
  constructor
  · rintro ⟨⟨ts, ⟨os, log⟩, ps⟩, hmoves, hstops⟩
    obtain ⟨rfl, rfl, rfl⟩ := stops_ok_iff.1 hstops
    exact ⟨log, hmoves⟩
  · rintro ⟨log, hmoves⟩
    exact ⟨_, hmoves, stops_ok_iff.2 ⟨rfl, rfl, rfl⟩⟩

/-- A list that has a value holds one number more than operators. -/
theorem excess_of_evaluateTokens_ok {ts : List (Token α)} {v : α}
    (h : evaluateTokens apply ts = .ok v) : excess ts = 1 := by
  obtain ⟨log, hmoves⟩ := evaluateTokens_eq_ok_iff.1 h
  simpa [Position.balance, Position.start, Workings.empty] using balance_of_moves hmoves

/-- The parentheses of a list that has a value match. -/
theorem matches_of_evaluateTokens_ok {ts : List (Token α)} {v : α}
    (h : evaluateTokens apply ts = .ok v) : Matches 0 ts := by
  obtain ⟨log, hmoves⟩ := evaluateTokens_eq_ok_iff.1 h
  exact (matches_of_moves hmoves).2 ((matches_nil 0).2 rfl)

end Reckon
