import Reckon.Evaluation
import Mathlib.Logic.Relation

/-!
# Evaluation in single moves

`Evaluation.run` and `Evaluation.flush` read a token and apply operators in nested loops. The same
evaluation is given here as a relation on positions, with one rule for each thing that can happen:
a token is taken, or the topmost pending operator is applied because of what stands next
(`Move`), or the evaluation ends (`Stops`).

* `evaluation_of_move` and `evaluation_of_stops`: the loops give what the moves lead to.
* `exists_moves_stops`: from every position moves lead to an end, since each makes it smaller.
* `evaluateTokens_eq_iff`: the outcome of a token list is the one at the end of its moves.

An invariant of evaluation is thus a fact about one move.
-/

namespace Reckon

variable {α : Type}

/-- What is left to read, and the two stacks. -/
structure Position (α : Type) where
  unread : List (Token α)
  workings : Workings α
  pending : List Pending

namespace Position

/-- Before the first token. -/
def start (ts : List (Token α)) : Position α :=
  ⟨ts, Workings.empty, []⟩

/-- Holds if no operator on top of the stack binds as tightly as `level`. -/
def TopBelow (level : Nat) : List Pending → Prop
  | .op top :: _ => top.precedence < level
  | _ => True

/-- Holds if what stands next has an operator of precedence `level` applied: the end, a closing
parenthesis, or an operator that binds no tighter. -/
def Closes (level : Nat) : List (Token α) → Prop
  | [] => True
  | .rightParen :: _ => True
  | .operator next :: _ => next.precedence ≤ level
  | _ => False

/-- What is below a level is below the tighter ones. -/
theorem TopBelow.mono {j k : Nat} {ps : List Pending} (h : TopBelow j ps) (hjk : j ≤ k) :
    TopBelow k ps := by
  match ps with
  | [] => trivial
  | .opened :: _ => trivial
  | .op _ :: _ => exact Nat.lt_of_lt_of_le h hjk

/-- What has an operator applied has the tighter ones applied. -/
theorem Closes.mono {j k : Nat} {ts : List (Token α)} (h : Closes j ts) (hjk : j ≤ k) :
    Closes k ts := by
  match ts, h with
  | [], _ => trivial
  | .rightParen :: _, _ => trivial
  | .operator _ :: _, h => exact Nat.le_trans h hjk

end Position

open Position

section

variable (apply : Operator → α → α → Except EvalError α)

/-- One thing that happens in an evaluation. -/
inductive Move : Position α → Position α → Prop
  | number (x : α) (ts : List (Token α)) (os : List α) (log : List (Reduction α))
      (ps : List Pending) : Move ⟨.number x :: ts, ⟨os, log⟩, ps⟩ ⟨ts, ⟨x :: os, log⟩, ps⟩
  | leftParen (ts : List (Token α)) (w : Workings α) (ps : List Pending) :
      Move ⟨.leftParen :: ts, w, ps⟩ ⟨ts, w, .opened :: ps⟩
  | rightParen (ts : List (Token α)) (w : Workings α) (ps : List Pending) :
      Move ⟨.rightParen :: ts, w, .opened :: ps⟩ ⟨ts, w, ps⟩
  | operator (op : Operator) (ts : List (Token α)) (w : Workings α) (ps : List Pending)
      (htop : TopBelow op.precedence ps) :
      Move ⟨.operator op :: ts, w, ps⟩ ⟨ts, w, .op op :: ps⟩
  | reduce (op : Operator) (left right result : α) (ts : List (Token α)) (os : List α)
      (log : List (Reduction α)) (ps : List Pending) (hnext : Closes op.precedence ts)
      (happly : apply op left right = .ok result) :
      Move ⟨ts, ⟨right :: left :: os, log⟩, .op op :: ps⟩
        ⟨ts, ⟨result :: os, ⟨op, left, right, result⟩ :: log⟩, ps⟩

/-- A position at which nothing more can happen, and the outcome there. -/
inductive Stops : Position α → Except EvalError α → Prop
  | settled (w : Workings α) : Stops ⟨[], w, []⟩ (Evaluation.settle w.operands)
  | unopened (ts : List (Token α)) (w : Workings α) :
      Stops ⟨.rightParen :: ts, w, []⟩ (.error .mismatchedParenthesis)
  | unclosed (w : Workings α) (ps : List Pending) :
      Stops ⟨[], w, .opened :: ps⟩ (.error .mismatchedParenthesis)
  | missing (op : Operator) (ts : List (Token α)) (w : Workings α) (ps : List Pending)
      (hnext : Closes op.precedence ts) (hfew : w.operands.length < 2) :
      Stops ⟨ts, w, .op op :: ps⟩ (.error (.missingOperand op))
  | fault (op : Operator) (left right : α) (e : EvalError) (ts : List (Token α)) (os : List α)
      (log : List (Reduction α)) (ps : List Pending) (hnext : Closes op.precedence ts)
      (happly : apply op left right = .error e) :
      Stops ⟨ts, ⟨right :: left :: os, log⟩, .op op :: ps⟩ (.error e)

/-- Any number of moves. -/
abbrev Moves : Position α → Position α → Prop :=
  Relation.ReflTransGen (Move apply)

end

/-! ## The loops follow the moves

A move changes nothing of what the loops make of a position, since it only does by itself what one
of them would do next. So the outcome of a position is that of the end to which moves lead. -/

namespace Position

variable (apply : Operator → α → α → Except EvalError α)

/-- Reads what is left and flushes what is pending. -/
def complete (p : Position α) : Except (Halt α) (Workings α) :=
  match Evaluation.run apply p.unread ⟨p.workings, p.pending⟩ with
  | .ok s => Evaluation.flush apply s.pending s.workings
  | .error halt => .error halt

/-- The outcome of a position, and all applications up to it in order. -/
def evaluation (p : Position α) : Evaluation α :=
  match p.complete apply with
  | .ok w => ⟨Evaluation.settle w.operands, w.performed.reverse⟩
  | .error halt => ⟨.error halt.cause, halt.performed.reverse⟩

theorem evaluation_start (ts : List (Token α)) :
    (start ts).evaluation apply = Evaluation.ofTokens apply ts := rfl

variable {apply}

/-- The top operator is applied first, whatever it is that has it applied. -/
theorem complete_reduce {op : Operator} {ts : List (Token α)} (w : Workings α)
    (ps : List Pending) (hnext : Closes op.precedence ts) :
    complete apply ⟨ts, w, .op op :: ps⟩
      = match Evaluation.reduce apply op w with
        | .ok w => complete apply ⟨ts, w, ps⟩
        | .error halt => .error halt := by
  -- one case for each of the loops, which all begin with the top of the stack
  match ts, hnext with
  | [], _ =>
    have hflush : ∀ ps, complete apply ⟨[], w, ps⟩ = Evaluation.flush apply ps w := fun _ => rfl
    rw [hflush, Evaluation.flush]
    cases Evaluation.reduce apply op w <;> rfl
  | .rightParen :: ts, _ =>
    simp only [complete, Evaluation.run, Evaluation.step, Evaluation.closeParen]
    cases Evaluation.reduce apply op w <;> rfl
  | .operator next :: ts, hnext =>
    -- an operator of the same precedence does not wait, so that equal ones group to the left
    have hnot : ¬op.precedence < next.precedence := Nat.not_lt.2 hnext
    simp only [complete, Evaluation.run, Evaluation.step, Evaluation.reduceAbove, if_neg hnot]
    cases Evaluation.reduce apply op w <;> rfl

/-- An operator waits if nothing on the stack binds as tightly. -/
theorem reduceAbove_of_topBelow {op : Operator} {ps : List Pending} (w : Workings α)
    (h : TopBelow op.precedence ps) :
    Evaluation.reduceAbove apply op ps w = .ok ⟨w, ps⟩ := by
  match ps with
  | [] => rfl
  | .opened :: _ => rfl
  | .op top :: below =>
    have hlt : top.precedence < op.precedence := h
    simp only [Evaluation.reduceAbove, if_pos hlt]

end Position

variable {apply : Operator → α → α → Except EvalError α} {p q : Position α}

/-- A move leads to a position that is completed to the same. -/
theorem complete_of_move (h : Move apply p q) : p.complete apply = q.complete apply := by
  cases h with
  | number x ts os log ps => rfl
  | leftParen ts w ps => rfl
  | rightParen ts w ps => rfl
  | operator op ts w ps htop =>
    simp only [complete, Evaluation.run, Evaluation.step, reduceAbove_of_topBelow w htop]
  | reduce op left right result ts os log ps hnext happly =>
    rw [complete_reduce _ _ hnext]
    simp only [Evaluation.reduce, happly]

theorem evaluation_of_move (h : Move apply p q) : p.evaluation apply = q.evaluation apply := by
  rw [evaluation, evaluation, complete_of_move h]

/-- Any number of moves lead to a position with the same outcome, and with the same applications. -/
theorem evaluation_of_moves (h : Moves apply p q) : p.evaluation apply = q.evaluation apply := by
  induction h with
  | refl => rfl
  | tail _ hmove ih => rw [ih, evaluation_of_move hmove]

/-- Where no move is left the loops give the outcome and nothing more is applied. -/
theorem evaluation_of_stops {r : Except EvalError α} (h : Stops apply p r) :
    p.evaluation apply = ⟨r, p.workings.performed.reverse⟩ := by
  cases h with
  | settled w => rfl
  | unopened ts w => rfl
  | unclosed w ps => rfl
  | missing op ts w ps hnext hfew =>
    -- `reduce` looks for two operands at once, so one is as bad as none
    have hreduce : Evaluation.reduce apply op w = .error ⟨.missingOperand op, w.performed⟩ := by
      match hos : w.operands, hfew with
      | [], _ => simp only [Evaluation.reduce, hos]
      | [_], _ => simp only [Evaluation.reduce, hos]
    rw [evaluation, complete_reduce _ _ hnext, hreduce]
  | fault op left right e ts os log ps hnext happly =>
    rw [evaluation, complete_reduce _ _ hnext]
    simp only [Evaluation.reduce, happly]

/-! ## Reading is made of moves

The other way round, whatever the loops did before they came to a token can be said in moves, so
what no move changes is so at every token. Each loop is an induction on the pending stack. -/

/-- An application that succeeds is a move. -/
theorem move_of_reduce {op : Operator} {ts : List (Token α)} {w w' : Workings α}
    (hnext : Closes op.precedence ts) (h : Evaluation.reduce apply op w = .ok w')
    (ps : List Pending) : Move apply ⟨ts, w, .op op :: ps⟩ ⟨ts, w', ps⟩ := by
  obtain ⟨os, log⟩ := w
  unfold Evaluation.reduce at h
  split at h
  · next right left rest hos =>
    cases hos
    split at h
    · next result happly =>
      cases h
      exact .reduce op left right result ts rest log ps hnext happly
    · cases h
  · cases h

/-- What an arriving operator has applied, and that it may wait above the rest. -/
theorem moves_of_reduceAbove {op : Operator} {ps : List Pending} {w : Workings α} {s : Stacks α}
    (h : Evaluation.reduceAbove apply op ps w = .ok s) (ts : List (Token α)) :
    Moves apply ⟨.operator op :: ts, w, ps⟩ ⟨.operator op :: ts, s.workings, s.pending⟩
      ∧ TopBelow op.precedence s.pending := by
  -- on the stack, which the loop pops until it stops
  induction ps generalizing w with
  | nil =>
    cases h
    exact ⟨.refl, trivial⟩
  | cons p below ih =>
    cases p with
    | opened =>
      cases h
      exact ⟨.refl, trivial⟩
    | op top =>
      rw [Evaluation.reduceAbove] at h
      split at h
      · next hlt =>
        cases h
        exact ⟨.refl, hlt⟩
      · next hge =>
        split at h
        · next w' hreduce =>
          obtain ⟨hmoves, htop⟩ := ih h
          -- `top` is popped where the arriving operator closes it, as a move asks for
          have hnext : Closes top.precedence (.operator op :: ts) := Nat.not_lt.1 hge
          exact ⟨.head (move_of_reduce hnext hreduce below) hmoves, htop⟩
        · cases h

/-- What a closing parenthesis has applied, up to its opening one. -/
theorem moves_of_closeParen {ps : List Pending} {w : Workings α} {s : Stacks α}
    (h : Evaluation.closeParen apply ps w = .ok s) (ts : List (Token α)) :
    Moves apply ⟨.rightParen :: ts, w, ps⟩ ⟨ts, s.workings, s.pending⟩ := by
  induction ps generalizing w with
  | nil => cases h
  | cons p below ih =>
    cases p with
    | opened =>
      cases h
      exact .single (.rightParen ts w below)
    | op top =>
      rw [Evaluation.closeParen] at h
      split at h
      · next w' hreduce =>
        -- a closing parenthesis closes every operator
        have hnext : Closes top.precedence (.rightParen :: ts) := trivial
        exact .head (move_of_reduce hnext hreduce below) (ih h)
      · cases h

theorem moves_of_step {t : Token α} {s s' : Stacks α} (h : Evaluation.step apply s t = .ok s')
    (ts : List (Token α)) :
    Moves apply ⟨t :: ts, s.workings, s.pending⟩ ⟨ts, s'.workings, s'.pending⟩ := by
  cases t with
  | number x =>
    cases h
    exact .single (.number x ts s.workings.operands s.workings.performed s.pending)
  | leftParen =>
    cases h
    exact .single (.leftParen ts s.workings s.pending)
  | rightParen => exact moves_of_closeParen h ts
  | operator op =>
    rw [Evaluation.step] at h
    split at h
    · next mid hmid =>
      cases h
      -- the operator waits when the loop has stopped
      obtain ⟨hmoves, htop⟩ := moves_of_reduceAbove hmid ts
      exact hmoves.tail (.operator op ts mid.workings mid.pending htop)
    · cases h

/-- The stacks that a loop has before each token are those of positions on the way. -/
theorem moves_of_run {read : List (Token α)} {s s' : Stacks α}
    (h : Evaluation.run apply read s = .ok s') (unread : List (Token α)) :
    Moves apply ⟨read ++ unread, s.workings, s.pending⟩ ⟨unread, s'.workings, s'.pending⟩ := by
  induction read generalizing s with
  | nil =>
    cases h
    exact .refl
  | cons t rest ih =>
    rw [Evaluation.run] at h
    split at h
    · next mid hstep => exact (moves_of_step hstep (rest ++ unread)).trans (ih h)
    · cases h

/-! ## Every evaluation ends

At each position there is a move or the evaluation has stopped there, and no move leaves as much to
do as there was before it. -/

/-- A token counts twice, since an operator or an opening parenthesis is still pending when it has
been read. -/
def Position.size (p : Position α) : Nat :=
  2 * p.unread.length + p.pending.length

theorem size_lt_of_move (h : Move apply p q) : q.size < p.size := by
  cases h <;> simp [Position.size] <;> omega

/-- A pending operator that has to be applied is applied, or ends the evaluation. -/
theorem move_or_stops_of_closes {op : Operator} {ts : List (Token α)} (w : Workings α)
    (ps : List Pending) (hnext : Closes op.precedence ts) :
    (∃ q, Move apply ⟨ts, w, .op op :: ps⟩ q) ∨ ∃ r, Stops apply ⟨ts, w, .op op :: ps⟩ r := by
  obtain ⟨os, log⟩ := w
  match os with
  | [] => exact .inr ⟨_, .missing op ts _ ps hnext Nat.zero_lt_two⟩
  | [_] => exact .inr ⟨_, .missing op ts _ ps hnext Nat.one_lt_two⟩
  | right :: left :: os =>
    cases happly : apply op left right with
    | ok result => exact .inl ⟨_, .reduce op left right result ts os log ps hnext happly⟩
    | error e => exact .inr ⟨_, .fault op left right e ts os log ps hnext happly⟩

variable (apply) in
/-- At every position something happens or the evaluation has ended. -/
theorem move_or_stops (p : Position α) :
    (∃ q, Move apply p q) ∨ ∃ r, Stops apply p r := by
  obtain ⟨ts, w, ps⟩ := p
  -- cases on what stands next and then, unless it is taken at once, on the top of the stack
  match ts with
  | [] =>
    match ps with
    | [] => exact .inr ⟨_, .settled w⟩
    | .opened :: ps => exact .inr ⟨_, .unclosed w ps⟩
    | .op op :: ps => exact move_or_stops_of_closes w ps trivial
  | .number x :: ts => exact .inl ⟨_, .number x ts w.operands w.performed ps⟩
  | .leftParen :: ts => exact .inl ⟨_, .leftParen ts w ps⟩
  | .rightParen :: ts =>
    match ps with
    | [] => exact .inr ⟨_, .unopened ts w⟩
    | .opened :: ps => exact .inl ⟨_, .rightParen ts w ps⟩
    | .op op :: ps => exact move_or_stops_of_closes w ps trivial
  | .operator next :: ts =>
    match ps with
    | [] => exact .inl ⟨_, .operator next ts w [] trivial⟩
    | .opened :: ps => exact .inl ⟨_, .operator next ts w (.opened :: ps) trivial⟩
    | .op op :: ps =>
      by_cases htop : op.precedence < next.precedence
      · exact .inl ⟨_, .operator next ts w (.op op :: ps) htop⟩
      · exact move_or_stops_of_closes w ps (Nat.not_lt.1 htop)

variable (apply) in
/-- From every position moves lead to an end. -/
theorem exists_moves_stops (p : Position α) : ∃ q r, Moves apply p q ∧ Stops apply q r := by
  -- on the size, which the first move makes smaller
  induction hn : p.size using Nat.strongRecOn generalizing p with
  | ind n ih =>
    rcases move_or_stops apply p with ⟨q, hmove⟩ | ⟨r, hstops⟩
    · have hlt : q.size < n := hn ▸ size_lt_of_move hmove
      obtain ⟨q', r, hmoves, hstops⟩ := ih q.size hlt q rfl
      exact ⟨q', r, .head hmove hmoves, hstops⟩
    · exact ⟨p, r, .refl, hstops⟩

/-- The loops give an evaluation exactly if the moves end in it. -/
theorem evaluation_eq_iff {e : Evaluation α} :
    p.evaluation apply = e ↔
      ∃ q, Moves apply p q ∧ Stops apply q e.outcome
        ∧ q.workings.performed.reverse = e.performed := by
  constructor
  · rintro rfl
    obtain ⟨q, r, hmoves, hstops⟩ := exists_moves_stops apply p
    refine ⟨q, hmoves, ?_⟩
    rw [evaluation_of_moves hmoves, evaluation_of_stops hstops]
    exact ⟨hstops, rfl⟩
  · rintro ⟨q, hmoves, hstops, hlog⟩
    rw [evaluation_of_moves hmoves, evaluation_of_stops hstops, hlog]

/-- Where moves lead to a stop, its outcome is that of the position. -/
theorem outcome_of_moves_stops {r : Except EvalError α} (hmoves : Moves apply p q)
    (hstops : Stops apply q r) : (p.evaluation apply).outcome = r := by
  rw [evaluation_of_moves hmoves, evaluation_of_stops hstops]

/-- The outcome of a token list is the one at the end of its moves. -/
theorem evaluateTokens_eq_iff {ts : List (Token α)} {r : Except EvalError α} :
    evaluateTokens apply ts = r ↔ ∃ q, Moves apply (start ts) q ∧ Stops apply q r := by
  rw [evaluateTokens, ← evaluation_start]
  constructor
  · rintro rfl
    obtain ⟨q, hmoves, hstops, -⟩ := evaluation_eq_iff.1 (rfl : (start ts).evaluation apply = _)
    exact ⟨q, hmoves, hstops⟩
  · rintro ⟨q, hmoves, hstops⟩
    exact outcome_of_moves_stops hmoves hstops

end Reckon
