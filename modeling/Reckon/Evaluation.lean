import Reckon.Token

/-!
# Evaluation on two stacks

Operands and pending operators wait on two stacks, the top of each at the head of its list. An
operator that arrives first applies the pending ones that bind at least as tightly, so that
operators of one precedence group to the left; a closing parenthesis applies what is pending since
its opening one; the end of the expression applies the rest. Whether operators stand between their
operands is not checked beforehand: a missing operand shows when an operator is applied, a
superfluous one at the end.

The arithmetic is a parameter `apply`, and the applications performed are kept, so that a run can be
compared with other ways of reading the same tokens.
-/

namespace Reckon

inductive EvalError
  | divisionByZero
  | mismatchedParenthesis
  | missingOperand (op : Operator)
  | danglingOperands (count : Nat)
  | emptyExpression
  deriving DecidableEq

/-- A waiting operator, or the mark that an opening parenthesis leaves. -/
inductive Pending
  | op (o : Operator)
  | opened
  deriving DecidableEq

/-- One application `left op right = result`. -/
structure Reduction (α : Type) where
  op : Operator
  left : α
  right : α
  result : α

/-- The operands, and the applications performed so far, the latest first. -/
structure Workings (α : Type) where
  operands : List α
  performed : List (Reduction α)

structure Stacks (α : Type) where
  workings : Workings α
  pending : List Pending

/-- An evaluation that came to a fault, with the applications performed before it. -/
structure Halt (α : Type) where
  cause : EvalError
  performed : List (Reduction α)

/-- The outcome of an evaluation and the applications that it performed, in order. -/
structure Evaluation (α : Type) where
  outcome : Except EvalError α
  performed : List (Reduction α)

variable {α : Type}

def Workings.empty : Workings α := ⟨[], []⟩

def Stacks.empty : Stacks α := ⟨Workings.empty, []⟩

namespace Evaluation

variable (apply : Operator → α → α → Except EvalError α)

/-- Applies an operator to the two topmost operands; the topmost is its right one. -/
def reduce (op : Operator) (w : Workings α) : Except (Halt α) (Workings α) :=
  match w.operands with
  | right :: left :: rest =>
    match apply op left right with
    | .ok result => .ok ⟨result :: rest, ⟨op, left, right, result⟩ :: w.performed⟩
    | .error cause => .error ⟨cause, w.performed⟩
  | _ => .error ⟨.missingOperand op, w.performed⟩

/-- Applies the pending operators that bind at least as tightly as `op`, down to an opening
parenthesis. -/
def reduceAbove (op : Operator) : List Pending → Workings α → Except (Halt α) (Stacks α)
  | .op top :: below, w =>
    if top.precedence < op.precedence then .ok ⟨w, .op top :: below⟩
    else match reduce apply top w with
      | .ok w => reduceAbove op below w
      | .error halt => .error halt
  | pending, w => .ok ⟨w, pending⟩

/-- Applies the operators pending since the latest opening parenthesis, and removes that mark. -/
def closeParen : List Pending → Workings α → Except (Halt α) (Stacks α)
  | [], w => .error ⟨.mismatchedParenthesis, w.performed⟩
  | .opened :: below, w => .ok ⟨w, below⟩
  | .op top :: below, w =>
    match reduce apply top w with
    | .ok w => closeParen below w
    | .error halt => .error halt

/-- Applies all pending operators; an opening parenthesis among them was never closed. -/
def flush : List Pending → Workings α → Except (Halt α) (Workings α)
  | [], w => .ok w
  | .opened :: _, w => .error ⟨.mismatchedParenthesis, w.performed⟩
  | .op top :: below, w =>
    match reduce apply top w with
    | .ok w => flush below w
    | .error halt => .error halt

/-- Reads one token. -/
def step (s : Stacks α) : Token α → Except (Halt α) (Stacks α)
  | .number x => .ok ⟨⟨x :: s.workings.operands, s.workings.performed⟩, s.pending⟩
  | .leftParen => .ok ⟨s.workings, .opened :: s.pending⟩
  | .rightParen => closeParen apply s.pending s.workings
  | .operator op =>
    match reduceAbove apply op s.pending s.workings with
    | .ok s => .ok ⟨s.workings, .op op :: s.pending⟩
    | .error halt => .error halt

/-- Reads tokens in order, up to the first fault. -/
def run : List (Token α) → Stacks α → Except (Halt α) (Stacks α)
  | [], s => .ok s
  | token :: rest, s =>
    match step apply s token with
    | .ok s => run rest s
    | .error halt => .error halt

/-- The value that the operands left at the end amount to: there must be exactly one. -/
def settle : List α → Except EvalError α
  | [x] => .ok x
  | [] => .error .emptyExpression
  | operands => .error (.danglingOperands operands.length)

/-- Reads the tokens and then flushes what is pending. -/
def complete (tokens : List (Token α)) : Except (Halt α) (Workings α) :=
  match run apply tokens Stacks.empty with
  | .ok s => flush apply s.pending s.workings
  | .error halt => .error halt

def ofTokens (tokens : List (Token α)) : Evaluation α :=
  match complete apply tokens with
  | .ok w => ⟨settle w.operands, w.performed.reverse⟩
  | .error halt => ⟨.error halt.cause, halt.performed.reverse⟩

theorem run_append (ts us : List (Token α)) (s : Stacks α) :
    run apply (ts ++ us) s = match run apply ts s with
      | .ok s => run apply us s
      | .error halt => .error halt := by
  induction ts generalizing s with
  | nil => rfl
  | cons t ts ih =>
    rw [List.cons_append, run, run]
    cases step apply s t with
    | error halt => rfl
    | ok s => exact ih s

end Evaluation

/-- The value of an expression given as tokens. -/
def evaluateTokens (apply : Operator → α → α → Except EvalError α) (tokens : List (Token α)) :
    Except EvalError α :=
  (Evaluation.ofTokens apply tokens).outcome

end Reckon
