import Reckon.Proofs.Infix

/-!
# Evaluation in two phases

The pending stack alone decides in which order numbers and operators reach the operands: it turns
the tokens into a postfix sequence (`emission`), and no value is looked at. A machine without
precedence or parentheses then works that sequence off (`Postfix.run`); it has a step of its own
(`Postfix.step`), which turns out to perform an operator as an evaluation does. An evaluation does
both at once, so a fault of the machine hides a parenthesis without its partner exactly if the
operator comes out of the stack before the parenthesis is found.

`Position.complete_eq_emission` says so of any position. The loops that apply pending operators are
all one: they pop what binds at least as tightly as some level (`popped`), which is that of the
arriving operator, or zero for a parenthesis and for the end.
-/

namespace Reckon

variable {α β : Type}

/-! ## The postfix sequence

What comes out of the pending stack is defined by the tokens alone. Where a closing parenthesis or
the end finds the stack in the wrong state, the sequence ends there with a mark. -/

/-- What a postfix sequence consists of. -/
inductive Item (α : Type)
  | number (x : α)
  | operator (op : Operator)
  deriving DecidableEq

/-- The operator among the items of a sequence. -/
def Item.operator? : Item α → Option Operator
  | number _ => none
  | operator op => some op

/-- The items that came out of the pending stack, and whether it stopped at a parenthesis without a
partner. -/
structure Emission (α : Type) where
  items : List (Item α)
  stopped : Bool
  deriving DecidableEq

namespace Emission

/-- The same with operators that came out before. -/
def behind (e : Emission α) (ops : List Operator) : Emission α :=
  { e with items := ops.map .operator ++ e.items }

/-- The operators that came out, in order. -/
def operators (e : Emission α) : List Operator :=
  e.items.filterMap Item.operator?

@[simp] theorem operators_behind (e : Emission α) (ops : List Operator) :
    (e.behind ops).operators = ops ++ e.operators := by
  have hops : (ops.map (Item.operator (α := α))).filterMap Item.operator? = ops := by
    rw [List.filterMap_map]
    exact List.filterMap_some
  rw [operators, behind, List.filterMap_append, hops]
  rfl

end Emission

/-- The operators on top of the stack that bind at least as tightly as `level`, from the top. -/
def popped (level : Nat) : List Pending → List Operator
  | .op top :: below => if top.precedence < level then [] else top :: popped level below
  | _ => []

/-- What they leave on the stack. -/
def remaining (level : Nat) : List Pending → List Pending
  | .op top :: below => if top.precedence < level then .op top :: below else remaining level below
  | pending => pending

/-- What comes out of a pending stack while tokens are read, and when it is flushed in the end. -/
def emission : List (Token α) → List Pending → Emission α
  | [], ps => ⟨(popped 0 ps).map .operator, !(remaining 0 ps).isEmpty⟩
  | .number x :: ts, ps =>
    let e := emission ts ps
    { e with items := .number x :: e.items }
  | .leftParen :: ts, ps => emission ts (.opened :: ps)
  | .rightParen :: ts, ps =>
    match remaining 0 ps with
    | [] => ⟨(popped 0 ps).map .operator, true⟩
    | _ :: below => (emission ts below).behind (popped 0 ps)
  | .operator op :: ts, ps =>
    (emission ts (.op op :: remaining op.precedence ps)).behind (popped op.precedence ps)

/-! ## The machine

The machine reads items from left to right and has one stack. It is given on its own, so that what
an evaluation computes can be read off here without the code of the evaluation. -/

namespace Postfix

variable (apply : Operator → α → α → Except EvalError α)

/-- A number is put on the operands. An operator takes two of them off, first its right one and then
its left one, and puts its value there instead. Without two operands it fails for want of them, and
where it has no value its own fault is that of the machine. -/
def step (w : Workings α) : Item α → Except (Halt α) (Workings α)
  | .number x => .ok ⟨x :: w.operands, w.performed⟩
  | .operator op =>
    match w.operands with
    | [] | [_] => .error ⟨.missingOperand op, w.performed⟩
    | right :: left :: below =>
      match apply op left right with
      | .ok value => .ok ⟨value :: below, ⟨op, left, right, value⟩ :: w.performed⟩
      | .error fault => .error ⟨fault, w.performed⟩

/-- Works the items off, up to the first fault. -/
def run : List (Item α) → Workings α → Except (Halt α) (Workings α)
  | [], w => .ok w
  | item :: rest, w =>
    match step apply w item with
    | .ok w => run rest w
    | .error halt => .error halt

/-- A sequence may be worked off in two parts. -/
theorem run_append (front back : List (Item α)) (w : Workings α) :
    run apply (front ++ back) w = match run apply front w with
      | .ok w => run apply back w
      | .error halt => .error halt := by
  induction front generalizing w with
  | nil => rfl
  | cons item rest ih =>
    rw [List.cons_append, run, run]
    cases step apply w item with
    | error halt => rfl
    | ok w => exact ih w

/-- The machine and the evaluation perform an operator alike. -/
theorem step_operator (op : Operator) (w : Workings α) :
    step apply w (.operator op) = Evaluation.reduce apply op w := by
  obtain ⟨operands, performed⟩ := w
  match operands with
  | [] => rfl
  | [_] => rfl
  | right :: left :: below => rfl

/-- Working off an operator, in terms of the evaluation. -/
theorem run_operator_cons (op : Operator) (items : List (Item α)) (w : Workings α) :
    run apply (.operator op :: items) w = match Evaluation.reduce apply op w with
      | .ok w => run apply items w
      | .error halt => .error halt := by
  rw [run, step_operator]

end Postfix

/-- Works the items off; then a parenthesis without a partner is the fault. -/
def Emission.workOff (apply : Operator → α → α → Except EvalError α) (e : Emission α)
    (w : Workings α) : Except (Halt α) (Workings α) :=
  match Postfix.run apply e.items w with
  | .ok w => if e.stopped then .error ⟨.mismatchedParenthesis, w.performed⟩ else .ok w
  | .error halt => .error halt

/-! ## The loops pop and apply

Each loop is turned into two things: which operators it pops, and that the machine works them off.
The proofs follow the stack from its top. -/

section

variable {apply : Operator → α → α → Except EvalError α}

/-- Operators that came out before are worked off before. -/
theorem Emission.workOff_behind (e : Emission α) (ops : List Operator) (w : Workings α) :
    (e.behind ops).workOff apply w = match Postfix.run apply (ops.map .operator) w with
      | .ok w => e.workOff apply w
      | .error halt => .error halt := by
  rw [workOff, behind, Postfix.run_append]
  cases Postfix.run apply (ops.map .operator) w <;> rfl

/-- An arriving operator pops what binds at least as tightly, and has it worked off. -/
theorem reduceAbove_eq_popped (op : Operator) (ps : List Pending) (w : Workings α) :
    Evaluation.reduceAbove apply op ps w
      = match Postfix.run apply ((popped op.precedence ps).map .operator) w with
        | .ok w => .ok ⟨w, remaining op.precedence ps⟩
        | .error halt => .error halt := by
  induction ps generalizing w with
  | nil => rfl
  | cons p below ih =>
    cases p with
    | opened => rfl
    | op top =>
      rw [Evaluation.reduceAbove, popped, remaining]
      -- the loop and `popped` stop at the same operator
      split
      · rfl
      · rw [List.map_cons, Postfix.run_operator_cons]
        cases Evaluation.reduce apply top w with
        | error halt => rfl
        | ok w => exact ih w

/-- A closing parenthesis pops down to its partner, if it has one. -/
theorem closeParen_eq_popped (ps : List Pending) (w : Workings α) :
    Evaluation.closeParen apply ps w
      = match Postfix.run apply ((popped 0 ps).map .operator) w with
        | .ok w =>
          match remaining 0 ps with
          | [] => .error ⟨.mismatchedParenthesis, w.performed⟩
          | _ :: below => .ok ⟨w, below⟩
        | .error halt => .error halt := by
  induction ps generalizing w with
  | nil => rfl
  | cons p below ih =>
    cases p with
    | opened => rfl
    | op top =>
      -- no precedence is below zero, so only a mark stops either
      rw [Evaluation.closeParen, popped, remaining, if_neg (Nat.not_lt_zero _),
        if_neg (Nat.not_lt_zero _), List.map_cons, Postfix.run_operator_cons]
      cases Evaluation.reduce apply top w with
      | error halt => rfl
      | ok w => exact ih w

/-- The end pops everything, unless there is a parenthesis on the stack. -/
theorem flush_eq_popped (ps : List Pending) (w : Workings α) :
    Evaluation.flush apply ps w
      = (⟨(popped 0 ps).map .operator, !(remaining 0 ps).isEmpty⟩ : Emission α).workOff apply
          w := by
  induction ps generalizing w with
  | nil => rfl
  | cons p below ih =>
    cases p with
    | opened => rfl
    | op top =>
      rw [Evaluation.flush, popped, remaining, if_neg (Nat.not_lt_zero _),
        if_neg (Nat.not_lt_zero _), List.map_cons, Emission.workOff, Postfix.run_operator_cons]
      cases Evaluation.reduce apply top w with
      | error halt => rfl
      | ok w => exact ih w

/-- From any position, an evaluation works off what comes out of the pending stack. -/
theorem Position.complete_eq_emission (ts : List (Token α)) (w : Workings α) (ps : List Pending) :
    complete apply ⟨ts, w, ps⟩ = (emission ts ps).workOff apply w := by
  -- on the tokens; the stack and what was worked out so far vary from token to token
  induction ts generalizing w ps with
  -- the stack has no mark left, so the evaluation ends here
  | nil => exact flush_eq_popped ps w
  | cons t ts ih =>
    cases t with
    | number x => exact ih ⟨x :: w.operands, w.performed⟩ ps
    | leftParen => exact ih w (.opened :: ps)
    | rightParen =>
      simp only [complete, Evaluation.run, Evaluation.step, closeParen_eq_popped, emission]
      cases remaining 0 ps with
      | nil =>
        rw [Emission.workOff]
        cases Postfix.run apply ((popped 0 ps).map .operator) w <;> rfl
      -- the mark is taken off, and the machine goes on if it has not failed
      | cons p below =>
        rw [Emission.workOff_behind]
        cases Postfix.run apply ((popped 0 ps).map .operator) w with
        | error halt => rfl
        | ok w => exact ih w below
    | operator op =>
      simp only [complete, Evaluation.run, Evaluation.step, reduceAbove_eq_popped, emission]
      rw [Emission.workOff_behind]
      cases Postfix.run apply ((popped op.precedence ps).map .operator) w with
      | error halt => rfl
      | ok w => exact ih w (.op op :: remaining op.precedence ps)

end

/-! ## The operators performed

What the machine has performed is recorded by the evaluation, so it can be compared with the
operators of the sequence: they are the same up to the one that fails. -/

/-- The operators of applications that are listed with the latest first, in order. -/
def operatorsOf (performed : List (Reduction α)) : List Operator :=
  performed.reverse.map Reduction.op

theorem operatorsOf_cons (r : Reduction α) (performed : List (Reduction α)) :
    operatorsOf (r :: performed) = operatorsOf performed ++ [r.op] := by
  simp [operatorsOf]

namespace Postfix

variable {A : Arithmetic α}

/-- An operator that has a value is recorded. -/
theorem performed_of_reduce {op : Operator} {w w' : Workings α}
    (h : Evaluation.reduce A.apply op w = .ok w') :
    operatorsOf w'.performed = operatorsOf w.performed ++ [op] := by
  unfold Evaluation.reduce at h
  split at h
  · split at h
    · cases h
      exact operatorsOf_cons _ _
    · cases h
  · cases h

/-- An operator fails for want of an operand, or because it divides by zero. -/
theorem fault_of_reduce {op : Operator} {w : Workings α} {halt : Halt α}
    (h : Evaluation.reduce A.apply op w = .error halt) :
    halt.performed = w.performed ∧ (halt.cause = .missingOperand op
      ∨ halt.cause = .divisionByZero ∧ op.divides = true) := by
  unfold Evaluation.reduce at h
  split at h
  · split at h
    · cases h
    · next cause happly =>
      cases h
      obtain ⟨hcause, hdivides, -⟩ := A.apply_eq_error_iff.1 happly
      exact ⟨rfl, .inr ⟨hcause, hdivides⟩⟩
  · -- there were not two operands
    cases h
    exact ⟨rfl, .inl rfl⟩

/-- Without a fault all operators are performed. -/
theorem performed_of_run {items : List (Item α)} {w w' : Workings α}
    (h : run A.apply items w = .ok w') :
    operatorsOf w'.performed = operatorsOf w.performed ++ items.filterMap Item.operator? := by
  induction items generalizing w with
  | nil =>
    cases h
    exact (List.append_nil _).symm
  | cons item rest ih =>
    cases item with
    | number x => exact ih (w := ⟨x :: w.operands, w.performed⟩) h
    -- the operator is recorded as the latest, that is in front of those that follow
    | operator op =>
      rw [run_operator_cons] at h
      cases hreduce : Evaluation.reduce A.apply op w with
      | error halt =>
        rw [hreduce] at h
        cases h
      | ok mid =>
        rw [hreduce] at h
        rw [ih h, performed_of_reduce hreduce, List.append_assoc]
        rfl

/-- With a fault those before the failed one are. -/
theorem performed_of_run_error {items : List (Item α)} {w : Workings α} {halt : Halt α}
    (h : run A.apply items w = .error halt) :
    ∃ failed rest, operatorsOf w.performed ++ items.filterMap Item.operator?
        = operatorsOf halt.performed ++ failed :: rest
      ∧ (halt.cause = .missingOperand failed
        ∨ halt.cause = .divisionByZero ∧ failed.divides = true) := by
  induction items generalizing w with
  | nil => cases h
  | cons item rest ih =>
    cases item with
    | number x => exact ih (w := ⟨x :: w.operands, w.performed⟩) h
    | operator op =>
      have hcons : (Item.operator op :: rest).filterMap Item.operator?
          = [op] ++ rest.filterMap Item.operator? := rfl
      rw [run_operator_cons] at h
      cases hreduce : Evaluation.reduce A.apply op w with
      | error halt' =>
        -- the machine stops here, with `op` as the operator that failed
        rw [hreduce] at h
        cases h
        obtain ⟨hperformed, hcause⟩ := fault_of_reduce hreduce
        exact ⟨op, _, by rw [hperformed]; rfl, hcause⟩
      | ok mid =>
        rw [hreduce] at h
        obtain ⟨failed, behind, hitems, hcause⟩ := ih h
        refine ⟨failed, behind, ?_, hcause⟩
        rw [← hitems, performed_of_reduce hreduce, hcons, List.append_assoc]

end Postfix

/-! ## Other numbers

The sequence of operators is computed without looking at a number, which can be said by putting
other numbers into the tokens. -/

/-- Which operators come out, and in which order, does not depend on the numbers. -/
theorem operators_emission_map (f : α → β) (ts : List (Token α)) (ps : List Pending) :
    (emission (ts.map (Token.map f)) ps).operators = (emission ts ps).operators := by
  -- an emission of operators alone has no number that could be changed
  have hops : ∀ (ops : List Operator) (stopped : Bool),
      (⟨ops.map .operator, stopped⟩ : Emission β).operators
        = (⟨ops.map .operator, stopped⟩ : Emission α).operators := by
    intro ops stopped
    simp only [Emission.operators, List.filterMap_map]
    rfl
  induction ts generalizing ps with
  | nil => exact hops _ _
  | cons t ts ih =>
    cases t with
    | number x => exact ih ps
    | leftParen => exact ih (.opened :: ps)
    | rightParen =>
      rw [List.map_cons, Token.map, emission, emission]
      cases remaining 0 ps with
      | nil => exact hops _ _
      | cons p below =>
        dsimp only
        rw [Emission.operators_behind, Emission.operators_behind, ih below]
    | operator op =>
      rw [List.map_cons, Token.map, emission, emission, Emission.operators_behind,
        Emission.operators_behind, ih]

/-! ## The two phases -/

/-- An evaluation is what the machine makes of the postfix sequence. If the machine comes to a
fault, that is the outcome. Else a parenthesis at which the sequence was stopped is. Else the
operands that are left decide: a single one is the value, none are an empty expression, and several
are as many superfluous operands. The operators performed are those of the sequence, up to the one
that fails, and none of them depends on the numbers. -/
theorem evaluation_in_two_phases (A : Arithmetic α) (ts : List (Token α)) :
    let out := emission ts []
    let e := Evaluation.ofTokens A.apply ts
    (match Postfix.run A.apply out.items Workings.empty with
      | .error halt =>
        e = ⟨.error halt.cause, halt.performed.reverse⟩
          ∧ ∃ failed rest, out.operators = e.performed.map Reduction.op ++ failed :: rest
            ∧ (halt.cause = .missingOperand failed
              ∨ halt.cause = .divisionByZero ∧ failed.divides = true)
      | .ok w =>
        e.performed = w.performed.reverse
          ∧ e.performed.map Reduction.op = out.operators
          ∧ (out.stopped = true → e.outcome = .error .mismatchedParenthesis)
          ∧ (out.stopped = false →
            (∀ x, w.operands = [x] → e.outcome = .ok x)
            ∧ (w.operands = [] → e.outcome = .error .emptyExpression)
            ∧ (2 ≤ w.operands.length →
              e.outcome = .error (.danglingOperands w.operands.length))))
      ∧ (∀ (β : Type) (f : α → β),
        (emission (ts.map (Token.map f)) []).operators = out.operators)
      ∧ Arithmetic.machine.apply = applyOperator := by
  intro out e
  refine ⟨?_, fun β f => operators_emission_map f ts [], Arithmetic.apply_machine⟩
  have hcomplete : Evaluation.complete A.apply ts = out.workOff A.apply Workings.empty :=
    Position.complete_eq_emission ts Workings.empty []
  have he : e = match out.workOff A.apply Workings.empty with
      | .ok w => ⟨Evaluation.settle w.operands, w.performed.reverse⟩
      | .error halt => ⟨.error halt.cause, halt.performed.reverse⟩ := by
    rw [← hcomplete]
    rfl
  rw [Emission.workOff] at he
  split
  · next halt hrun =>
    -- the machine failed
    rw [hrun] at he
    obtain ⟨failed, rest, hitems, hcause⟩ := Postfix.performed_of_run_error hrun
    exact ⟨he, failed, rest, by rw [he]; exact hitems, hcause⟩
  · next w hrun =>
    -- the machine came to the end of the sequence
    rw [hrun] at he
    dsimp only at he
    have hperformed : e.performed = w.performed.reverse := by
      rw [he]
      cases out.stopped <;> rfl
    refine ⟨hperformed, ?_, fun hstopped => ?_, fun hgoing => ?_⟩
    · rw [hperformed]
      exact Postfix.performed_of_run hrun
    · rw [he, hstopped]
      rfl
    · -- nothing stood in the way, so the operands settle the outcome
      have houtcome : e.outcome = Evaluation.settle w.operands := by
        rw [he, hgoing]
        rfl
      rw [houtcome]
      exact ⟨fun x hone => settle_eq_ok_iff.2 hone, settle_eq_empty_iff.2,
        fun hmany => settle_eq_dangling_iff.2 ⟨rfl, hmany⟩⟩

/-- In `1/0)*(2` the division comes out before the sequence stops, so its fault hides that of the
parenthesis. -/
example : emission [.number 1, .operator .div, .number 0, .rightParen, .operator .mul, .leftParen,
      .number 2] [] = (⟨[.number 1, .number 0, .operator .div], true⟩ : Emission Nat) := by
  decide

end Reckon
