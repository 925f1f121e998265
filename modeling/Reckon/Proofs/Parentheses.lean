import Reckon.Proofs.Infix
import Reckon.Proofs.Tokenizing

/-!
# An expression in parentheses

An expression that has a value behaves in parentheses like its value, whatever stands around it. An
opening parenthesis hides what waits below it (`Surroundings`), so that each move of the expression
on its own is a move inside the parentheses too (`Move.within`); the closing one leaves the value.
The statement for texts needs in addition that parentheses divide a text into parts that are read
apart.
-/

namespace Reckon

open Position

variable {α : Type}

/-! ## Surroundings

A position is put into surroundings by appending them on all four sides. A move looks only at the
next token and at the top of the stack, so it is enough that these are not changed for the worse
where the part itself is at its end. -/

/-- What lies around a part of an evaluation: the tokens behind it, and what is below it on both
stacks. The tokens behind end every operator of the part, and none of them touches what is below. -/
structure Surroundings (α : Type) where
  behind : List (Token α)
  operands : List α
  performed : List (Reduction α)
  below : List Pending
  closes : Closes 0 behind
  hidden : TopBelow 0 below

/-- A position of the part, with its surroundings. -/
def Position.within (p : Position α) (c : Surroundings α) : Position α :=
  ⟨p.unread ++ c.behind, ⟨p.workings.operands ++ c.operands, p.workings.performed ++ c.performed⟩,
    p.pending ++ c.below⟩

/-- What has an operator applied has it applied with more tokens behind. -/
theorem Surroundings.closes_append (c : Surroundings α) {level : Nat} {ts : List (Token α)}
    (h : Closes level ts) : Closes level (ts ++ c.behind) := by
  match ts, h with
  -- the part is read to its end, and now the tokens behind it count
  | [], _ => exact c.closes.mono (Nat.zero_le _)
  | .rightParen :: _, _ => trivial
  | .operator _ :: _, h => exact h

/-- An operator that may wait in the part may wait above what is below it. -/
theorem Surroundings.topBelow_append (c : Surroundings α) {level : Nat} {ps : List Pending}
    (h : TopBelow level ps) : TopBelow level (ps ++ c.below) := by
  match ps, h with
  | [], _ => exact c.hidden.mono (Nat.zero_le _)
  | .opened :: _, _ => trivial
  | .op _ :: _, h => exact h

variable {apply : Operator → α → α → Except EvalError α} {p q : Position α}

/-- A move of a part is a move within any surroundings. -/
theorem Move.within (h : Move apply p q) (c : Surroundings α) :
    Move apply (p.within c) (q.within c) := by
  cases h with
  | number x ts os log ps => exact .number x (ts ++ c.behind) _ _ _
  | leftParen ts w ps => exact .leftParen (ts ++ c.behind) _ _
  | rightParen ts w ps => exact .rightParen (ts ++ c.behind) _ _
  | operator op ts w ps htop => exact .operator op (ts ++ c.behind) _ _ (c.topBelow_append htop)
  | reduce op left right result ts os log ps hnext happly =>
    exact .reduce op left right result (ts ++ c.behind) _ _ _ (c.closes_append hnext) happly

theorem Moves.within (h : Moves apply p q) (c : Surroundings α) :
    Moves apply (p.within c) (q.within c) := by
  induction h with
  | refl => exact .refl
  | tail _ hmove ih => exact ih.tail (hmove.within c)

/-! ## Earlier applications

The record of what was applied is part of a position but has no influence on what follows. It is
taken for surroundings here, which leaves the outcome alone as moves do. -/

/-- Applications that were performed before, and nothing else around. -/
def Surroundings.earlier (log : List (Reduction α)) : Surroundings α :=
  ⟨[], [], log, [], trivial, trivial⟩

theorem within_earlier (ts : List (Token α)) (os : List α) (log log' : List (Reduction α))
    (ps : List Pending) :
    Position.within ⟨ts, ⟨os, log'⟩, ps⟩ (.earlier log) = ⟨ts, ⟨os, log' ++ log⟩, ps⟩ := by
  simp [Position.within, Surroundings.earlier]

/-- An evaluation stops in the same way whatever was applied before. -/
theorem Stops.within_earlier {r : Except EvalError α} (h : Stops apply p r)
    (log : List (Reduction α)) : Stops apply (p.within (.earlier log)) r := by
  -- each way to stop looks at operands, marks and tokens, and at nothing that was applied
  cases h with
  | settled w =>
    rw [Reckon.within_earlier]
    exact .settled _
  | unopened ts w =>
    rw [Reckon.within_earlier]
    exact .unopened ts _
  | unclosed w ps =>
    rw [Reckon.within_earlier]
    exact .unclosed _ ps
  | missing op ts w ps hnext hfew =>
    rw [Reckon.within_earlier]
    exact .missing op ts _ ps hnext hfew
  | fault op left right e ts os log' ps hnext happly =>
    rw [Reckon.within_earlier]
    exact .fault op left right e ts os _ ps hnext happly

/-- The outcome of a position does not depend on the applications before it. -/
theorem outcome_congr_performed (ts : List (Token α)) (os : List α) (log log' : List (Reduction α))
    (ps : List Pending) :
    (evaluation apply ⟨ts, ⟨os, log⟩, ps⟩).outcome
      = (evaluation apply ⟨ts, ⟨os, log'⟩, ps⟩).outcome := by
  -- both follow the moves that there are when nothing was applied before
  obtain ⟨q, r, hmoves, hstops⟩ := exists_moves_stops apply ⟨ts, ⟨os, []⟩, ps⟩
  have hr : ∀ log'', (evaluation apply ⟨ts, ⟨os, log''⟩, ps⟩).outcome = r := by
    intro log''
    have hwithin := Moves.within hmoves (.earlier log'')
    rw [within_earlier, List.nil_append] at hwithin
    exact outcome_of_moves_stops hwithin (hstops.within_earlier log'')
  rw [hr log, hr log']

/-! ## A value in place of a parenthesis

Both the group and the number lead to a position with the value on top of the operands, in front of
the same tokens and above the same stack. -/

/-- Inside parentheses moves lead from the opening one past the closing one, with the value of what
stands between them. -/
theorem moves_group {ts : List (Token α)} {v : α} (h : evaluateTokens apply ts = .ok v)
    (us : List (Token α)) (os : List α) (log : List (Reduction α)) (ps : List Pending) :
    ∃ log', Moves apply ⟨.leftParen :: (ts ++ .rightParen :: us), ⟨os, log⟩, ps⟩
      ⟨us, ⟨v :: os, log'⟩, ps⟩ := by
  obtain ⟨log', hmoves⟩ := evaluateTokens_eq_ok_iff.1 h
  let c : Surroundings α := ⟨.rightParen :: us, os, log, .opened :: ps, trivial, trivial⟩
  have hinner : Moves apply ⟨ts ++ .rightParen :: us, ⟨os, log⟩, .opened :: ps⟩
      ⟨.rightParen :: us, ⟨v :: os, log' ++ log⟩, .opened :: ps⟩ := Moves.within hmoves c
  exact ⟨_, .head (.leftParen _ _ _) (hinner.tail (.rightParen us _ ps))⟩

/-- The outcome of a position after the tokens `ts` and before others. -/
theorem evaluateTokens_append (ts us : List (Token α)) :
    evaluateTokens apply (ts ++ us)
      = match Evaluation.run apply ts Stacks.empty with
        | .ok s => (evaluation apply ⟨us, s.workings, s.pending⟩).outcome
        | .error halt => .error halt.cause := by
  rw [evaluateTokens, Evaluation.ofTokens, Evaluation.complete, Evaluation.run_append]
  cases Evaluation.run apply ts Stacks.empty <;> rfl

/-- Tokens with a value, in parentheses, may be replaced by that value. -/
theorem evaluateTokens_group {ts : List (Token α)} {v : α} (h : evaluateTokens apply ts = .ok v)
    (us vs : List (Token α)) :
    evaluateTokens apply (us ++ .leftParen :: (ts ++ .rightParen :: vs))
      = evaluateTokens apply (us ++ .number v :: vs) := by
  rw [evaluateTokens_append, evaluateTokens_append]
  cases Evaluation.run apply us Stacks.empty with
  | error halt => rfl
  | ok s =>
    obtain ⟨⟨os, log⟩, ps⟩ := s
    -- the two positions behind the operand differ only in what was applied inside it
    obtain ⟨log', hmoves⟩ := moves_group h vs os log ps
    have hnumber : Move apply ⟨.number v :: vs, ⟨os, log⟩, ps⟩ ⟨vs, ⟨v :: os, log⟩, ps⟩ :=
      .number v vs os log ps
    show (evaluation apply _).outcome = (evaluation apply _).outcome
    rw [evaluation_of_moves hmoves, evaluation_of_move hnumber]
    exact outcome_congr_performed vs (v :: os) log' log ps

/-- An operator between two values is applied to them. -/
theorem evaluateTokens_binary (op : Operator) (x y : α) :
    evaluateTokens apply [.number x, .operator op, .number y] = apply op x y := by
  have hx : Derives op.precedence [.number x] (.number x) :=
    (Derives.number x).mono (Nat.le_succ_of_le op.precedence_le_three)
  have hy : Derives (op.precedence + 1) [.number y] (.number y) :=
    (Derives.number y).mono (Nat.succ_le_succ op.precedence_le_three)
  have hop : Derives op.precedence [.number x, .operator op, .number y]
      (.binary op (.number x) (.number y)) := .binary hx hy
  exact evaluateTokens_of_derives (hop.mono op.one_le_precedence)

/-! ## Texts

A parenthesis divides a text into parts that are read apart, so the statement for tokens carries
over once the faults of the parts are put in order: the first part comes first. -/

/-- The tokens of a text with a part in parentheses. -/
theorem tokenize_parenthesized {strict : Bool} {s : Text} {ts : List (Token Binary64)}
    (h : tokenize strict s = .ok ts) (p q : Text) :
    tokenize strict (p ++ '(' :: (s ++ ')' :: q))
      = (tokenize strict p).bind fun us =>
          (tokenize strict q).map fun vs => us ++ .leftParen :: (ts ++ .rightParen :: vs) := by
  rw [tokenize_append_leftParen, tokenize_append_rightParen, h]
  cases tokenize strict p with
  | error e => rfl
  | ok us => cases tokenize strict q <;> rfl

/-- What an expression with a value comes to in parentheses, between two texts. -/
theorem evaluate_group {strict : Bool} {s : Text} {v : Binary64} (h : evaluate strict s = .ok v)
    (p q : Text) :
    evaluate strict (p ++ '(' :: (s ++ ')' :: q))
      = match tokenize strict p, tokenize strict q with
        | .error e, _ => .error (.token e)
        | .ok _, .error e => .error (.token e)
        | .ok us, .ok vs =>
          (evaluateTokens applyOperator (us ++ .number v :: vs)).mapError .eval := by
  obtain ⟨ts, hts, hv⟩ := tokenize_of_evaluate_ok h
  rw [evaluate, tokenize_parenthesized hts]
  -- in the order in which the parts are read
  cases tokenize strict p with
  | error e => rfl
  | ok us =>
    cases tokenize strict q with
    | error e => rfl
    | ok vs =>
      show (evaluateTokens applyOperator _).mapError _ = _
      rw [evaluateTokens_group hv]

/-- An expression with a value may be replaced, in parentheses, by one number token with this value,
whatever stands around it; the fault of what stands before it comes first. So parentheses around a
whole expression change nothing, and an operator between two such expressions is applied to their
values. -/
theorem evaluate_parenthesized {strict : Bool} {s : Text} {v : Binary64}
    (h : evaluate strict s = .ok v) (p q : Text) :
    evaluate strict (p ++ '(' :: (s ++ ')' :: q))
        = (match tokenize strict p, tokenize strict q with
          | .error e, _ => .error (.token e)
          | .ok _, .error e => .error (.token e)
          | .ok us, .ok vs =>
            (evaluateTokens applyOperator (us ++ .number v :: vs)).mapError .eval)
      ∧ evaluate strict ('(' :: (s ++ [')'])) = .ok v
      ∧ ∀ (op : Operator) (t : Text) (w : Binary64), evaluate strict t = .ok w →
        evaluate strict ('(' :: (s ++ ')' :: (op.symbol ++ '(' :: (t ++ [')']))))
          = (applyOperator op v w).mapError .eval := by
  have hempty : tokenize strict [] = .ok [] := rfl
  refine ⟨evaluate_group h p q, ?_, fun op t w ht => ?_⟩
  · -- nothing stands around it
    have halone := evaluate_group h [] []
    rw [hempty] at halone
    exact halone
  · obtain ⟨us, hus, hw⟩ := tokenize_of_evaluate_ok ht
    have hright : tokenize strict (op.symbol ++ '(' :: (t ++ [')']))
        = .ok (.operator op :: .leftParen :: (us ++ [.rightParen])) := by
      rw [tokenize_parenthesized hus, tokenize_symbol, hempty]
      rfl
    have hboth := evaluate_group h [] (op.symbol ++ '(' :: (t ++ [')']))
    rw [hempty, hright] at hboth
    have htokens : evaluateTokens applyOperator
        (.number v :: .operator op :: .leftParen :: (us ++ [.rightParen]))
          = applyOperator op v w := by
      have hgroup := evaluateTokens_group hw [.number v, .operator op] []
      exact hgroup.trans (evaluateTokens_binary op v w)
    exact hboth.trans (congrArg (Except.mapError CalculationError.eval) htokens)

/-- Five, spelled as `2(3)+`, behind `1-` and in front of `*2`. -/
theorem evaluate_parenthesized_at_sum :
    evaluate true "2(3)+".toList = .ok ⟨0x4014000000000000⟩
      ∧ evaluate true ("1-".toList ++ '(' :: ("2(3)+".toList ++ ')' :: "*2".toList))
        = (evaluateTokens applyOperator [.number ⟨0x3FF0000000000000⟩, .operator .sub,
            .number ⟨0x4014000000000000⟩, .operator .mul,
            .number ⟨0x4000000000000000⟩]).mapError .eval := by
  have h : evaluate true "2(3)+".toList = .ok ⟨0x4014000000000000⟩ := by decide +kernel
  have hleft : tokenize true "1-".toList
      = .ok [.number ⟨0x3FF0000000000000⟩, .operator .sub] := by decide +kernel
  have hright : tokenize true "*2".toList
      = .ok [.operator .mul, .number ⟨0x4000000000000000⟩] := by decide +kernel
  refine ⟨h, ?_⟩
  have hgroup := (evaluate_parenthesized h "1-".toList "*2".toList).1
  rw [hleft, hright] at hgroup
  exact hgroup

end Reckon
