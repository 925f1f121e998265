import Reckon.Proofs.Infix

/-!
# The operands that are left

At every position of an evaluation the operands less the pending operators are the numbers less the
operators read so far (`operands_of_moves`). Where everything is read and applied, only operands are
left, so their number is that of the numbers less the operators of the whole list. It is zero only
for a list of nothing but parentheses: a number and an application each leave an operand behind, and
no application takes the last one away (`substance_of_moves`).
-/

namespace Reckon

open Position

variable {α : Type}

/-! ## The tokens read

The balance of a position counts what is unread. Here the same is said of what was read, which is
the rest of the list. -/

theorem excess_append (ts us : List (Token α)) : excess (ts ++ us) = excess ts + excess us := by
  simp [excess]

/-- A token that stands for nothing on its own. -/
def Token.isParenthesis : Token α → Bool
  | leftParen | rightParen => true
  | number _ | operator _ => false

namespace Token

@[simp] theorem isParenthesis_number (x : α) : (number x).isParenthesis = false := rfl

@[simp] theorem isParenthesis_operator (op : Operator) :
    (operator op : Token α).isParenthesis = false := rfl

@[simp] theorem isParenthesis_leftParen : (leftParen : Token α).isParenthesis = true := rfl

@[simp] theorem isParenthesis_rightParen : (rightParen : Token α).isParenthesis = true := rfl

end Token

section

variable {apply : Operator → α → α → Except EvalError α} {p q : Position α}

/-- Moves take tokens from the front. -/
theorem exists_read_of_moves (h : Moves apply p q) : ∃ read, p.unread = read ++ q.unread := by
  induction h with
  | refl => exact ⟨[], rfl⟩
  | tail _ hmove ih =>
    obtain ⟨read, hread⟩ := ih
    -- each move but an application takes the token that it is about
    cases hmove with
    | number x ts => exact ⟨read ++ [.number x], by simpa using hread⟩
    | leftParen ts => exact ⟨read ++ [.leftParen], by simpa using hread⟩
    | rightParen ts => exact ⟨read ++ [.rightParen], by simpa using hread⟩
    | operator op ts => exact ⟨read ++ [.operator op], by simpa using hread⟩
    | reduce => exact ⟨read, hread⟩

/-- The operands less the pending operators are the numbers less the operators read. -/
theorem operands_of_moves {read unread : List (Token α)} {w : Workings α} {ps : List Pending}
    (h : Moves apply (.start (read ++ unread)) ⟨unread, w, ps⟩) :
    (w.operands.length : Int) - operatorCount ps = excess read := by
  have hbalance := balance_of_moves h
  simp only [balance, start, Workings.empty, List.length_nil, operatorCount_nil,
    excess_append] at hbalance
  omega

/-! ## Lists without a number or an operator

An end without operands can only come of parentheses, and the other way round. Both are followed
along the moves, the one from the end backwards, the other from the beginning on. -/

/-- The pending operators, and the numbers and operators that are still to be read. -/
def Position.substance (p : Position α) : Nat :=
  operatorCount p.pending + p.unread.countP fun t => !t.isParenthesis

/-- A list has no substance if it consists of parentheses. -/
theorem substance_start_eq_zero_iff (ts : List (Token α)) :
    (start ts).substance = 0 ↔ ∀ t ∈ ts, t.isParenthesis = true := by
  simp [substance, start, List.countP_eq_zero]

/-- Without operands in the end there were none before, and nothing but parentheses was taken and
operators put on the stack. -/
theorem substance_of_move (h : Move apply p q) (hq : q.workings.operands = []) :
    p.workings.operands = [] ∧ p.substance = q.substance := by
  cases h with
  -- a number or an application leaves an operand
  | number x ts os log ps => cases hq
  | leftParen ts w ps => exact ⟨hq, by simp [substance]⟩
  | rightParen ts w ps => exact ⟨hq, by simp [substance]⟩
  | operator op ts w ps htop =>
    refine ⟨hq, ?_⟩
    simp [substance]
    omega
  | reduce op left right result ts os log ps hnext happly => cases hq

/-- Backwards along the moves, an end without operands has had none before. -/
theorem substance_of_moves (h : Moves apply p q) (hq : q.workings.operands = []) :
    p.workings.operands = [] ∧ p.substance = q.substance := by
  induction h with
  | refl => exact ⟨hq, rfl⟩
  | tail _ hmove ih =>
    obtain ⟨hmid, hsubstance⟩ := substance_of_move hmove hq
    obtain ⟨hp, hmid⟩ := ih hmid
    exact ⟨hp, hmid.trans hsubstance⟩

/-- Where there is nothing but parentheses, the operands stay as they are. -/
theorem operands_of_move_of_substance (h : Move apply p q) (hp : p.substance = 0) :
    q.substance = 0 ∧ q.workings.operands = p.workings.operands := by
  cases h with
  | number x ts os log ps => simp [substance] at hp
  | leftParen ts w ps => exact ⟨by simpa [substance] using hp, rfl⟩
  | rightParen ts w ps => exact ⟨by simpa [substance] using hp, rfl⟩
  | operator op ts w ps htop => simp [substance] at hp
  | reduce op left right result ts os log ps hnext happly => simp [substance] at hp

/-- Forwards along the moves, parentheses bring no operand. -/
theorem operands_of_moves_of_substance (h : Moves apply p q) (hp : p.substance = 0) :
    q.substance = 0 ∧ q.workings.operands = p.workings.operands := by
  induction h with
  | refl => exact ⟨hp, rfl⟩
  | tail _ hmove ih =>
    obtain ⟨hsubstance, hoperands⟩ := ih
    obtain ⟨hnext, hsame⟩ := operands_of_move_of_substance hmove hsubstance
    exact ⟨hnext, hsame.trans hoperands⟩

end

/-! ## Faults on the way and at the end

The faults on the way are excluded first. What then remains is an end where the operands decide, and
their number is known from the tokens. -/

/-- The faults that come up while operators are applied and parentheses closed. -/
inductive OnTheWay : EvalError → Prop
  | mismatchedParenthesis : OnTheWay .mismatchedParenthesis
  | missingOperand (op : Operator) : OnTheWay (.missingOperand op)
  | divisionByZero : OnTheWay .divisionByZero

variable {A : Arithmetic α} {ts : List (Token α)}

/-- Without one of these faults an evaluation comes to an end where only operands are left. -/
theorem exists_leftovers (h : ∀ e, OnTheWay e → evaluateTokens A.apply ts ≠ .error e) :
    ∃ w, Moves A.apply (.start ts) ⟨[], w, []⟩
      ∧ evaluateTokens A.apply ts = Evaluation.settle w.operands := by
  obtain ⟨q, hmoves, hstops⟩ := evaluateTokens_eq_iff.1 (rfl : evaluateTokens A.apply ts = _)
  generalize hr : evaluateTokens A.apply ts = r at h hstops ⊢
  -- every way to stop but the first one is among the faults that are excluded
  cases hstops with
  | settled w => exact ⟨w, hmoves, rfl⟩
  | unopened ts w => exact absurd rfl (h _ .mismatchedParenthesis)
  | unclosed w ps => exact absurd rfl (h _ .mismatchedParenthesis)
  | missing op => exact absurd rfl (h _ (.missingOperand op))
  | fault op left right e ts os log ps hnext happly =>
    obtain ⟨rfl, -⟩ := A.apply_eq_error_iff.1 happly
    exact absurd rfl (h _ .divisionByZero)

/-- As many operands are left as there are numbers more than operators. -/
theorem length_of_leftovers {w : Workings α} (h : Moves A.apply (.start ts) ⟨[], w, []⟩) :
    (w.operands.length : Int) = excess ts := by
  have hstart : Moves A.apply (.start (ts ++ [])) ⟨[], w, []⟩ := by rwa [List.append_nil]
  simpa using operands_of_moves hstart

/-- None is left exactly of parentheses. -/
theorem leftovers_eq_nil_iff {w : Workings α} (h : Moves A.apply (.start ts) ⟨[], w, []⟩) :
    w.operands = [] ↔ ∀ t ∈ ts, t.isParenthesis = true := by
  rw [← substance_start_eq_zero_iff]
  exact ⟨fun hw => (substance_of_moves h hw).2, fun hts => (operands_of_moves_of_substance h hts).2⟩

/-- A list of parentheses that match is empty. -/
theorem evaluateTokens_of_parentheses (hmatches : Matches 0 ts)
    (hts : ∀ t ∈ ts, t.isParenthesis = true) :
    evaluateTokens A.apply ts = .error .emptyExpression := by
  obtain ⟨q, hmoves, hstops⟩ := evaluateTokens_eq_iff.1 (rfl : evaluateTokens A.apply ts = _)
  obtain ⟨hsubstance, hoperands⟩ :=
    operands_of_moves_of_substance hmoves ((substance_start_eq_zero_iff ts).2 hts)
  have hopen := (matches_of_moves hmoves).1 hmatches
  generalize evaluateTokens A.apply ts = r at hstops ⊢
  cases hstops with
  -- no parenthesis is left over, and there is no operator that could fail
  | settled w => exact settle_eq_empty_iff.2 hoperands
  | unopened ts w => exact absurd hopen (by simp [Matches])
  | unclosed w ps => simp at hopen
  | missing op => simp [substance] at hsubstance
  | fault => simp [substance] at hsubstance

/-- At every point of an evaluation the operands less the pending operators are the numbers less the
operators read: before each token, and before each application as well. So a list on which no
operator fails and no parenthesis is left over has at least as many numbers as operators. It has a
value if there is one number more, too many operands if there are more, and it is empty exactly if
there is nothing in it but parentheses: an operator needs an operand, which is then left. -/
theorem operands_accounted_for (A : Arithmetic α) (ts : List (Token α)) :
    (∀ read unread s, ts = read ++ unread →
        Evaluation.run A.apply read Stacks.empty = .ok s →
        (s.workings.operands.length : Int) - operatorCount s.pending = excess read)
      ∧ (∀ p, Moves A.apply (.start ts) p → ∃ read, ts = read ++ p.unread
        ∧ (p.workings.operands.length : Int) - operatorCount p.pending = excess read)
      ∧ ((∀ e, OnTheWay e → evaluateTokens A.apply ts ≠ .error e) →
        0 ≤ excess ts
          ∧ ((∃ v, evaluateTokens A.apply ts = .ok v) ↔ excess ts = 1)
          ∧ (∀ n : Nat, evaluateTokens A.apply ts = .error (.danglingOperands n)
            ↔ n = excess ts ∧ 2 ≤ n)
          ∧ (evaluateTokens A.apply ts = .error .emptyExpression
            ↔ ∀ t ∈ ts, t.isParenthesis = true)
          ∧ ¬(excess ts = 0 ∧ ∃ op, .operator op ∈ ts))
      ∧ (Matches 0 ts → (∀ t ∈ ts, t.isParenthesis = true) →
        evaluateTokens A.apply ts = .error .emptyExpression)
      ∧ Arithmetic.machine.apply = applyOperator := by
  refine ⟨?_, ?_, fun h => ?_, evaluateTokens_of_parentheses, Arithmetic.apply_machine⟩
  · rintro read unread s rfl hrun
    exact operands_of_moves (moves_of_run hrun unread)
  · intro p hmoves
    obtain ⟨read, rfl⟩ := exists_read_of_moves hmoves
    exact ⟨read, rfl, operands_of_moves hmoves⟩
  · -- from here on only the operands at the end are spoken of
    obtain ⟨w, hmoves, houtcome⟩ := exists_leftovers h
    have hlength := length_of_leftovers hmoves
    have hnil := leftovers_eq_nil_iff hmoves
    rw [houtcome, ← hlength]
    refine ⟨Int.natCast_nonneg _, ?_, fun n => ?_, ?_, ?_⟩
    · simp only [settle_eq_ok_iff, ← List.length_eq_one_iff]
      omega
    · rw [settle_eq_dangling_iff]
      omega
    · rw [settle_eq_empty_iff, hnil]
    · rintro ⟨hzero, op, hop⟩
      have hempty : w.operands = [] := List.length_eq_zero_iff.1 (by omega)
      exact absurd (hnil.1 hempty _ hop) (by simp)

/-- `2(3)` leaves two operands, and `(())` none. -/
theorem operands_accounted_for_in_juxtaposition :
    evaluateTokens applyOperator
        [.number ⟨0x4000000000000000⟩, .leftParen, .number ⟨0x4008000000000000⟩, .rightParen]
        = .error (.danglingOperands 2)
      ∧ evaluateTokens applyOperator [.leftParen, .leftParen, .rightParen, .rightParen]
        = .error .emptyExpression := by
  have htwo := operands_accounted_for Arithmetic.machine
    [.number ⟨0x4000000000000000⟩, .leftParen, .number ⟨0x4008000000000000⟩, .rightParen]
  have hnone := operands_accounted_for Arithmetic.machine
    [.leftParen, .leftParen, .rightParen, .rightParen]
  rw [Arithmetic.apply_machine] at htwo hnone
  have houtcome : evaluateTokens applyOperator [.number (⟨0x4000000000000000⟩ : Binary64),
      .leftParen, .number ⟨0x4008000000000000⟩, .rightParen] = .error (.danglingOperands 2) := by
    decide +kernel
  -- the outcome of the first list is computed to exclude the other faults only
  constructor
  · refine ((htwo.2.2.1 fun e he => ?_).2.2.1 2).2 ⟨by decide, by decide⟩
    rw [houtcome]
    cases he <;> nofun
  · exact hnone.2.2.2.1 (by simp) (by simp)

end Reckon
