import Reckon.Calculation
import Reckon.Proofs.Parsing

/-!
# Two stacks evaluate the syntax tree

* `delivers_of_derives`: reading the tokens of a derivation amounts to putting the value of its tree
  on the operand stack, wherever in an expression they stand.
* `evaluateTokens_of_derives`: a derived list has the value, or the fault, of its tree.
* `derivable_of_evaluateTokens_ok`: a list with a value is derived, if no two operands stand side by
  side in it.
-/

namespace Reckon

open Position

variable {α : Type}

/-! ## Reading a derived list

The tokens of a derivation are read like one number, its value, wherever they stand. The levels take
care of the surroundings: what is on the stack must not take part before the value is there, and
what follows must not wait above the operators of the derivation. -/

section

variable {apply : Operator → α → α → Except EvalError α} {p q : Position α}
  {us : List (Token α)} {os : List α} {ps : List Pending}

/-- What comes of a position once the tokens before `us` are read: a value on top of the operands
`os`, with `ps` pending as before, or a fault. -/
inductive Delivers (apply : Operator → α → α → Except EvalError α) (p : Position α)
    (us : List (Token α)) (os : List α) (ps : List Pending) : Except EvalError α → Prop
  | value {v : α} {log : List (Reduction α)} (h : Moves apply p ⟨us, ⟨v :: os, log⟩, ps⟩) :
      Delivers apply p us os ps (.ok v)
  | fault {q : Position α} {e : EvalError} (h : Moves apply p q)
      (hstops : Stops apply q (.error e)) :
      Delivers apply p us os ps (.error e)

/-- Moves that lead to a position may be put in front of what it delivers. -/
theorem Delivers.after {r : Except EvalError α} (hmoves : Moves apply p q)
    (h : Delivers apply q us os ps r) : Delivers apply p us os ps r := by
  cases h with
  | value h => exact .value (hmoves.trans h)
  | fault h hstops => exact .fault (hmoves.trans h) hstops

/-- An operator on top of the stack, with both operands there, delivers what applying it gives. -/
theorem delivers_reduce {op : Operator} (x y : α) (log : List (Reduction α))
    (hnext : Closes op.precedence us) :
    Delivers apply ⟨us, ⟨y :: x :: os, log⟩, .op op :: ps⟩ us os ps (apply op x y) := by
  cases happly : apply op x y with
  | ok v => exact .value (.single (.reduce op x y v us os log ps hnext happly))
  | error e => exact .fault .refl (.fault op x y e us os log ps hnext happly)

/-- The tokens of a derivation deliver the value of its tree, if nothing on the stack binds as
tightly as the level of the derivation and what follows binds no tighter. -/
theorem delivers_of_derives {k : Nat} {ts : List (Token α)} {e : Expression α} (h : Derives k ts e)
    (log : List (Reduction α)) (htop : TopBelow k ps) (hnext : Closes k us) :
    Delivers apply ⟨ts ++ us, ⟨os, log⟩, ps⟩ us os ps (e.value apply) := by
  -- on the derivation, with one case for each of its rules, and in any surroundings that fit
  induction h generalizing us os log ps with
  | number x => exact .value (.single (.number x us os log ps))
  | @group ts e h ih =>
    -- the opening parenthesis hides the stack, and the closing one has every operator applied
    have hopen : Move apply ⟨.leftParen :: (ts ++ [.rightParen]) ++ us, ⟨os, log⟩, ps⟩
        ⟨ts ++ .rightParen :: us, ⟨os, log⟩, .opened :: ps⟩ := by
      rw [List.cons_append, List.append_assoc]
      exact .leftParen _ _ _
    have hinner : Delivers apply ⟨ts ++ .rightParen :: us, ⟨os, log⟩, .opened :: ps⟩
        (.rightParen :: us) os (.opened :: ps) (e.value apply) := ih log trivial trivial
    refine .after (.single hopen) ?_
    generalize e.value apply = r at hinner ⊢
    cases hinner with
    | value h => exact .value (h.tail (.rightParen us _ ps))
    | fault h hstops => exact .fault h hstops
  | looser _ ih => exact ih log (htop.mono (Nat.le_succ _)) (hnext.mono (Nat.le_succ _))
  | @binary op ts vs l r hl hr ihl ihr =>
    rw [List.append_assoc, List.cons_append, Expression.value]
    -- the left operand is followed by the operator itself, which binds no tighter
    have hleft : Delivers apply ⟨ts ++ .operator op :: (vs ++ us), ⟨os, log⟩, ps⟩
        (.operator op :: (vs ++ us)) os ps (l.value apply) := ihl log htop (Nat.le_refl _)
    generalize l.value apply = left at hleft ⊢
    cases hleft with
    | fault h hstops => exact .fault h hstops
    | @value x log₁ h =>
      refine .after (h.tail (.operator op _ _ ps htop)) ?_
      -- the right operand is read above the operator, one level up
      have hright : Delivers apply ⟨vs ++ us, ⟨x :: os, log₁⟩, .op op :: ps⟩ us (x :: os)
          (.op op :: ps) (r.value apply) :=
        ihr log₁ (Nat.lt_succ_self _) (hnext.mono (Nat.le_succ _))
      generalize r.value apply = right at hright ⊢
      cases hright with
      | fault h hstops => exact .fault h hstops
      -- now what follows has the operator applied
      | @value y log₂ h => exact .after h (delivers_reduce x y log₂ hnext)

/-- A derived list has the value of its tree, or the fault. -/
theorem evaluateTokens_of_derives {ts : List (Token α)} {e : Expression α} (h : Derives 1 ts e) :
    evaluateTokens apply ts = e.value apply := by
  have hread : Delivers apply (.start (ts ++ [])) [] [] [] (e.value apply) :=
    delivers_of_derives h [] trivial trivial
  rw [List.append_nil] at hread
  rw [evaluateTokens_eq_iff]
  generalize e.value apply = r at hread ⊢
  cases hread with
  | value h => exact ⟨_, h, stops_ok_iff.2 ⟨rfl, rfl, rfl⟩⟩
  | fault h hstops => exact ⟨_, h, hstops⟩

/-- A value is only given to a derived list, if no two operands stand side by side. -/
theorem derivable_of_evaluateTokens_ok {ts : List (Token α)} {v : α} (hfree : JuxtapositionFree ts)
    (h : evaluateTokens apply ts = .ok v) : Derivable ts :=
  derivable_of_accounts hfree (excess_of_evaluateTokens_ok h) (matches_of_evaluateTokens_ok h)

end

/-! ## Zero divisors

The fault of an operator is a zero divisor, whatever else the operators compute. -/

namespace Operator

/-- The operators that refuse a zero on their right. -/
def divides : Operator → Bool
  | div | intDiv => true
  | add | sub | mul | pow | rem => false

end Operator

/-- What the operators compute, and which values no division accepts. -/
structure Arithmetic (α : Type) where
  compute : Operator → α → α → α
  isZero : α → Bool

namespace Arithmetic

/-- A division refuses a zero on its right; anything else has a value. -/
def apply (A : Arithmetic α) (op : Operator) (x y : α) : Except EvalError α :=
  if op.divides && A.isZero y then .error .divisionByZero else .ok (A.compute op x y)

/-- No operator has another fault than a zero divisor. -/
theorem apply_eq_error_iff (A : Arithmetic α) {op : Operator} {x y : α} {e : EvalError} :
    A.apply op x y = .error e ↔ e = .divisionByZero ∧ op.divides = true ∧ A.isZero y = true := by
  unfold apply
  split
  · next h =>
    have hboth : op.divides = true ∧ A.isZero y = true := Bool.and_eq_true_iff.1 h
    simpa [hboth] using eq_comm
  · next h =>
    have hnot : ¬(op.divides = true ∧ A.isZero y = true) := fun hboth =>
      h (Bool.and_eq_true_iff.2 hboth)
    simp [hnot]

/-- The arithmetic of machine numbers. -/
def machine : Arithmetic Binary64 where
  compute
    | .add, x, y => x.add y
    | .sub, x, y => x.sub y
    | .mul, x, y => x.mul y
    | .div, x, y => x.div y
    | .pow, x, y => x.pow y
    | .rem, x, y => x.rem y
    | .intDiv, x, y => (x.div y).floor
  isZero := Binary64.isZero

/-- The operators of machine numbers are an instance of this. -/
theorem apply_machine : machine.apply = applyOperator := by
  funext op x y
  cases op <;> simp [apply, machine, applyOperator, Operator.divides]

end Arithmetic

/-- The tokens of an accepted text. -/
theorem tokenize_of_evaluate_ok {strict : Bool} {source : Text} {v : Binary64}
    (h : evaluate strict source = .ok v) :
    ∃ ts, tokenize strict source = .ok ts ∧ evaluateTokens applyOperator ts = .ok v := by
  unfold evaluate at h
  -- a fault of either step would be the outcome
  cases hts : tokenize strict source with
  | error e =>
    rw [hts] at h
    cases h
  | ok ts =>
    rw [hts] at h
    refine ⟨ts, rfl, ?_⟩
    cases hv : evaluateTokens applyOperator ts with
    | error e =>
      simp only [hv, Except.mapError] at h
      cases h
    | ok x =>
      simp only [hv, Except.mapError, Except.ok.injEq] at h
      rw [h]

/-- An accepted list is derived exactly if no two operands stand side by side in it. -/
theorem derivable_iff_of_evaluateTokens_ok {apply : Operator → α → α → Except EvalError α}
    {ts : List (Token α)} {v : α} (h : evaluateTokens apply ts = .ok v) :
    Derivable ts ↔ JuxtapositionFree ts :=
  ⟨fun ⟨_, he⟩ => he.juxtapositionFree, fun hfree => derivable_of_evaluateTokens_ok hfree h⟩

/-- Accepted texts and token lists have matching parentheses, and are malformed exactly if two
operands stand side by side in them. -/
theorem accepted_derivable_iff (strict : Bool) (source : Text) (ts : List (Token Binary64)) :
    (∀ v, evaluate strict source = .ok v →
        ∃ us, tokenize strict source = .ok us ∧ Matches 0 us
          ∧ (Derivable us ↔ JuxtapositionFree us))
      ∧ (∀ v, evaluateTokens applyOperator ts = .ok v →
        Matches 0 ts ∧ (Derivable ts ↔ JuxtapositionFree ts)) := by
  refine ⟨fun v h => ?_, fun v h => ?_⟩
  · obtain ⟨us, hus, hv⟩ := tokenize_of_evaluate_ok h
    exact ⟨us, hus, matches_of_evaluateTokens_ok hv, derivable_iff_of_evaluateTokens_ok hv⟩
  · exact ⟨matches_of_evaluateTokens_ok h, derivable_iff_of_evaluateTokens_ok h⟩

/-- `2*(3+4)` is accepted and well-formed. -/
theorem accepted_derivable_iff_at_product :
    ∃ us, tokenize true "2*(3+4)".toList = .ok us ∧ Matches 0 us
      ∧ (Derivable us ↔ JuxtapositionFree us) :=
  (accepted_derivable_iff true "2*(3+4)".toList []).1 ⟨0x402C000000000000⟩ (by decide +kernel)

/-- `2(3)+` is accepted with the value five, although its operator stands behind both operands. -/
theorem malformed_sum_accepted :
    let ts : List (Token Binary64) := [.number ⟨0x4000000000000000⟩, .leftParen,
      .number ⟨0x4008000000000000⟩, .rightParen, .operator .add]
    evaluate true "2(3)+".toList = .ok ⟨0x4014000000000000⟩
      ∧ tokenize true "2(3)+".toList = .ok ts ∧ ¬Derivable ts := by
  refine ⟨by decide +kernel, by decide +kernel, fun ⟨_, he⟩ => ?_⟩
  exact absurd he.juxtapositionFree (by decide)

end Reckon
