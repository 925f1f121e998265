import Reckon.Proofs.Accounting
import Reckon.Proofs.Grammar

/-!
# From accounts to derivations

When no two operands stand side by side, the count of numbers and operators says where each of them
stands. Between two numbers there is an operator at least, so a list with one number more than
operators has exactly one there and none elsewhere (`alternates_of_excess`). Reading such a list
token by token keeps the derivations of what was read (`Context`, `Midway`), and matching
parentheses let it end in a derivation of the whole (`derivable_of_accounts`).
-/

namespace Reckon

open Position

variable {α : Type}

/-! ## Operands and operators in turn

Where operands stand apart, the count can only be lost: behind an operand comes an operator or a
closing parenthesis, and each place where an operand is missing costs one. A list that still has one
number more than operators has lost none. -/

/-- The tokens go on correctly up to the end of an expression, apart from which parentheses are
open. The flag tells whether an operand has just ended. -/
def Alternates : Bool → List (Token α) → Prop
  | true, [] => True
  | true, .rightParen :: ts => Alternates true ts
  | true, .operator _ :: ts => Alternates false ts
  | false, .number _ :: ts => Alternates true ts
  | false, .leftParen :: ts => Alternates false ts
  | _, _ => False

/-- What may follow when an operand has just ended. -/
def FitsBehind (ended : Bool) (ts : List (Token α)) : Prop :=
  ended = true → ∀ t ∈ ts.head?, t.beginsOperand = false

/-- Behind an operand of such a list nothing begins another one. -/
theorem fitsBehind_of_juxtapositionFree {t : Token α} {ts : List (Token α)}
    (h : JuxtapositionFree (t :: ts)) : FitsBehind t.endsOperand ts := by
  intro hends u hu
  rcases (List.isChain_cons.1 h).1 u hu with ht | hu
  · rw [hends] at ht
    cases ht
  · exact hu

theorem JuxtapositionFree.tail {t : Token α} {ts : List (Token α)}
    (h : JuxtapositionFree (t :: ts)) : JuxtapositionFree ts :=
  (List.isChain_cons.1 h).2

/-- The excess is at most one, or zero behind an operand, and where it is reached operands and
operators take turns. -/
theorem alternates_of_excess (ts : List (Token α)) (ended : Bool) (hfits : FitsBehind ended ts)
    (hfree : JuxtapositionFree ts) :
    excess ts ≤ 1 - ended.toNat ∧ (excess ts = 1 - ended.toNat → Alternates ended ts) := by
  -- both states at once: every token leads from one of them to the state that it ends in
  induction ts generalizing ended with
  | nil => cases ended <;> simp [Alternates]
  | cons t ts ih =>
    have hnext := ih t.endsOperand (fitsBehind_of_juxtapositionFree hfree) hfree.tail
    cases ended with
    | false =>
      cases t with
      | number x | leftParen =>
        simp only [excess_cons, Token.weight, Token.endsOperand, Bool.toNat_true, Bool.toNat_false,
          Alternates] at hnext ⊢
        exact ⟨by omega, fun he => hnext.2 (by omega)⟩
      | operator op | rightParen =>
        -- an operand is missing here, and no later one can make up for it
        simp only [excess_cons, Token.weight, Token.endsOperand, Bool.toNat_true,
          Bool.toNat_false] at hnext ⊢
        exact ⟨by omega, fun he => by omega⟩
    | true =>
      have hbegins : t.beginsOperand = false := hfits rfl t rfl
      cases t with
      | number x | leftParen => cases hbegins
      | operator op | rightParen =>
        simp only [excess_cons, Token.weight, Token.endsOperand, Bool.toNat_true, Bool.toNat_false,
          Alternates] at hnext ⊢
        exact ⟨by omega, fun he => hnext.2 (by omega)⟩

/-! ## What was read so far

The stack of the evaluation is followed without its values: each operator on it waits with a
derivation of its left operand. Joining the operators on top with the operand behind them is what
the loops do when they apply them. -/

/-- The tokens read when an operand is due, with the parentheses and operators that wait in them.
An operator waits with a derivation of its left operand, and nothing below it binds as tightly. -/
inductive Context : List Pending → List (Token α) → Prop
  | bottom : Context [] []
  | opened {ps : List Pending} {ts : List (Token α)} (h : Context ps ts) :
      Context (.opened :: ps) (ts ++ [.leftParen])
  | op {op : Operator} {ps : List Pending} {ts us : List (Token α)} {l : Expression α}
      (h : Context ps ts) (htop : TopBelow op.precedence ps) (hl : Derives op.precedence us l) :
      Context (.op op :: ps) (ts ++ us ++ [.operator op])

/-- The tokens read in either state. Behind an operand, which is a primary, its derivation is known
too. -/
inductive Midway : Bool → List Pending → List (Token α) → Prop
  | due {ps : List Pending} {ts : List (Token α)} (h : Context ps ts) : Midway false ps ts
  | ended {ps : List Pending} {ts us : List (Token α)} {e : Expression α} (h : Context ps ts)
      (he : Derives 4 us e) : Midway true ps (ts ++ us)

/-- Operators that bind at least as tightly as level `j` are joined with the operand behind them,
and what they give is derived at level `j`. -/
theorem Context.join {j k : Nat} {ps : List Pending} {ts us : List (Token α)} {e : Expression α}
    (h : Context ps ts) (htop : TopBelow k ps) (he : Derives k us e) (hjk : j ≤ k) :
    ∃ ps' ts' us' e', Context ps' ts' ∧ TopBelow j ps' ∧ Derives j us' e'
      ∧ ts ++ us = ts' ++ us' ∧ openedCount ps' = openedCount ps := by
  -- on the context, from its end: the operators that stand last are joined first
  induction h generalizing k us e with
  | bottom => exact ⟨[], [], us, e, .bottom, trivial, he.mono hjk, rfl, rfl⟩
  | @opened ps ts h _ => exact ⟨_, _, us, e, .opened h, trivial, he.mono hjk, rfl, rfl⟩
  | @op op ps ts vs l h htop' hl ih =>
    have hlt : op.precedence < k := htop
    by_cases hj : op.precedence < j
    · -- it stays, and with it everything below it
      exact ⟨_, _, us, e, .op h htop' hl, hj, he.mono hjk, rfl, rfl⟩
    · -- it takes the operand behind it as its right one, and the search goes on below it
      have hjoined : Derives op.precedence (vs ++ .operator op :: us) (.binary op l e) :=
        .binary hl (he.mono hlt)
      obtain ⟨ps', ts', us', e', h', htop'', he', heq, hcount⟩ := ih htop' hjoined (Nat.not_lt.1 hj)
      refine ⟨ps', ts', us', e', h', htop'', he', ?_, ?_⟩
      · rw [← heq]
        simp
      · rw [hcount, openedCount_op]

/-- No operator binds as tightly as a primary. -/
theorem topBelow_four (ps : List Pending) : TopBelow 4 ps := by
  match ps with
  | [] => trivial
  | .opened :: _ => trivial
  | .op op :: _ => exact Nat.lt_succ_of_le op.precedence_le_three

/-- Below level 1 there is no operator: what tops such a stack is an opening parenthesis. -/
theorem eq_nil_or_opened_of_topBelow_one {ps : List Pending} (h : TopBelow 1 ps) :
    ps = [] ∨ ∃ below, ps = .opened :: below := by
  match ps, h with
  | [], _ => exact .inl rfl
  | .opened :: below, _ => exact .inr ⟨below, rfl⟩
  | .op op :: _, h => exact absurd op.one_le_precedence (Nat.not_le.2 h)

/-- Where nothing waits nothing was read. -/
theorem Context.eq_nil {ts : List (Token α)} (h : Context [] ts) : ts = [] := by
  cases h
  rfl

/-- An opening parenthesis that is on top was read last. -/
theorem Context.of_opened {ps : List Pending} {ts : List (Token α)}
    (h : Context (.opened :: ps) ts) : ∃ ts', Context ps ts' ∧ ts = ts' ++ [.leftParen] := by
  cases h with
  | opened h => exact ⟨_, h, rfl⟩

/-! ## To the end

A closing parenthesis and the end of the list join everything that waits behind the last opening
parenthesis. At the end there must be no such parenthesis, at a closing one there must be one, and
the matching of parentheses sees to both. -/

/-- Behind an operand nothing but an opening parenthesis, or nothing at all, waits once the
operators are joined with their operands. -/
theorem Midway.join_all {ps : List Pending} {ts : List (Token α)} (h : Midway true ps ts) :
    (openedCount ps = 0 ∧ Derivable ts)
      ∨ ∃ below ts' us e, Context below ts' ∧ Derives 1 us e ∧ ts = ts' ++ .leftParen :: us
          ∧ openedCount ps = openedCount below + 1 := by
  cases h with
  | @ended ps ts us e h he =>
    obtain ⟨ps', ts', us', e', h', htop, he', heq, hcount⟩ :=
      h.join (topBelow_four ps) he (show 1 ≤ 4 by decide)
    -- nothing binds as weakly as level 1, so the stack is empty or a parenthesis is on top
    rcases eq_nil_or_opened_of_topBelow_one htop with rfl | ⟨below, rfl⟩
    · obtain rfl := h'.eq_nil
      exact .inl ⟨hcount.symm, e', heq ▸ he'⟩
    · obtain ⟨ts'', h'', rfl⟩ := h'.of_opened
      refine .inr ⟨below, ts'', us', e', h'', he', ?_, ?_⟩
      · rw [heq]
        simp
      · rw [← hcount, openedCount_opened]

/-- Tokens that go on correctly and close what is open complete what was read to an expression. -/
theorem Midway.derivable {ended : Bool} {ps : List Pending} {ts rest : List (Token α)}
    (h : Midway ended ps ts) (halt : Alternates ended rest)
    (hmatch : Matches (openedCount ps) rest) : Derivable (ts ++ rest) := by
  -- on what is still to come, with one case for each token that can come in either state
  induction rest generalizing ended ps ts with
  | nil =>
    cases ended with
    | false => exact halt.elim
    | true =>
      -- nothing closes a parenthesis any more, so none is open
      rcases h.join_all with ⟨-, hts⟩ | ⟨_, _, _, _, -, -, -, hcount⟩
      · simpa using hts
      · rw [matches_nil, hcount] at hmatch
        cases hmatch
  | cons t rest ih =>
    rw [List.append_cons]
    cases ended with
    | false =>
      cases h with
      | due h =>
        cases t with
        | number x => exact ih (.ended h (.number x)) halt ((matches_number _ x rest).1 hmatch)
        | leftParen =>
          refine ih (.due (.opened h)) halt ?_
          rw [openedCount_opened]
          exact (matches_leftParen _ rest).1 hmatch
        | operator op | rightParen => exact halt.elim
    | true =>
      cases t with
      | number x | leftParen => exact halt.elim
      | rightParen =>
        rcases h.join_all with ⟨hcount, -⟩ | ⟨below, ts', us, e, h', he, heq, hcount⟩
        · rw [hcount] at hmatch
          exact hmatch.elim
        · rw [hcount, matches_rightParen] at hmatch
          -- the group is the operand that has ended now
          have hgroup := Midway.ended h' (.group he)
          have hts : ts ++ [Token.rightParen] = ts' ++ .leftParen :: (us ++ [.rightParen]) := by
            rw [heq]
            simp
          exact ih (hts ▸ hgroup) halt hmatch
      | operator op =>
        cases h with
        | @ended ps ts us e h he =>
          -- operators of the same precedence are joined too, and so the left operand is complete
          have hle : op.precedence ≤ 4 := Nat.le_succ_of_le op.precedence_le_three
          obtain ⟨ps', ts', us', e', h', htop, he', heq, hcount⟩ :=
            h.join (topBelow_four ps) he hle
          have hwaiting : Context (.op op :: ps') (ts ++ us ++ [.operator op]) := by
            rw [heq]
            exact .op h' htop he'
          refine ih (.due hwaiting) halt ?_
          rw [openedCount_op, hcount]
          exact (matches_operator _ op rest).1 hmatch

/-- Operands apart, one number more than operators and matching parentheses make an expression. -/
theorem derivable_of_accounts {ts : List (Token α)} (hfree : JuxtapositionFree ts)
    (hexcess : excess ts = 1) (hmatch : Matches 0 ts) : Derivable ts := by
  have hfits : FitsBehind false ts := fun hended => by cases hended
  have halt : Alternates false ts := (alternates_of_excess ts false hfits hfree).2 (by simpa)
  exact Midway.derivable (.due .bottom) halt hmatch

end Reckon
