import Reckon.Evaluation
import Mathlib.Data.List.Chain

/-!
# The grammar of expressions

Which token lists are expressions, and what they stand for, said without any stack: a syntax tree
(`Expression`), its value by recursion, and the stratified grammar that relates token lists to
trees. The strata are counted by precedence. At level 1 stand sums, at level 2 products, at level 3
powers, and at level 4 the primaries, which are numbers and expressions in parentheses. Every
operator has operands of its own level on its left and of the next level on its right, so operators
of one precedence group to the left.
-/

namespace Reckon

variable {α : Type}

/-- A syntax tree. Parentheses leave no trace in it. -/
inductive Expression (α : Type)
  | number (x : α)
  | binary (op : Operator) (left right : Expression α)

namespace Expression

/-- The left operand first, then the right one, then the operator; the first fault decides. -/
def value (apply : Operator → α → α → Except EvalError α) : Expression α → Except EvalError α
  | number x => .ok x
  | binary op left right =>
    match left.value apply with
    | .error e => .error e
    | .ok x =>
      match right.value apply with
      | .error e => .error e
      | .ok y => apply op x y

end Expression

/-- `Derives k ts e`: the tokens `ts` spell the tree `e`, and no operator outside parentheses binds
less tightly than level `k`. -/
inductive Derives : Nat → List (Token α) → Expression α → Prop
  | number (x : α) : Derives 4 [.number x] (.number x)
  | group {ts : List (Token α)} {e : Expression α} (h : Derives 1 ts e) :
      Derives 4 (.leftParen :: (ts ++ [.rightParen])) e
  | looser {k : Nat} {ts : List (Token α)} {e : Expression α} (h : Derives (k + 1) ts e) :
      Derives k ts e
  | binary {op : Operator} {ts us : List (Token α)} {l r : Expression α}
      (hl : Derives op.precedence ts l) (hr : Derives (op.precedence + 1) us r) :
      Derives op.precedence (ts ++ .operator op :: us) (.binary op l r)

/-- The tokens spell an expression. -/
def Derivable (ts : List (Token α)) : Prop :=
  ∃ e, Derives 1 ts e

/-- What is derived at a level is derived at every looser one. -/
theorem Derives.mono {j k : Nat} {ts : List (Token α)} {e : Expression α} (h : Derives k ts e)
    (hjk : j ≤ k) : Derives j ts e := by
  -- one `looser` for each level between the two
  induction hjk using Nat.decreasingInduction with
  | self => exact h
  | of_succ i _ ih => exact .looser ih

/-! ## Side by side

Two operands stand side by side where a token that ends an operand is followed by one that begins
an operand. No derivation has such a place: what it puts next to an operand is an operator or a
parenthesis that faces the operand. -/

namespace Token

/-- The last token of an operand: a number, or the end of a group. -/
def endsOperand : Token α → Bool
  | number _ | rightParen => true
  | operator _ | leftParen => false

/-- The first token of an operand: a number, or the beginning of a group. -/
def beginsOperand : Token α → Bool
  | number _ | leftParen => true
  | operator _ | rightParen => false

/-- Whether `u` may stand right behind `t` when operands are kept apart. -/
def Apart (t u : Token α) : Prop :=
  t.endsOperand = false ∨ u.beginsOperand = false

instance (t u : Token α) : Decidable (Apart t u) :=
  inferInstanceAs (Decidable (_ ∨ _))

theorem apart_of_operator_left (op : Operator) (u : Token α) : Apart (operator op) u := .inl rfl

theorem apart_of_operator_right (t : Token α) (op : Operator) : Apart t (operator op) := .inr rfl

end Token

/-- No two operands stand side by side. -/
def JuxtapositionFree (ts : List (Token α)) : Prop :=
  ts.IsChain Token.Apart

instance (ts : List (Token α)) : Decidable (JuxtapositionFree ts) :=
  inferInstanceAs (Decidable (ts.IsChain Token.Apart))

/-- In a derived list no two operands stand side by side. -/
theorem Derives.juxtapositionFree {k : Nat} {ts : List (Token α)} {e : Expression α}
    (h : Derives k ts e) : JuxtapositionFree ts := by
  unfold JuxtapositionFree
  -- on the derivation: its parts have no such place, so only where they meet is to be looked at
  induction h with
  | number x => exact List.isChain_singleton _
  | @group ts e _ ih =>
    -- the opening parenthesis ends no operand, and the closing one begins none
    have hclosed : (ts ++ [Token.rightParen]).IsChain Token.Apart :=
      List.isChain_append.2 ⟨ih, List.isChain_singleton _, fun _ _ u hu => by
        obtain rfl : Token.rightParen = u := by simpa using hu
        exact .inr rfl⟩
    exact List.isChain_cons.2 ⟨fun _ _ => .inl rfl, hclosed⟩
  | looser _ ih => exact ih
  | @binary op ts us l r _ _ ihl ihr =>
    -- the operator faces both operands
    have hright : (Token.operator op :: us).IsChain Token.Apart :=
      List.isChain_cons.2 ⟨fun u _ => Token.apart_of_operator_left op u, ihr⟩
    refine List.isChain_append.2 ⟨ihl, hright, fun t _ u hu => ?_⟩
    obtain rfl : Token.operator op = u := by simpa using hu
    exact Token.apart_of_operator_right t op

end Reckon
