import Mathlib.Algebra.Order.BigOperators.Group.List
import Mathlib.Algebra.Order.Ring.Nat
import Reckon.Proofs.Nesting

/-!
# Levels of the pending stack

An opening parenthesis on the pending stack begins a level, on which operators wait that were read
since. An operator waits only above those of its level that bind less tightly, and every other move
takes from the stack or begins a level. So on each level the operators bind the tighter the higher
they stand (`rising_of_moves`), and whatever has them applied may take them from the top without
comparing them. As there are three precedences, a level holds three operators at most, and the
height of the stack is bounded by the number of open parentheses.
-/

namespace Reckon

open Position

variable {α : Type}

/-! ## Levels

The levels are the pieces of the stack between its marks. They are computed by cutting, and the
lemmas say how they change when something is pushed. -/

/-- The operator that waits, unless it is a mark. -/
def Pending.operator? : Pending → Option Operator
  | op o => some o
  | opened => none

/-- The operators between the opening parentheses of a stack, the innermost level first and the
topmost operator of a level first. -/
def levels (ps : List Pending) : List (List Operator) :=
  (splitOn .opened ps).map (List.filterMap Pending.operator?)

theorem levels_nil : levels [] = [[]] := rfl

theorem levels_opened (ps : List Pending) : levels (.opened :: ps) = [] :: levels ps := by
  simp [levels, splitOn]

/-- There is always an innermost level. -/
theorem exists_levels_eq_cons (ps : List Pending) : ∃ level outer, levels ps = level :: outer :=
  List.exists_cons_of_ne_nil (by simp [levels])

/-- An operator stands on the innermost level. -/
theorem levels_op {ps : List Pending} {level : List Operator} {outer : List (List Operator)}
    (h : levels ps = level :: outer) (o : Operator) :
    levels (.op o :: ps) = (o :: level) :: outer := by
  obtain ⟨piece, more, hpieces⟩ := List.exists_cons_of_ne_nil (splitOn_ne_nil Pending.opened ps)
  rw [levels, hpieces, List.map_cons] at h
  obtain ⟨rfl, rfl⟩ := List.cons.inj h
  have hop : Pending.op o ≠ .opened := Pending.noConfusion
  rw [levels, splitOn, if_neg hop, hpieces]
  rfl

/-- There is one level more than there are parentheses open. -/
theorem length_levels (ps : List Pending) : (levels ps).length = openedCount ps + 1 := by
  rw [levels, List.length_map, length_splitOn, openedCount]

/-- The stack consists of the operators of its levels and of the parentheses between them. -/
theorem length_eq_sum_levels (ps : List Pending) :
    ps.length = ((levels ps).map List.length).sum + openedCount ps := by
  induction ps with
  | nil => rfl
  | cons p below ih =>
    rw [List.length_cons, ih]
    cases p with
    | opened => simp [levels_opened, Nat.add_assoc]
    | op o =>
      obtain ⟨level, outer, hlevels⟩ := exists_levels_eq_cons below
      simp only [levels_op hlevels, hlevels, List.map_cons, List.sum_cons, List.length_cons,
        openedCount_op]
      omega

/-! ## Rising precedence

The condition on a whole stack comes down to one comparison when an operator is pushed, and that is
the comparison which the loop makes: it stops popping where the top binds less tightly. -/

/-- On each level, the operators bind the tighter the higher they stand. -/
def Rising (ps : List Pending) : Prop :=
  ∀ level ∈ levels ps, level.Pairwise fun upper lower => lower.precedence < upper.precedence

theorem rising_nil : Rising [] := by
  simp [Rising, levels_nil]

/-- A level that was just begun has nothing on it to compare. -/
theorem rising_opened_iff {ps : List Pending} : Rising (.opened :: ps) ↔ Rising ps := by
  simp [Rising, levels_opened]

/-- Below the topmost operator nothing on its level binds as tightly, so the top alone decides
whether another operator may wait above. -/
theorem rising_op_iff {o : Operator} {ps : List Pending} :
    Rising (.op o :: ps) ↔ TopBelow o.precedence ps ∧ Rising ps := by
  cases ps with
  | nil => simp [Rising, levels_op levels_nil, levels_nil, TopBelow]
  | cons p below =>
    cases p with
    | opened => simp [Rising, levels_op (levels_opened below), levels_opened, TopBelow]
    | op top =>
      obtain ⟨level, outer, hlevels⟩ := exists_levels_eq_cons below
      have htop := levels_op hlevels top
      simp only [Rising, levels_op htop, htop, List.forall_mem_cons, List.pairwise_cons, TopBelow]
      constructor
      · rintro ⟨⟨⟨hlt, -⟩, hlevel⟩, houter⟩
        exact ⟨hlt, hlevel, houter⟩
      · rintro ⟨hlt, ⟨hbelow, hlevel⟩, houter⟩
        -- the top binds tightest on its level, so what may wait above it may wait above them all
        have hall : ∀ lower ∈ level, lower.precedence < o.precedence :=
          fun lower hlower => Nat.lt_trans (hbelow lower hlower) hlt
        exact ⟨⟨⟨hlt, hall⟩, hbelow, hlevel⟩, houter⟩

/-- What is left when the stack is popped. -/
theorem Rising.suffix {ps rest : List Pending} (h : Rising ps) (hrest : rest <:+ ps) :
    Rising rest := by
  obtain ⟨front, rfl⟩ := hrest
  induction front with
  | nil => exact h
  | cons p front ih =>
    cases p with
    | opened => exact ih (rising_opened_iff.1 h)
    | op o => exact ih (rising_op_iff.1 h).2

/-- A level is no higher than the precedence to which it rises. -/
theorem length_le_of_pairwise {level : List Operator} {n : Nat}
    (h : level.Pairwise fun upper lower => lower.precedence < upper.precedence)
    (hn : ∀ o ∈ level, o.precedence ≤ n) : level.length ≤ n := by
  induction level generalizing n with
  | nil => exact Nat.zero_le n
  | cons top below ih =>
    obtain ⟨hbelow, hrest⟩ := List.pairwise_cons.1 h
    have htop : top.precedence ≤ n := hn top List.mem_cons_self
    -- everything below the top binds less tightly, so it rises to a smaller precedence
    have hlength : below.length ≤ top.precedence - 1 :=
      ih hrest fun o ho => Nat.le_sub_one_of_lt (hbelow o ho)
    have hpositive := top.one_le_precedence
    rw [List.length_cons]
    omega

/-- A stack on which the operators of each level rise, and which is therefore no higher than its
open parentheses allow. -/
structure Layered (ps : List Pending) : Prop where
  rising : Rising ps
  short : ∀ level ∈ levels ps, level.length ≤ 3
  bounded : ps.length ≤ 4 * openedCount ps + 3

/-- Rising is enough for the bounds. -/
theorem Rising.layered {ps : List Pending} (h : Rising ps) : Layered ps := by
  have hshort : ∀ level ∈ levels ps, level.length ≤ 3 := fun level hlevel =>
    length_le_of_pairwise (h level hlevel) fun o _ => o.precedence_le_three
  refine ⟨h, hshort, ?_⟩
  -- the levels are one more than the parentheses between them
  have hsum : ((levels ps).map List.length).sum ≤ ((levels ps).map List.length).length • 3 :=
    List.sum_le_card_nsmul _ 3 (List.forall_mem_map.2 hshort)
  rw [List.length_map, length_levels, Nat.nsmul_eq_mul] at hsum
  rw [length_eq_sum_levels]
  omega

/-! ## On the way

`Rising` is kept by every move. Only one of them pushes an operator, and its guard is what
`rising_op_iff` asks for. -/

section

variable {apply : Operator → α → α → Except EvalError α} {p q : Position α}

/-- The operators rise after a move if they did before it. -/
theorem rising_of_move (h : Move apply p q) (hp : Rising p.pending) : Rising q.pending := by
  cases h with
  | number x ts os log ps => exact hp
  | leftParen ts w ps => exact rising_opened_iff.2 hp
  | rightParen ts w ps => exact rising_opened_iff.1 hp
  -- the one move that has an operator wait
  | operator op ts w ps htop => exact rising_op_iff.2 ⟨htop, hp⟩
  | reduce op left right result ts os log ps hnext happly => exact (rising_op_iff.1 hp).2

/-- From an empty stack on they rise at every position. -/
theorem rising_of_moves (h : Moves apply p q) (hp : Rising p.pending) : Rising q.pending := by
  induction h with
  | refl => exact hp
  | tail _ hmove ih => exact rising_of_move hmove ih

/-- The parentheses that are open, and those that the unread tokens open, less those that they
close. -/
def Position.nesting (p : Position α) : Int :=
  openedCount p.pending + openings p.unread - closings p.unread

/-- A move only takes a parenthesis from the tokens to the stack, or both from where they are. -/
theorem nesting_of_move (h : Move apply p q) : p.nesting = q.nesting := by
  cases h <;> simp [nesting, Token.isLeftParen, Token.isRightParen] <;> omega

theorem nesting_of_moves (h : Moves apply p q) : p.nesting = q.nesting := by
  induction h with
  | refl => rfl
  | tail _ hmove ih => rw [ih, nesting_of_move hmove]

/-- The marks on the stack are those of the parentheses that were opened and not closed. -/
theorem openings_of_moves {read unread : List (Token α)} {w : Workings α} {ps : List Pending}
    (h : Moves apply (.start (read ++ unread)) ⟨unread, w, ps⟩) :
    openings read = closings read + openedCount ps := by
  have hnesting := nesting_of_moves h
  simp only [nesting, start, openings, closings, List.countP_append, openedCount_nil] at hnesting
  simp only [openings, closings]
  omega

end

/-- At every point of an evaluation, before each token and around each application, the operators
that wait since the same opening parenthesis bind the tighter the later they came. So at most three
of them wait, and with `d` parentheses open the stack holds no more than `4 * d + 3` entries. As the
loops that a token sets off only pop, the same is said of what they leave of the stack. The
parentheses that are open on it are those that the tokens read have opened and not closed. -/
theorem pending_operators_rise (apply : Operator → α → α → Except EvalError α)
    (ts : List (Token α)) :
    (∀ p, Moves apply (.start ts) p →
        (∃ read, ts = read ++ p.unread
          ∧ openings read = closings read + openedCount p.pending)
          ∧ ∀ ps, ps <:+ p.pending → Layered ps)
      ∧ ∀ read unread s, ts = read ++ unread →
        Evaluation.run apply read Stacks.empty = .ok s →
        openings read = closings read + openedCount s.pending
          ∧ ∀ ps, ps <:+ s.pending → Layered ps := by
  have hlayered : ∀ p, Moves apply (.start ts) p → ∀ ps, ps <:+ p.pending → Layered ps :=
    fun p hmoves ps hps => ((rising_of_moves hmoves rising_nil).suffix hps).layered
  constructor
  · intro p hmoves
    obtain ⟨read, rfl⟩ := exists_read_of_moves hmoves
    exact ⟨⟨read, rfl, openings_of_moves hmoves⟩, hlayered p hmoves⟩
  · rintro read unread s rfl hrun
    have hmoves := moves_of_run hrun unread
    exact ⟨openings_of_moves hmoves, hlayered _ hmoves⟩

/-- Behind `2*(1+3-2**` the sum is worked out, since the difference does not wait above it, and the
power waits above the difference. -/
theorem pending_operators_rise_in_parentheses :
    let ts : List (Token Binary64) := [.number ⟨0x4000000000000000⟩, .operator .mul, .leftParen,
      .number ⟨0x3FF0000000000000⟩, .operator .add, .number ⟨0x4008000000000000⟩, .operator .sub,
      .number ⟨0x4000000000000000⟩, .operator .pow]
    let ps : List Pending := [.op .pow, .op .sub, .opened, .op .mul]
    (∃ w, Evaluation.run applyOperator ts Stacks.empty = .ok ⟨w, ps⟩
        ∧ Moves applyOperator (.start ts) ⟨[], w, ps⟩)
      ∧ levels ps = [[.pow, .sub], [.mul]] ∧ openings ts = closings ts + 1
      ∧ Layered ps ∧ Layered [.op .sub, .opened, .op .mul] := by
  intro ts ps
  obtain ⟨hmoves, hrun⟩ := pending_operators_rise applyOperator ts
  have hread : Evaluation.run applyOperator ts Stacks.empty = .ok ⟨⟨[⟨0x4000000000000000⟩,
      ⟨0x4010000000000000⟩, ⟨0x4000000000000000⟩],
      [⟨.add, ⟨0x3FF0000000000000⟩, ⟨0x4008000000000000⟩, ⟨0x4010000000000000⟩⟩]⟩, ps⟩ := rfl
  have hreached : Moves applyOperator (.start ts) ⟨[], _, ps⟩ := moves_of_run hread []
  obtain ⟨hopened, hlayered⟩ := hrun ts [] _ (List.append_nil ts).symm hread
  exact ⟨⟨_, hread, hreached⟩, rfl, hopened, hlayered _ (List.suffix_refl ps),
    (hmoves _ hreached).2 _ (List.suffix_cons _ _)⟩

/-- The bound is reached for every number of open parentheses. -/
theorem exists_full_stack (apply : Operator → α → α → Except EvalError α) (depth : Nat) :
    ∃ ts s, Evaluation.run apply ts Stacks.empty = .ok s ∧ openedCount s.pending = depth
      ∧ s.pending.length = 4 * depth + 3 := by
  induction depth with
  | zero => exact ⟨[.operator .add, .operator .mul, .operator .pow], _, rfl, rfl, rfl⟩
  | succ depth ih =>
    obtain ⟨ts, s, hrun, hopened, hlength⟩ := ih
    -- each parenthesis makes room for another full level on top of it
    refine ⟨ts ++ [.leftParen, .operator .add, .operator .mul, .operator .pow],
      ⟨s.workings, .op .pow :: .op .mul :: .op .add :: .opened :: s.pending⟩, ?_, ?_, ?_⟩
    · rw [Evaluation.run_append, hrun]
      rfl
    · simp [hopened]
    · simp only [List.length_cons, hlength]
      omega

end Reckon
