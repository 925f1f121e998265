import Reckon.Text.Basic

/-!
# Operators

The seven binary operators, their spellings and how tightly they bind. Two of them are spelled with
two characters; while a text is read they stand as one character each (`Operator.powerMark`,
`Operator.intDivMark`).
-/

namespace Reckon

inductive Operator
  | add
  | sub
  | mul
  | div
  | pow
  | rem
  | intDiv
  deriving DecidableEq

namespace Operator

/-- Stands for two stars while a text is read. -/
def powerMark : Char := '^'

/-- Stands for two slashes while a text is read. -/
def intDivMark : Char := '#'

/-- The higher binds tighter. -/
def precedence : Operator → Nat
  | add | sub => 1
  | mul | div | rem | intDiv => 2
  | pow => 3

/-- The spelling in expressions and messages. -/
def symbol : Operator → Text
  | add => ['+']
  | sub => ['-']
  | mul => ['*']
  | div => ['/']
  | pow => ['*', '*']
  | rem => ['%']
  | intDiv => ['/', '/']

/-- The one character that the operator is read from. -/
def mark : Operator → Char
  | add => '+'
  | sub => '-'
  | mul => '*'
  | div => '/'
  | pow => powerMark
  | rem => '%'
  | intDiv => intDivMark

/-- The name in token lists. -/
def name : Operator → Text
  | add => "Add".toList
  | sub => "Sub".toList
  | mul => "Mul".toList
  | div => "Div".toList
  | pow => "Pow".toList
  | rem => "Rem".toList
  | intDiv => "IntDiv".toList

def all : List Operator := [add, sub, mul, div, pow, rem, intDiv]

/-- The operator that a character stands for in a text where pairs are replaced by their marks. -/
def ofChar? (c : Char) : Option Operator :=
  all.find? fun op => op.mark == c

@[simp] theorem ofChar?_mark (op : Operator) : ofChar? op.mark = some op := by
  cases op <;> decide

/-- An operator is read from its mark and from no other character. -/
theorem ofChar?_eq_some_iff {c : Char} {op : Operator} : ofChar? c = some op ↔ c = op.mark := by
  constructor
  · intro h
    unfold ofChar? at h
    have hm := List.find?_some h
    exact (beq_iff_eq.1 hm).symm
  · rintro rfl
    exact ofChar?_mark op

theorem precedence_le_three (op : Operator) : op.precedence ≤ 3 := by
  cases op <;> decide

theorem one_le_precedence (op : Operator) : 1 ≤ op.precedence := by
  cases op <;> decide

end Operator

end Reckon
