import Reckon.Operator

/-!
# Tokens

An expression is a list of tokens: numbers, binary operators and parentheses. The type of the
numbers is a parameter, because neither the grammar nor the evaluation looks inside them.
-/

namespace Reckon

inductive Token (α : Type)
  | number (x : α)
  | operator (op : Operator)
  | leftParen
  | rightParen
  deriving DecidableEq

namespace Token

variable {α β : Type}

/-- The same token with another number. -/
def map (f : α → β) : Token α → Token β
  | number x => .number (f x)
  | operator op => .operator op
  | leftParen => .leftParen
  | rightParen => .rightParen

/-- The name in the log, with numbers spelled by `spell`. -/
def name (spell : α → Text) : Token α → Text
  | number x => "Number(".toList ++ spell x ++ [')']
  | operator op => "Operator(".toList ++ op.name ++ [')']
  | leftParen => "LeftParen".toList
  | rightParen => "RightParen".toList

/-- The names between brackets, with commas between them. -/
def listName (spell : α → Text) (tokens : List (Token α)) : Text :=
  '[' :: ((tokens.map (name spell)).intersperse [',', ' ']).flatten ++ [']']

end Token

end Reckon
