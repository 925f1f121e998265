import Reckon.Text.Split

/-!
# Entries

An entry is one calculation: the expression as it was typed and its result as it was shown. A line
of the history file holds both with three semicolons between them; nothing is escaped, so an entry
with three semicolons of its own is not read back.
-/

namespace Reckon

structure Entry where
  expression : Text
  result : Text
  deriving DecidableEq

namespace Entry

/-- Stands between the two fields of a line. -/
def delimiter : Text := [';', ';', ';']

/-- The form for people to read. -/
def text (e : Entry) : Text :=
  e.expression ++ " -> ".toList ++ e.result

/-- The line of the history file, without its end. -/
def line (e : Entry) : Text :=
  e.expression ++ delimiter ++ e.result

/-- The fields of a line, without the empty ones at its end. -/
def fields (line : Text) : List Text :=
  ((splitOnSemicolons line).reverse.dropWhile List.isEmpty).reverse

/-- The entry of a line with exactly two fields. -/
def ofLine? (line : Text) : Option Entry :=
  match fields line with
  | [expression, result] => some ⟨expression, result⟩
  | _ => none

end Entry

end Reckon
