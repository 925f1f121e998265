import Reckon.Text.Split

/-!
# The menu

The commands of a session and the lines that choose them.
-/

namespace Reckon

inductive Choice
  | calculate
  | viewHistory
  | exportAll
  | exportSelected
  | quit
  deriving DecidableEq

/-- The choice that a line makes: one digit, with any blanks around it. -/
def Choice.ofLine? (line : Text) : Option Choice :=
  match line.trim with
  | ['1'] => some calculate
  | ['2'] => some viewHistory
  | ['3'] => some exportAll
  | ['4'] => some exportSelected
  | ['5'] => some quit
  | _ => none

/-- What is shown before a choice is asked for. -/
def menu : Text :=
  joinWith ['\n'] [
    [],
    "===== Calculator Menu =====".toList,
    "1. Enter an expression to calculate".toList,
    "2. View calculation history".toList,
    "3. Save the whole history to a file".toList,
    "4. Select history entries and save them to a file".toList,
    "5. Exit".toList]

end Reckon
