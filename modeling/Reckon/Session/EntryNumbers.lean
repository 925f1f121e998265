import Reckon.Decimal.Numeral
import Reckon.Text.Quoted
import Reckon.Text.Split

/-!
# Lists of entry numbers

Entry numbers are typed as decimal integers of 32 bits with commas between them. The list is read
as a whole: one bad part, the leftmost, is the fault of the list.
-/

namespace Reckon

/-- Why a text is no integer of 32 bits. -/
inductive IntegerFault
  | empty
  | invalidDigit
  | tooLarge
  | tooSmall
  deriving DecidableEq

def IntegerFault.message : IntegerFault → Text
  | empty => "cannot parse integer from empty string".toList
  | invalidDigit => "invalid digit found in string".toList
  | tooLarge => "number too large to fit in target type".toList
  | tooSmall => "number too small to fit in target type".toList

structure EntryNumberError where
  part : Text
  cause : IntegerFault
  deriving DecidableEq

namespace EntryNumberError

def message (e : EntryNumberError) : Text :=
  "invalid entry number: ".toList ++ Text.quoted e.part

def description : Text := "Invalid entry number".toList

def causes (e : EntryNumberError) : List Text := [e.cause.message]

end EntryNumberError

namespace EntryNumbers

/-- The number of the digits after those that gave `value`. Digits are taken from the left, and the
first one that is none, or that leads above `limit`, decides; `above` is the fault in that case. -/
def readDigits (limit : Nat) (above : IntegerFault) : Text → Nat → Except IntegerFault Nat
  | [], value => .ok value
  | c :: rest, value =>
    if !isDigit c then .error .invalidDigit
    else
      let value := value * 10 + Numeral.digitValue c
      if limit < value then .error above else readDigits limit above rest value

/-- The largest integer of 32 bits; the least one is one further from zero. -/
def largest : Nat := 2147483647

/-- The digits behind a sign, or all of an unsigned numeral: there must be one at least. -/
def readMagnitude (limit : Nat) (above : IntegerFault) (digits : Text) : Except IntegerFault Nat :=
  if digits = [] then .error .invalidDigit else readDigits limit above digits 0

/-- The integer that a text spells, with a sign or without. -/
def readInteger : Text → Except IntegerFault Int
  | [] => .error .empty
  | '-' :: digits => (readMagnitude (largest + 1) .tooSmall digits).map fun n => -(n : Int)
  | '+' :: digits => (readMagnitude largest .tooLarge digits).map fun n => (n : Int)
  | digits => (readMagnitude largest .tooLarge digits).map fun n => (n : Int)

/-- Reads the parts in order, up to the first bad one. -/
def readParts : List Text → Except EntryNumberError (List Int)
  | [] => .ok []
  | part :: rest =>
    match readInteger part.trim with
    | .error cause => .error ⟨part.trim, cause⟩
    | .ok i => (readParts rest).map (i :: ·)

end EntryNumbers

/-- The entry numbers in a line. -/
def readEntryNumbers (line : Text) : Except EntryNumberError (List Int) :=
  EntryNumbers.readParts (splitOn ',' line)

end Reckon
