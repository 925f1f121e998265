import Reckon.Decimal.Numeral
import Reckon.Text.Split

/-!
# Decimal numbers

A `Decimal` is a natural number of units of some power of ten. It is what a numeral in an expression
stands for before it is rounded to a machine number, and what a machine number is written as.

* `Decimal.ofRun?` reads a run of digits and points; it is defined exactly for the runs with a digit
  and at most one point.
* `Decimal.write` spells all digits in place, `Decimal.writeScientific` uses a power of ten.
-/

namespace Reckon

def powerOfTen (n : Nat) : Nat := Nat.pow 10 n

/-- The number `coefficient * 10 ^ exponent`. -/
structure Decimal where
  coefficient : Nat
  exponent : Int
  deriving DecidableEq

namespace Decimal

/-- With `denominator`, the number as a fraction of natural numbers. -/
def numerator (d : Decimal) : Nat :=
  d.coefficient * powerOfTen d.exponent.toNat

def denominator (d : Decimal) : Nat :=
  powerOfTen (-d.exponent).toNat

/-- The same number with no trailing zero in its coefficient. -/
def stripZeros (d : Decimal) : Decimal :=
  if d.coefficient ≠ 0 ∧ d.coefficient % 10 = 0 then
    stripZeros ⟨d.coefficient / 10, d.exponent + 1⟩
  else d
termination_by d.coefficient
decreasing_by omega

/-- Digits may stand on either side of the point, and one side may be empty, but not both. -/
def ofRun? (run : Text) : Option Decimal :=
  match splitOn '.' run with
  | [whole] =>
    if whole ≠ [] ∧ whole.all isDigit then some ⟨Numeral.read whole, 0⟩ else none
  | [whole, fraction] =>
    if whole ++ fraction ≠ [] ∧ (whole ++ fraction).all isDigit then
      some ⟨Numeral.read (whole ++ fraction), -(fraction.length : Int)⟩
    else none
  | _ => none

/-- All digits in place: an integer has no point, anything else has a digit on both sides of it. -/
def write (d : Decimal) : Text :=
  if 0 ≤ d.exponent then Numeral.write d.numerator
  else
    Numeral.write (d.coefficient / d.denominator)
      ++ '.' :: Numeral.writeFixed (-d.exponent).toNat (d.coefficient % d.denominator)

/-- One digit, the others after a point if there are any, and the power of ten after an `e`. -/
def writeScientific (d : Decimal) : Text :=
  match Numeral.write d.coefficient with
  | [] => []
  | [only] => only :: 'e' :: Numeral.writeInt d.exponent
  | first :: rest =>
    first :: '.' :: rest ++ 'e' :: Numeral.writeInt (d.exponent + rest.length)

end Decimal

end Reckon
