import Reckon.Binary64.Shortest

/-!
# How numbers are written

Three spellings of a number, which differ on integers:

* `resultText` is what the user sees and what the record keeps: an integer in all its digits.
* `plainText` appears in messages: the shortest digits, filled up with zeros on the left of the
  point.
* `listText` appears in token lists: the shortest digits with a point or a power of ten.
-/

namespace Reckon.Binary64

/-- From this power of ten on, a token list uses scientific spelling. -/
def scientificFrom : Nat := powerOfTen 16

/-- Below one part in this many, a token list uses scientific spelling. -/
def scientificBelow : Nat := powerOfTen 4

/-- The sign in front of the text of the absolute value. -/
def signed (x : Binary64) (t : Text) : Text :=
  if x.isNegative then '-' :: t else t

/-- The shortest digits in place. -/
def plainText (x : Binary64) : Text :=
  if x.isNaN then ['N', 'a', 'N']
  else if x.isInfinite then x.signed ['i', 'n', 'f']
  else if x.isZero then x.signed ['0']
  else x.signed (shortest x.magnitude).write

/-- Integers in all their digits, whatever their size, and zero without a sign. -/
def resultText (x : Binary64) : Text :=
  if x.isIntegral then
    if x.isZero then ['0'] else x.signed (Numeral.write (x.units / unitsPerOne))
  else x.plainText

/-- Always recognisable as a number with a fraction: integers end in `.0`, and very large and very
small values carry a power of ten. -/
def listText (x : Binary64) : Text :=
  if x.isNaN then ['N', 'a', 'N']
  else if x.isInfinite then x.signed ['i', 'n', 'f']
  else if x.isZero then x.signed ['0', '.', '0']
  else if scientificFrom * unitsPerOne ≤ x.units ∨ x.units * scientificBelow < unitsPerOne then
    x.signed (shortest x.magnitude).writeScientific
  else if x.isIntegral then x.signed ((shortest x.magnitude).write ++ ['.', '0'])
  else x.signed (shortest x.magnitude).write

end Reckon.Binary64
