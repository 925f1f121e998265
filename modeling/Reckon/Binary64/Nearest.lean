import Reckon.Binary64
import Reckon.Decimal

/-!
# The nearest machine number

`nearestMagnitude` rounds a fraction of natural numbers to the nearest binary64 value, a tie to
the one with an even last bit, and to infinity from half a step above the largest finite value on.
Reading a numeral (`ofDecimal`) is this rounding, done once on the exact decimal value.
-/

namespace Reckon

/-- The natural number nearest to `n / d`; of two equally near ones, the even one. -/
def roundHalfEven (n d : Nat) : Nat :=
  let q := n / d
  let r := n % d
  if 2 * r < d then q
  else if d < 2 * r then q + 1
  else if q % 2 = 0 then q
  else q + 1

namespace Binary64

/-- The word nearest to `n / d` units. The step between values is `2 ^ shift` units, chosen so that
the quotient has at most 53 bits; a quotient that rounds up to 54 bits carries into the
exponent and gives the right word all the same. -/
def nearestToUnits (n d : Nat) : Nat :=
  let whole := n / d
  let shift := if whole < 2 * fractions then 0 else whole.log2 - 52
  min (shift * fractions + roundHalfEven n (d * powerOfTwo shift)) infiniteMagnitude

/-- The magnitude of the value nearest to the fraction `n / d`. -/
def nearestMagnitude (n d : Nat) : Nat :=
  nearestToUnits (n * unitsPerOne) d

/-- The value nearest to a decimal number. -/
def ofDecimal (d : Decimal) : Binary64 :=
  ofMagnitude false (nearestMagnitude d.numerator d.denominator)

end Binary64

end Reckon
