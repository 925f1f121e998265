import Reckon.Binary64.Nearest

/-!
# The shortest decimal that reads back

A finite positive value is written as the decimal with the fewest digits that reads back as the same
value. For each number of digits the two decimals next to the value are tried, rounded with the
function that reads numerals; the nearer one wins, and the upper one if both are equally near.
Seventeen digits always suffice; beyond them stands the exact value, so the result reads back
whatever is known about the search.
-/

namespace Reckon.Binary64

/-- Whether a positive decimal is read as the word `magnitude`. -/
def readsBack (magnitude : Nat) (d : Decimal) : Bool :=
  nearestMagnitude d.numerator d.denominator == magnitude

/-- The power of ten of the leading digit of `units` units. One unit is above `10 ^ -324`, so that
the value in those steps has a digit before the point. -/
def leadingPower (units : Nat) : Int :=
  (Numeral.digitCount (units * powerOfTen 324 / unitsPerOne) : Int) - 325

/-- The value in steps of `10 ^ exponent`, as a fraction. -/
def inSteps (units : Nat) (exponent : Int) : Nat × Nat :=
  (units * powerOfTen (-exponent).toNat, unitsPerOne * powerOfTen exponent.toNat)

/-- The better of the two multiples of `10 ^ exponent` next to the value, if one reads back. -/
def candidate? (magnitude : Nat) (exponent : Int) : Option Decimal :=
  let steps := inSteps (unitsOfMagnitude magnitude) exponent
  let below : Decimal := ⟨steps.1 / steps.2, exponent⟩
  let above : Decimal := ⟨steps.1 / steps.2 + 1, exponent⟩
  let nearer := 2 * (steps.1 % steps.2) < steps.2
  if readsBack magnitude below ∧ (nearer ∨ readsBack magnitude above = false) then some below
  else if readsBack magnitude above then some above
  else none

/-- The exact decimal expansion: a unit is `5 ^ 1074` times `10 ^ -1074`. -/
def exactDecimal (magnitude : Nat) : Decimal :=
  ⟨unitsOfMagnitude magnitude * Nat.pow 5 1074, -1074⟩

/-- The fewest digits that read back as the finite positive value with this word. -/
def shortest (magnitude : Nat) : Decimal :=
  let power := leadingPower (unitsOfMagnitude magnitude)
  let found := (List.range 17).findSome? fun k : Nat => candidate? magnitude (power - (k : Int))
  (found.getD (exactDecimal magnitude)).stripZeros

end Reckon.Binary64
