import Reckon.Binary64.Nearest

/-!
# Arithmetic on binary64 numbers

Sums, products, quotients and powers are those of the machine. The remainder and the floor are exact
and are computed on units: both have a result that the format can hold.
-/

namespace Reckon.Binary64

def toFloat (x : Binary64) : Float :=
  Float.ofBits x.bits

def ofFloat (f : Float) : Binary64 :=
  ⟨f.toBits⟩

def add (x y : Binary64) : Binary64 :=
  ofFloat (x.toFloat + y.toFloat)

def sub (x y : Binary64) : Binary64 :=
  ofFloat (x.toFloat - y.toFloat)

def mul (x y : Binary64) : Binary64 :=
  ofFloat (x.toFloat * y.toFloat)

def div (x y : Binary64) : Binary64 :=
  ofFloat (x.toFloat / y.toFloat)

/-- `x` to the power `y`. One to any power and anything to the power zero are one, also where the
other value is no number, unless that value is signaling: a signaling value gives no number. -/
def pow (x y : Binary64) : Binary64 :=
  if x.isSignaling || y.isSignaling then nan
  else ofFloat (Float.pow x.toFloat y.toFloat)

/-- What is left of `x` after taking away the largest whole number of `y` that keeps the sign of
`x`. There is no such number for a zero `y` or an infinite `x`, and nothing to take away for an
infinite `y`. -/
def rem (x y : Binary64) : Binary64 :=
  if x.isNaN || y.isNaN || x.isInfinite || y.isZero then nan
  else if y.isInfinite then x
  else ofMagnitude x.isNegative (nearestToUnits (x.units % y.units) 1)

/-- The largest integer that is not above `x`; an infinity is its own floor. -/
def floor (x : Binary64) : Binary64 :=
  if !x.isFinite || x.isIntegral then x
  else
    let whole := x.units / unitsPerOne
    ofMagnitude x.isNegative (nearestMagnitude (if x.isNegative then whole + 1 else whole) 1)

end Reckon.Binary64
