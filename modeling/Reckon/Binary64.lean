import Reckon.Text.Basic

/-!
# Binary64 numbers

A `Binary64` is a word of the IEEE 754 double format: a sign bit, eleven bits of exponent and
fifty-two of fraction. All finite values are whole multiples of the smallest positive one, so the
module gives a value as a sign and a natural number of those units; comparing, rounding and writing
numbers is then arithmetic on natural numbers, exact for every exponent.
-/

namespace Reckon

structure Binary64 where
  bits : UInt64
  deriving DecidableEq

namespace Binary64

/-- The number of values that share a sign and an exponent. -/
def fractions : Nat := 0x10000000000000

/-- The weight of the sign bit. -/
def signWeight : Nat := 0x8000000000000000

def powerOfTwo (n : Nat) : Nat := Nat.pow 2 n

/-- The number of units in one: the smallest positive value is `1 / unitsPerOne`. -/
def unitsPerOne : Nat := powerOfTwo 1074

/-- The words from this magnitude on are the infinities and the values that are no numbers. -/
def infiniteMagnitude : Nat := 2047 * fractions

/-- The word without its sign bit. It rises with the absolute value. -/
def magnitude (x : Binary64) : Nat :=
  x.bits.toNat % signWeight

def isNegative (x : Binary64) : Bool :=
  signWeight ≤ x.bits.toNat

def isFinite (x : Binary64) : Bool :=
  x.magnitude < infiniteMagnitude

def isInfinite (x : Binary64) : Bool :=
  x.magnitude == infiniteMagnitude

def isNaN (x : Binary64) : Bool :=
  infiniteMagnitude < x.magnitude

/-- Holds of the values that are no numbers and whose fraction lacks its leading bit. -/
def isSignaling (x : Binary64) : Bool :=
  x.isNaN && x.magnitude < infiniteMagnitude + fractions / 2

/-- Holds of both zeros. -/
def isZero (x : Binary64) : Bool :=
  x.magnitude == 0

/-- The units of the finite value whose word, without the sign, is `magnitude`: the fraction with
its leading one, shifted by the exponent; the lowest exponent has no leading one. -/
def unitsOfMagnitude (magnitude : Nat) : Nat :=
  let exponent := magnitude / fractions
  if exponent = 0 then magnitude
  else (fractions + magnitude % fractions) * powerOfTwo (exponent - 1)

/-- The absolute value of a finite number, in units. -/
def units (x : Binary64) : Nat :=
  unitsOfMagnitude x.magnitude

/-- The word of a sign and of a magnitude, which leaves the sign bit free. -/
def ofMagnitude (negative : Bool) (magnitude : Nat) : Binary64 :=
  ⟨UInt64.ofNat (if negative then signWeight + magnitude else magnitude)⟩

/-- The value that stands for "no number". -/
def nan : Binary64 :=
  ofMagnitude false (infiniteMagnitude + fractions / 2)

/-- Holds of the finite values without a fractional part. -/
def isIntegral (x : Binary64) : Bool :=
  x.isFinite && x.units % unitsPerOne == 0

end Binary64

end Reckon
