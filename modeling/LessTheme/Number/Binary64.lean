import LessTheme.Number.Rounding

/-!
# Double-precision numbers

A decimal number is read as the nearest 64-bit floating-point number, and a
finite floating-point number is taken apart into its sign and an exact
quotient.  Both work on natural numbers, so no digit is lost on the way.
-/

namespace LessTheme
namespace Number

/-- The number of significands with the same exponent. -/
def significands : Nat := 0x10000000000000

/-- The number of exponents, those of infinities and subnormal numbers included. -/
def exponents : Nat := 0x800

/-- The bit of the sign. -/
def signBit : Nat := 0x8000000000000000

/-- The bits of the positive infinity. -/
def infinityBits : Nat := 0x7FF0000000000000

/-- The least whole number whose nearest double is an infinity. -/
def infinityThreshold : Nat := Nat.pow 2 1024 - Nat.pow 2 970

/-- The exponent of the last place of the double nearest to a positive quotient. -/
def lastPlace (numerator denominator : Nat) : Int :=
  let guess : Int := numerator.log2 - denominator.log2 - 52
  let isShort :=
    if 0 ≤ guess then numerator < denominator * Nat.pow 2 (guess.toNat + 52)
    else numerator * Nat.pow 2 (-guess).toNat < denominator * significands
  max (-1074) (if isShort then guess - 1 else guess)

/-- The bits of the double nearest to a quotient of natural numbers. -/
def quotientBits (numerator denominator : Nat) : Nat :=
  if numerator = 0 then 0
  else
    let place := lastPlace numerator denominator
    let significand :=
      if 0 ≤ place then nearest numerator (denominator * Nat.pow 2 place.toNat)
      else nearest (numerator * Nat.pow 2 (-place).toNat) denominator
    min infinityBits ((place + 1074).toNat * significands + significand)

/-- The double nearest to a decimal number with the given digits and exponent of ten. -/
def ofDecimal (digits : Nat) (exponent : Int) : Float :=
  let bits :=
    if 0 ≤ exponent then quotientBits (digits * Nat.pow 10 exponent.toNat) 1
    else quotientBits digits (Nat.pow 10 (-exponent).toNat)
  Float.ofBits (UInt64.ofNat bits)

/-- The magnitude of a finite double as an exact quotient. -/
structure Magnitude where
  /-- The numerator. -/
  numerator : Nat
  /-- The denominator, a power of two. -/
  denominator : Nat
  deriving DecidableEq, Repr

/-- Whether the sign bit is set. -/
def isNegative (bits : Nat) : Bool := decide (signBit ≤ bits)

/-- The magnitude of the double with the given bits, which must be finite. -/
def magnitude (bits : Nat) : Magnitude :=
  let exponent : Nat := bits / significands % exponents
  let fraction := bits % significands
  let significand := if exponent = 0 then fraction else significands + fraction
  let place : Int := (max exponent 1 : Nat) - 1075
  if 0 ≤ place then ⟨significand * Nat.pow 2 place.toNat, 1⟩
  else ⟨significand, Nat.pow 2 (-place).toNat⟩

end Number
end LessTheme
