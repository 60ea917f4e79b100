import MiniC.Number.Power

/-!
# Binary numbers taken apart

A double-precision number is read from its bits as a signed magnitude
`significand * 2 ^ exponent`, as an infinity, or as no number. Everything that
has to be exact about numbers is decided on this reading, over naturals and
integers.
-/

namespace MiniC.Number

/-- The finite magnitude `significand * 2 ^ exponent`. -/
structure Magnitude where
  significand : Nat
  exponent : Int
deriving DecidableEq, Repr

/-- What the bits of a number stand for. -/
inductive Reading where
  | finite (negative : Bool) (magnitude : Magnitude)
  | infinite (negative : Bool)
  | notANumber
deriving DecidableEq, Repr

/-! ## The three fields of the bits -/

/-- The eleven bits of the scale. -/
def scaleField (bits : Nat) : Nat := bits / pow2 52 % pow2 11

/-- The fifty-two bits below the scale. -/
def fractionField (bits : Nat) : Nat := bits % pow2 52

/-- The sign is the highest bit. -/
def signField (bits : Nat) : Bool := bits / pow2 63 % 2 == 1

/-- Subnormal numbers share the least exponent and lack the leading bit. -/
def readBits (bits : Nat) : Reading :=
  let scale := scaleField bits
  let fraction := fractionField bits
  if scale = 2047 then
    if fraction = 0 then .infinite (signField bits) else .notANumber
  else if scale = 0 then .finite (signField bits) ⟨fraction, -1074⟩
  else .finite (signField bits) ⟨pow2 52 + fraction, scale - 1075⟩

/-- The reading of a number. -/
def read (x : Float) : Reading := readBits x.toBits.toNat

/-! ## Exact arithmetic on magnitudes -/

namespace Magnitude

/-- The magnitude as a quotient of naturals. -/
def numerator (v : Magnitude) : Nat := v.significand * pow2 v.exponent.toNat

@[inherit_doc numerator]
def denominator (v : Magnitude) : Nat := pow2 (-v.exponent).toNat

/-- The whole part. -/
def floor (v : Magnitude) : Nat := v.numerator / v.denominator

/-- A magnitude is whole when nothing is left after its whole part. -/
def isWhole (v : Magnitude) : Bool := v.numerator % v.denominator == 0

end Magnitude

end MiniC.Number
