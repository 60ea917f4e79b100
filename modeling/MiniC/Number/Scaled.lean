import MiniC.Number.Integral

/-!
# Decimals read in two roundings

A decimal whose digits fit a 64-bit word is read as the number nearest to its
digits, times or over the number nearest to a power of ten. As long as both are
exact the result is the nearest number. Beyond that, it may be one close by.
-/

namespace MiniC.Number

/-- The greatest power of ten that is a number. -/
def greatestPower : Nat := 308

/-- The number nearest to a power of ten. -/
def powerOfTen (n : Nat) : Float := ofNat (pow10 n)

/-- The quotient of a number below `2 ^ 64` and a power of ten. Powers that are no
    numbers are divided by in two steps, after which nothing is left of them. -/
def overPower (x : Float) (n : Nat) : Float :=
  if n ≤ greatestPower then x / powerOfTen n
  else if n ≤ 2 * greatestPower then x / powerOfTen greatestPower / powerOfTen (n - greatestPower)
  else ofNat 0

/-- The product of a number and a power of ten; `none` if it is too large. -/
def timesPower? (x : Float) (n : Nat) : Option Float :=
  if x == 0.0 then some x
  else if greatestPower < n then none
  else
    let product := x * powerOfTen n
    if product.isFinite then some product else none

/-- The number that a decimal is read as; `none` if it is too large. -/
def ofScaled? (negative : Bool) (d : Decimal) : Option Float :=
  let size :=
    if d.exponent < 0 then some (overPower (ofNat d.digits) (-d.exponent).toNat)
    else timesPower? (ofNat d.digits) d.exponent.toNat
  size.map fun x => if negative then -x else x

end MiniC.Number
