import MiniC.Number.Binary

/-!
# The nearest representable number

A quotient of naturals is rounded to the nearest double-precision number, a tie
going to the even significand. This one rounding serves for reading decimals and
for putting an exact remainder back into a number.
-/

namespace MiniC.Number

/-- A quotient rounded to the nearest natural, ties to even. -/
def roundQuotient (num den : Nat) : Nat :=
  let whole := num / den
  let twice := 2 * (num % den)
  if den < twice ∨ (twice = den ∧ whole % 2 = 1) then whole + 1 else whole

/-- The least exponent under which the quotient keeps at most fifty-three bits,
    and never less than that of the subnormal numbers. -/
def nearestExponent (num den : Nat) : Int :=
  let estimate : Int := (num.log2 : Int) - den.log2 - 53
  let fits (q : Int) : Bool := num * pow2 (-q).toNat < pow2 53 * (den * pow2 q.toNat)
  let least := if fits estimate then estimate else if fits (estimate + 1) then estimate + 1 else estimate + 2
  max least (-1074)

/-- The bits of the number nearest to a positive quotient. A significand that
    rounds up to `2 ^ 53` carries into the scale by itself; what is too large
    becomes the bits of infinity. -/
def nearestBits (num den : Nat) : Nat :=
  let q := nearestExponent num den
  let significand := roundQuotient (num * pow2 (-q).toNat) (den * pow2 q.toNat)
  if significand < pow2 52 then significand
  else min ((q + 1075).toNat * pow2 52 + (significand - pow2 52)) (2047 * pow2 52)

/-- The number nearest to a signed quotient. -/
def nearest (negative : Bool) (num den : Nat) : Float :=
  let bits := if num = 0 then 0 else nearestBits num den
  Float.ofBits (UInt64.ofNat (if negative then pow2 63 + bits else bits))

/-! ## Decimals -/

/-- The decimal `digits * 10 ^ exponent`. -/
structure Decimal where
  digits : Nat
  exponent : Int
deriving DecidableEq, Repr

/-- Beyond this many decimal places on either side every decimal is as good as
    infinite or zero. -/
def decimalReach : Int := 400

/-- The number nearest to a decimal; `none` when the decimal is too large for a
    finite number. -/
def ofDecimal? (negative : Bool) (d : Decimal) : Option Float :=
  let size : Int := (Nat.toDigits 10 d.digits).length + d.exponent
  if d.digits = 0 ∨ size < -decimalReach then some (nearest negative 0 1)
  else if decimalReach < size then none
  else
    let x := nearest negative (d.digits * pow10 d.exponent.toNat) (pow10 (-d.exponent).toNat)
    if x.isFinite then some x else none

end MiniC.Number
