import MiniC.Number.Nearest

/-!
# Whole numbers, words and remainders

Truncation toward zero, conversion to 64-bit words and to indices, and the
remainder of a division, all exact.
-/

namespace MiniC.Number

/-- Whether a number is finite and has no fraction. -/
def isWhole (x : Float) : Bool :=
  match read x with
  | .finite _ v => v.isWhole
  | _ => false

/-- Truncation clears the bits that count fractions. Below one nothing but the
    sign is left; from `2 ^ 52` on there is nothing to clear, and infinities and
    NaN stay as they are. -/
def truncateBits (bits : Nat) : Nat :=
  let scale := scaleField bits
  if 1075 ≤ scale then bits
  else if scale < 1023 then bits - bits % pow2 63
  else bits - bits % pow2 (1075 - scale)

/-- A number without its fraction, rounded toward zero. -/
def truncate (x : Float) : Float := Float.ofBits (UInt64.ofNat (truncateBits x.toBits.toNat))

/-- The truncated number as a 64-bit word. Numbers out of range go to the
    nearest end of it, and NaN to zero. -/
def toWord (x : Float) : Int64 :=
  let clamp (negative : Bool) (n : Nat) : Int64 :=
    if negative then Int64.ofInt (-(min n (pow2 63) : Nat)) else Int64.ofInt (min n (pow2 63 - 1) : Nat)
  match read x with
  | .finite negative v => clamp negative v.floor
  | .infinite negative => clamp negative (pow2 64)
  | .notANumber => 0

/-- The number nearest to a word. -/
def ofWord (w : Int64) : Float := nearest (w < 0) w.toInt.natAbs 1

/-- The number of a count. -/
def ofNat (n : Nat) : Float := nearest false n 1

/-- Counts are 64-bit words without a sign. -/
def maxCount : Nat := pow2 64 - 1

/-- The count that a number stands for. Only whole numbers that are not negative
    stand for one, zero of either sign included. -/
def toCount? (x : Float) : Option Nat :=
  match read x with
  | .finite negative v =>
    if v.isWhole && (!negative || v.significand == 0) then some (min v.floor maxCount) else none
  | _ => none

/-- What is left of the dividend after whole divisors; it has the sign of the
    dividend. The divisor is not zero. -/
def remainder (x y : Float) : Float :=
  match read x, read y with
  | .finite negative a, .finite _ b =>
    let q := min a.exponent b.exponent
    let dividend := a.significand * pow2 (a.exponent - q).toNat
    let divisor := b.significand * pow2 (b.exponent - q).toNat
    nearest negative (dividend % divisor * pow2 q.toNat) (pow2 (-q).toNat)
  | .finite _ _, .infinite _ => x
  | _, _ => nearest false 0 1 / nearest false 0 1

end MiniC.Number
