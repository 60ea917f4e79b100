import MiniC.Number.Nearest

/-!
# The fewest digits that read back

The reals that round to a number form an interval. The shortest decimal of the
number is the one with the fewest digits in this interval, and of those the one
nearest to the number. Both are found by comparing naturals.
-/

namespace MiniC.Number

/-- Which of two equally near decimals is taken. -/
inductive Tie where
  | up
  | even
deriving DecidableEq, Repr

/-- The digits of `a * 10 ^ i` against `n * 2 ^ j`. -/
def compareScaled (a : Nat) (i : Int) (n : Nat) (j : Int) : Ordering :=
  compare (a * pow10 i.toNat * pow2 (-j).toNat) (n * pow2 j.toNat * pow10 (-i).toNat)

namespace Magnitude

/-- Below a power of two the numbers lie twice as dense as above it. -/
def narrowBelow (v : Magnitude) : Bool := v.significand == pow2 52 && v.exponent > -1074

/-- Whether a decimal lies among the reals that round to the magnitude. The ends
    of this interval belong to it when the significand is even. -/
def readsBack (v : Magnitude) (d : Decimal) : Bool :=
  let low := if v.narrowBelow then 4 * v.significand - 1 else 4 * v.significand - 2
  let high := 4 * v.significand + 2
  let closed := v.significand % 2 == 0
  let belowLow := compareScaled d.digits d.exponent low (v.exponent - 2)
  let aboveHigh := compareScaled d.digits d.exponent high (v.exponent - 2)
  (belowLow == .gt || (closed && belowLow == .eq)) && (aboveHigh == .lt || (closed && aboveHigh == .eq))

/-- The least `k` with the magnitude below `10 ^ k`, for a magnitude above zero.
    The binary length gives it up to a few places. -/
def decimalScale (v : Magnitude) : Int :=
  let estimate := (((v.significand.log2 : Int) + v.exponent) * 30103).fdiv 100000
  let below (k : Int) : Bool := compareScaled 1 k v.significand v.exponent == .gt
  if below estimate then estimate
  else if below (estimate + 1) then estimate + 1
  else if below (estimate + 2) then estimate + 2
  else estimate + 3

/-- The better of the two neighbours of the magnitude on the grid `10 ^ g`, if
    any of them reads back. -/
def onGrid? (tie : Tie) (v : Magnitude) (g : Int) : Option Decimal :=
  let num := v.numerator * pow10 (-g).toNat
  let den := v.denominator * pow10 g.toNat
  let below : Decimal := ⟨num / den, g⟩
  let above : Decimal := ⟨num / den + 1, g⟩
  match v.readsBack below, v.readsBack above with
  | true, true =>
    match compare (2 * (num % den)) den, tie with
    | .lt, _ => some below
    | .gt, _ => some above
    | .eq, .up => some above
    | .eq, .even => some (if below.digits % 2 = 0 then below else above)
  | true, false => some below
  | false, true => some above
  | false, false => none

/-- The magnitude written out in full. -/
def exactDecimal (v : Magnitude) : Decimal :=
  if v.exponent ≤ 0 then ⟨v.significand * Nat.pow 5 (-v.exponent).toNat, v.exponent⟩ else ⟨v.numerator, 0⟩

/-- The decimal with the fewest digits that reads back. Seventeen digits always
    suffice; should they not, the exact decimal is given. -/
def shortest (tie : Tie) (v : Magnitude) : Decimal :=
  if v.significand = 0 then ⟨0, 0⟩
  else
    let scale := v.decimalScale
    ((List.range 17).findSome? fun (n : Nat) => v.onGrid? tie (scale - (n + 1))).getD v.exactDecimal

end Magnitude

/-- A decimal without zeros at the end. -/
def Decimal.strip (d : Decimal) : Decimal :=
  let zeros := ((Nat.toDigits 10 d.digits).reverse.takeWhile (· == '0')).length
  if d.digits = 0 then d else ⟨d.digits / pow10 zeros, d.exponent + zeros⟩

end MiniC.Number
