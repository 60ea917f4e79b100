import MiniC.Number.Shortest

/-!
# Numbers as text

The shortest decimal of a number is laid out in one of three ways: `plain`, as
programs print numbers, `tagged`, as values are shown inside messages, and
`literal`, as numbers stand in a written syntax tree.
-/

namespace MiniC.Number

/-- The decisions of a layout. -/
structure Layout where
  /-- Which of two equally near decimals is written. -/
  tie : Tie
  /-- Whether a number is written without an exponent, given the place of its
      first digit. -/
  positional : Int → Bool
  /-- What follows a positional number without fraction. -/
  wholeMark : String
  /-- What stands before an exponent that is not negative. -/
  exponentMark : String

/-- Plain numbers never have an exponent. -/
def plain : Layout := ⟨.up, fun _ => true, "", ""⟩

/-- Tagged numbers are positional from `0.0001` to below `10 ^ 16` and always
    have a fraction there. -/
def tagged : Layout := ⟨.up, fun place => -4 ≤ place && place < 16, ".0", ""⟩

/-- Literals are positional from `0.00001` to below `10 ^ 16` and always have a
    fraction there. They mark positive exponents and take the even one of two
    equally near decimals. -/
def literal : Layout := ⟨.even, fun place => -5 ≤ place && place < 16, ".0", "+"⟩

namespace Layout

/-- The text of a decimal without zeros at its end. -/
def decimal (layout : Layout) (d : Decimal) : String :=
  let digits := Nat.toDigits 10 d.digits
  let place := d.exponent + digits.length - 1
  if layout.positional place then
    if 0 ≤ d.exponent then
      String.ofList (digits ++ List.replicate d.exponent.toNat '0') ++ layout.wholeMark
    else if 0 ≤ place then
      let whole := (place + 1).toNat
      String.ofList (digits.take whole ++ '.' :: digits.drop whole)
    else "0." ++ String.ofList (List.replicate (-place - 1).toNat '0' ++ digits)
  else
    let exponent := if place < 0 then toString place else layout.exponentMark ++ toString place
    match digits with
    | [] => ""
    | [only] => String.ofList [only, 'e'] ++ exponent
    | first :: rest => String.ofList (first :: '.' :: rest) ++ "e" ++ exponent

/-- The text of a number. -/
def render (layout : Layout) (x : Float) : String :=
  match read x with
  | .finite negative v =>
    let text := layout.decimal (v.shortest layout.tie).strip
    if negative then "-" ++ text else text
  | .infinite negative => if negative then "-inf" else "inf"
  | .notANumber => "NaN"

end Layout

/-- The text of a number as a program prints it. A whole number below `10 ^ 15`
    is written as an integer, so zero has no sign. -/
def print (x : Float) : String :=
  if isWholeBelow x then toString (signedFloor x) else plain.render x
where
  /-- Whether the number is whole and of magnitude below `10 ^ 15`. -/
  isWholeBelow (x : Float) : Bool :=
    match read x with
    | .finite _ v => v.isWhole && v.floor < pow10 15
    | _ => false
  /-- The whole part with its sign. -/
  signedFloor (x : Float) : Int :=
    match read x with
    | .finite true v => -(v.floor : Int)
    | .finite false v => v.floor
    | _ => 0

end MiniC.Number
