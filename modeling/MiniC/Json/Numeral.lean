import MiniC.Number.Scaled

/-!
# Numerals

A numeral is read as the decimal of its leading digits, as many of them as fit a
word, and the number of that decimal is put together in binary.
-/

namespace MiniC.Json

/-- What the spelling of a number says: a signed decimal of its leading digits, and
    whether it was spelled as an integer. -/
structure Numeral where
  negative : Bool
  decimal : Number.Decimal
  integral : Bool
deriving DecidableEq, Repr

/-- The value of a list of decimal digits. -/
def digitsValue (ds : List Char) : Nat := ds.foldl (fun n c => 10 * n + (c.toNat - '0'.toNat)) 0

/-- One digit or more, and the rest. -/
def someDigits? (cs : List Char) : Option (List Char × List Char) :=
  match cs.span Char.isDigit with
  | ([], _) => none
  | split => some split

/-- The digits before the point: a zero alone, or digits that do not begin with
    a zero. -/
def wholeDigits? : List Char → Option (List Char × List Char)
  | '0' :: rest => some (['0'], rest)
  | cs => someDigits? cs

/-- The exponent that may follow the digits. -/
def exponent? : List Char → Option (Option Int × List Char)
  | c :: rest =>
    if c = 'e' ∨ c = 'E' then
      match rest with
      | '-' :: rest => (someDigits? rest).map fun (ds, rest) => (some (-(digitsValue ds : Int)), rest)
      | '+' :: rest => (someDigits? rest).map fun (ds, rest) => (some (digitsValue ds : Int), rest)
      | rest => (someDigits? rest).map fun (ds, rest) => (some (digitsValue ds : Int), rest)
    else some (none, c :: rest)
  | [] => some (none, [])

/-- The digits after the point, if there is one. -/
def fraction? : List Char → Option (Option (List Char) × List Char)
  | '.' :: rest => (someDigits? rest).map fun (ds, rest) => (some ds, rest)
  | cs => some (none, cs)

/-- Appends digits to a word as long as it stays one, and counts those left over. -/
def appendDigits (word : Nat) : List Char → Nat × Nat
  | [] => (word, 0)
  | c :: rest =>
    let longer := 10 * word + (c.toNat - '0'.toNat)
    if Number.maxCount < longer then (word, rest.length + 1) else appendDigits longer rest

/-- The decimal of the leading digits: those before the point, as long as they fit
    a word, and then those after it. Digits left over before the point count in
    the exponent. -/
def leadingDecimal (whole places : List Char) (exponent : Int) : Number.Decimal :=
  let (word, excess) := appendDigits 0 whole
  let (word, unused) := appendDigits word places
  ⟨word, exponent + excess - (places.length - unused : Nat)⟩

/-- Reads the numeral at the start of a text. -/
def Numeral.scan? (cs : List Char) : Option (Numeral × List Char) := do
  let (negative, cs) := match cs with
    | '-' :: rest => (true, rest)
    | cs => (false, cs)
  let (whole, cs) ← wholeDigits? cs
  let (fraction, cs) ← fraction? cs
  let (exponent, cs) ← exponent? cs
  let decimal := leadingDecimal whole (fraction.getD []) (exponent.getD 0)
  return (⟨negative, decimal, fraction.isNone && exponent.isNone⟩, cs)

/-- The numeral that a whole text spells. -/
def Numeral.ofLexeme? (lexeme : String) : Option Numeral :=
  match Numeral.scan? lexeme.toList with
  | some (n, []) => some n
  | _ => none

/-- The number that a numeral is read as; none if it is too large. -/
def Numeral.number? (n : Numeral) : Option Float := Number.ofScaled? n.negative n.decimal

/-- The natural number that a numeral spells as an integer without a sign; none if
    it does not fit a word. -/
def Numeral.nat? (n : Numeral) : Option Nat :=
  if n.integral && !n.negative && n.decimal.exponent == 0 then some n.decimal.digits else none

end MiniC.Json
