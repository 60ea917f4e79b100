import MiniC.Text.Digit
import MiniC.Number.Nearest

/-!
# TOML words

A word without marks spells an integer, a fraction, a truth value or a moment.
Integers are read. The rest is only recognised, since no setting has such a
value.
-/

namespace MiniC.Toml

/-- The characters of words without marks. -/
def isWordPart (c : Char) : Bool := c.isAlphanum || c == '_' || c == '+' || c == '-' || c == '.' || c == ':'

/-! ## Integers -/

/-- Digits with single underscores between them. -/
def grouped? (radix : Nat) (read : Nat) : List Char → Option Nat
  | [] => none
  | [c] => (Text.digit? radix c).map (radix * read + ·)
  | c :: '_' :: rest =>
    match Text.digit? radix c with
    | some d => grouped? radix (radix * read + d) rest
    | none => none
  | c :: rest =>
    match Text.digit? radix c with
    | some d => grouped? radix (radix * read + d) rest
    | none => none

/-- Decimal digits that do not begin with a zero, or a zero alone. -/
def decimal? : List Char → Option Nat
  | ['0'] => some 0
  | '0' :: _ => none
  | cs => grouped? 10 0 cs

/-- Whether there is a minus sign at the start, and what follows the sign. -/
def signed : List Char → Bool × List Char
  | '-' :: rest => (true, rest)
  | '+' :: rest => (false, rest)
  | cs => (false, cs)

/-- A natural under a sign. -/
def withSign (negative : Bool) (n : Nat) : Int := if negative then -(n : Int) else n

/-- The integer that a word spells: in base sixteen, eight, two or ten, and in
    base ten with a sign if need be. -/
def integerOf? (word : List Char) : Option Int :=
  let n : Option Int :=
    match word with
    | '0' :: 'x' :: digits => (grouped? 16 0 digits).map Int.ofNat
    | '0' :: 'o' :: digits => (grouped? 8 0 digits).map Int.ofNat
    | '0' :: 'b' :: digits => (grouped? 2 0 digits).map Int.ofNat
    | word => (decimal? (signed word).2).map (withSign (signed word).1)
  n.filter fun n => -(pow2 63 : Int) ≤ n && n < (pow2 63 : Int)

/-! ## Fractions -/

/-- What stands before and after the first character with a property. -/
def cut (p : Char → Bool) (cs : List Char) : List Char × Option (List Char) :=
  match cs.span (!p ·) with
  | (before, _ :: after) => (before, some after)
  | (before, []) => (before, none)

/-- The decimal that a word without a sign spells with a point, with an exponent,
    or with both. -/
def fraction? (word : List Char) : Option Number.Decimal := do
  let (mantissa, exponent) := cut (fun c => c == 'e' || c == 'E') word
  let (whole, places) := cut (· == '.') mantissa
  guard (places.isSome || exponent.isSome)
  let whole ← decimal? whole
  let (digits, count) ← match places with
    | none => some (whole, 0)
    | some places => do
      let count := (places.filter (· != '_')).length
      some (whole * pow10 count + (← grouped? 10 0 places), count)
  let exponent ← match exponent with
    | none => some 0
    | some cs => (grouped? 10 0 (signed cs).2).map (withSign (signed cs).1)
  return ⟨digits, exponent - count⟩

/-- Whether a word spells a fraction, infinity or no number. What is too large
    counts as infinite, which only a negative fraction may be. -/
def isFraction (word : List Char) : Bool :=
  let (negative, size) := signed word
  ["inf", "nan"].contains (String.ofList size) ||
    match fraction? size with
    | some d => negative || (Number.ofDecimal? false d).isSome
    | none => false

/-! ## Moments -/

/-- The number that decimal digits spell, if it lies in a range. -/
def inRange? (least greatest : Nat) (digits : List Char) : Option Nat :=
  (Text.digitsValue? 10 0 digits).filter fun n => least ≤ n && n ≤ greatest

/-- The number of days of a month. -/
def daysInMonth (year month : Nat) : Nat :=
  if month == 2 then if year % 4 == 0 && (year % 100 != 0 || year % 400 == 0) then 29 else 28
  else if [4, 6, 9, 11].contains month then 30
  else 31

/-- What follows the date at the start of a word. -/
def afterDate? : List Char → Option (List Char)
  | a :: b :: c :: d :: '-' :: e :: f :: '-' :: g :: h :: rest => do
    let year ← inRange? 0 9999 [a, b, c, d]
    let month ← inRange? 1 12 [e, f]
    let _ ← inRange? 1 (daysInMonth year month) [g, h]
    return rest
  | _ => none

/-- What follows the time at the start of a word. A minute may have a leap second,
    and seconds may have a fraction. -/
def afterTime? : List Char → Option (List Char)
  | a :: b :: ':' :: c :: d :: ':' :: e :: f :: rest => do
    let _ ← inRange? 0 23 [a, b]
    let _ ← inRange? 0 59 [c, d]
    let _ ← inRange? 0 60 [e, f]
    match rest with
    | '.' :: places =>
      let (digits, rest) := places.span Char.isDigit
      if digits.isEmpty then none else some rest
    | rest => some rest
  | _ => none

/-- Whether a word is the distance of a time from universal time, or empty. -/
def isOffset : List Char → Bool
  | [] | ['Z'] | ['z'] => true
  | [sign, a, b, ':', c, d] =>
    (sign == '+' || sign == '-') && (inRange? 0 23 [a, b]).isSome && (inRange? 0 59 [c, d]).isSome
  | _ => false

/-- Whether a word is a time that can follow a date. -/
def isClock (word : List Char) : Bool :=
  match afterTime? word with
  | some rest => isOffset rest
  | none => false

/-- Whether a word is a date, a time, or a date and a time. -/
def isMoment (word : List Char) : Bool :=
  match afterDate? word with
  | some [] => true
  | some (mark :: clock) => (mark == 'T' || mark == 't') && isClock clock
  | none => afterTime? word == some []

/-- What follows a word. If the word is a date and after a blank there is a time,
    the time belongs to it. -/
def afterWord (word rest : List Char) : List Char :=
  match afterDate? word, rest with
  | some [], ' ' :: later =>
    let (clock, after) := later.span isWordPart
    if isClock clock then after else rest
  | _, _ => rest

/-- Whether a word spells a value that no setting has. -/
def isForeign (word : List Char) : Bool :=
  ["true", "false"].contains (String.ofList word) || isFraction word || isMoment word

end MiniC.Toml
