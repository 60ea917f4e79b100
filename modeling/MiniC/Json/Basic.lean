import MiniC.Number.Power

/-!
# JSON values

A value keeps its numbers as they were spelled and its fields in the order in
which they stood, repeated ones included, so that each reader decides what it
accepts. Texts are read and written by a `Codec`, which nothing here looks into;
what is relied on in it is said in `LawfulCodec`.
-/

namespace MiniC

/-- A JSON value. -/
inductive Json where
  | null
  | bool (b : Bool)
  /-- A number by its spelling. -/
  | number (lexeme : String)
  | text (s : String)
  /-- A text whose escapes name half a character, or an object with such a key.
      It can be skipped, but not read. -/
  | broken
  | list (items : List Json)
  | object (fields : List (String × Json))
deriving Inhabited

namespace Json

/-- A reader and a writer of texts: which value a text spells, and how values and
    their numbers are spelled. -/
class Codec where
  /-- The value that a text spells. -/
  parse? : String → Option Json
  /-- The text of a value, spread out. -/
  pretty : Json → String
  /-- The numeral that a finite number is written as. -/
  numeral : Float → String
  /-- The numeral that a count is written as. -/
  count : Nat → String
  /-- The number that a numeral is read as; none if it is too large. -/
  number? : String → Option Float
  /-- The natural number that a numeral spells as an integer without a sign; none
      if it does not fit a word. -/
  nat? : String → Option Nat
  /-- The number of levels of lists and objects that a text may have. -/
  maxNesting : Nat

section
variable [Codec]

/-- A natural number. -/
def ofNat (n : Nat) : Json := .number (Codec.count n)

/-- The spelling of a finite number; there is none for the others. -/
def ofNumber (x : Float) : Json := if x.isFinite then .number (Codec.numeral x) else .null

/-! ## What a value can be read as -/

/-- A finite number. -/
def number? : Json → Option Float
  | .number lexeme => Codec.number? lexeme
  | _ => none

/-- A natural number below a bound. -/
def natBelow? (bound : Nat) : Json → Option Nat
  | .number lexeme => do
    let n ← Codec.nat? lexeme
    if n < bound then some n else none
  | _ => none

/-- A 32-bit count. -/
def count32? (j : Json) : Option UInt32 := (j.natBelow? (pow2 32)).map UInt32.ofNat

/-- A text. -/
def text? : Json → Option String
  | .text s => some s
  | _ => none

/-- A truth value. -/
def bool? : Json → Option Bool
  | .bool b => some b
  | _ => none

mutual
/-- Whether a value can be read in full: nested no deeper than allowed, every
    number in range, no text broken. -/
def readable (depth : Nat) : Json → Bool
  | .null | .bool _ | .text _ => true
  | .number lexeme => (Codec.number? lexeme).isSome
  | .broken => false
  | .list items => 0 < depth && readableItems (depth - 1) items
  | .object fields => 0 < depth && readableFields (depth - 1) fields

@[inherit_doc readable]
def readableItems (depth : Nat) : List Json → Bool
  | [] => true
  | item :: rest => item.readable depth && readableItems depth rest

@[inherit_doc readable]
def readableFields (depth : Nat) : List (String × Json) → Bool
  | [] => true
  | (_, value) :: rest => value.readable depth && readableFields depth rest
end

/-- What is relied on in a codec. Nothing is said of the numerals of numbers. -/
class LawfulCodec : Prop where
  maxNesting_eq : Codec.maxNesting = 127
  /-- What is written of a value that can be read in full is read as the value. -/
  parse?_pretty {j : Json} : j.readable Codec.maxNesting = true → Codec.parse? (Codec.pretty j) = some j
  /-- No numeral is read as an infinity or as what is not a number. -/
  isFinite_of_number? {lexeme : String} {x : Float} : Codec.number? lexeme = some x → x.isFinite = true
  /-- The numeral of a count is read as the count. -/
  nat?_count (n : UInt32) : Codec.nat? (Codec.count n.toNat) = some n.toNat
  /-- The numeral of a count is read as a number, too. -/
  isSome_number?_count (n : UInt32) : (Codec.number? (Codec.count n.toNat)).isSome = true

end

/-! ## Fields of an object -/

/-- The value of a field. The outer option fails when the field is repeated, the
    inner one when it is missing. -/
def field? (fields : List (String × Json)) (key : String) : Option (Option Json) :=
  match fields.filter (·.1 == key) with
  | [] => some none
  | [(_, value)] => some (some value)
  | _ => none

/-- The value of a field that has to be there. -/
def required? (fields : List (String × Json)) (key : String) : Option Json := (field? fields key).join

/-- Reads a field that may be missing or null. -/
def optional? {α : Type} (readValue : Json → Option α) (fields : List (String × Json)) (key : String) :
    Option (Option α) :=
  match field? fields key with
  | some none | some (some .null) => some none
  | some (some value) => (readValue value).map some
  | none => none

end Json
end MiniC
