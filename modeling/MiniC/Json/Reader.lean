import MiniC.Json.Basic
import MiniC.Json.Numeral
import MiniC.Text.Digit

/-!
# Reading JSON text

A text is cut into tokens, and the tokens are read as one value. Blanks are the
four that the format knows, words are lower case, and nothing may follow the
value.
-/

namespace MiniC.Json

/-! ## Tokens -/

/-- The smallest parts of a text with a meaning. -/
inductive Token where
  | openObject
  | closeObject
  | openList
  | closeList
  | comma
  | colon
  /-- A value that is one token long: null, a truth value, a number or a text. -/
  | atom (value : Json)

/-- The character of a one-letter escape. -/
def shortEscape? : Char → Option Char
  | '"' => some '"'
  | '\\' => some '\\'
  | '/' => some '/'
  | 'b' => some '\x08'
  | 'f' => some '\x0c'
  | 'n' => some '\n'
  | 'r' => some '\r'
  | 't' => some '\t'
  | _ => none

/-- What has been read of a text: its characters, the last one first, the first
    half of a character whose second half is due, and whether a half character
    has been met on its own. -/
structure Scanned where
  reversed : List Char := []
  half : Option Nat := none
  broken : Bool := false

/-- Adds a whole character. -/
def Scanned.push (s : Scanned) (c : Char) : Scanned :=
  ⟨c :: s.reversed, none, s.broken || s.half.isSome⟩

/-- Adds a 16-bit unit, which may be half a character. -/
def Scanned.pushUnit (s : Scanned) (unit : Nat) : Scanned :=
  if 0xD800 ≤ unit ∧ unit < 0xDC00 then { s with half := some unit, broken := s.broken || s.half.isSome }
  else if 0xDC00 ≤ unit ∧ unit < 0xE000 then
    match s.half with
    | some first =>
      ⟨Char.ofNat (0x10000 + (first - 0xD800) * 0x400 + (unit - 0xDC00)) :: s.reversed, none, s.broken⟩
    | none => { s with broken := true }
  else s.push (Char.ofNat unit)

/-- The text that has been read. -/
def Scanned.value (s : Scanned) : Json :=
  if s.broken || s.half.isSome then .broken else .text (String.ofList s.reversed.reverse)

/-- Reads a text after its opening mark. -/
def scanText? (s : Scanned) : List Char → Option (Json × List Char)
  | '"' :: rest => some (s.value, rest)
  | '\\' :: 'u' :: a :: b :: c :: d :: rest =>
    match Text.digitsValue? 16 0 [a, b, c, d] with
    | some unit => scanText? (s.pushUnit unit) rest
    | none => none
  | '\\' :: c :: rest =>
    match shortEscape? c with
    | some c => scanText? (s.push c) rest
    | none => none
  | c :: rest => if c.toNat < 0x20 ∨ c = '\\' then none else scanText? (s.push c) rest
  | [] => none

/-- The characters of which numerals are made. -/
def isNumeralPart (c : Char) : Bool := c.isDigit || c == '-' || c == '+' || c == '.' || c == 'e' || c == 'E'

/-- The token at the start of a text that does not begin with a blank. A numeral
    is as long as it can be. -/
def scanToken? : List Char → Option (Token × List Char)
  | '\x7b' :: rest => some (.openObject, rest)
  | '\x7d' :: rest => some (.closeObject, rest)
  | '[' :: rest => some (.openList, rest)
  | ']' :: rest => some (.closeList, rest)
  | ',' :: rest => some (.comma, rest)
  | ':' :: rest => some (.colon, rest)
  | '"' :: rest => (scanText? {} rest).map fun (value, rest) => (.atom value, rest)
  | 'n' :: 'u' :: 'l' :: 'l' :: rest => some (.atom .null, rest)
  | 't' :: 'r' :: 'u' :: 'e' :: rest => some (.atom (.bool true), rest)
  | 'f' :: 'a' :: 'l' :: 's' :: 'e' :: rest => some (.atom (.bool false), rest)
  | cs =>
    let (lexeme, rest) := cs.span isNumeralPart
    match Numeral.scan? lexeme with
    | some (_, []) => some (.atom (.number (String.ofList lexeme)), rest)
    | _ => none

/-- The blanks between tokens. -/
def isGap (c : Char) : Bool := c == ' ' || c == '\n' || c == '\r' || c == '\t'

/-- The tokens of a text, after those already found, the last one first. The
    fuel is the number of characters left; every round takes at least one. -/
def tokens? (found : List Token) : Nat → List Char → Option (List Token)
  | _, [] => some found.reverse
  | 0, _ => none
  | fuel + 1, c :: rest =>
    if isGap c then tokens? found fuel rest
    else
      match scanToken? (c :: rest) with
      | some (token, rest) => tokens? (token :: found) fuel rest
      | none => none

/-! ## Values -/

mutual
/-- Reads one value. The fuel is the number of tokens left. -/
def readValue? : Nat → List Token → Option (Json × List Token)
  | _ + 1, .atom value :: rest => some (value, rest)
  | _ + 1, .openList :: .closeList :: rest => some (.list [], rest)
  | fuel + 1, .openList :: rest => readItems? fuel [] rest
  | _ + 1, .openObject :: .closeObject :: rest => some (.object [], rest)
  | fuel + 1, .openObject :: rest => readFields? fuel [] false rest
  | _, _ => none

/-- Reads the items of a list, after those already found. -/
def readItems? (fuel : Nat) (found : List Json) (ts : List Token) : Option (Json × List Token) :=
  match fuel with
  | 0 => none
  | fuel + 1 =>
    match readValue? fuel ts with
    | some (item, .comma :: rest) => readItems? fuel (item :: found) rest
    | some (item, .closeList :: rest) => some (.list (item :: found).reverse, rest)
    | _ => none

/-- Reads the fields of an object, after those already found; `broken` says
    whether a key was broken. -/
def readFields? (fuel : Nat) (found : List (String × Json)) (broken : Bool) (ts : List Token) :
    Option (Json × List Token) :=
  match fuel with
  | 0 => none
  | fuel + 1 =>
    match ts with
    | .atom key :: .colon :: rest =>
      let known : Option (String × Bool) := match key with
        | .text key => some (key, broken)
        | .broken => some ("", true)
        | _ => none
      match known, readValue? fuel rest with
      | some (key, broken), some (value, .comma :: rest) => readFields? fuel ((key, value) :: found) broken rest
      | some (key, broken), some (value, .closeObject :: rest) =>
        some (if broken then .broken else .object ((key, value) :: found).reverse, rest)
      | _, _ => none
    | _ => none
end

/-- The value that a text spells. -/
def parse? (s : String) : Option Json :=
  let cs := s.toList
  match tokens? [] cs.length cs with
  | some ts =>
    match readValue? (2 * ts.length) ts with
    | some (value, []) => some value
    | _ => none
  | none => none

end MiniC.Json
