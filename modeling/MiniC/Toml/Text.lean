import MiniC.Text.Digit

/-!
# TOML texts and keys

A text stands in double marks, with escapes, or in single marks, without. Three
marks in a row open a text over several lines.
-/

namespace MiniC.Toml

/-- The blanks inside a line. -/
def isGap (c : Char) : Bool := c == ' ' || c == '\t'

/-- The blanks inside a line and its end. -/
def isGapOrEnd (c : Char) : Bool := isGap c || c == '\n'

/-- The characters that can stand for themselves: all but control characters,
    and the tab. -/
def isPlain (c : Char) : Bool := c == '\t' || (0x20 ≤ c.toNat && c.toNat != 0x7F)

/-- What follows the blanks at the start. -/
def skipGap (cs : List Char) : List Char := cs.dropWhile isGap

/-- Writes the end of every line as one character. -/
def joinLineEnds : List Char → List Char
  | '\r' :: '\n' :: rest => '\n' :: joinLineEnds rest
  | c :: rest => c :: joinLineEnds rest
  | [] => []

/-! ## Texts -/

/-- The character of an escape of one letter. -/
def shortEscape? : Char → Option Char
  | 'b' => some '\x08'
  | 't' => some '\t'
  | 'n' => some '\n'
  | 'f' => some '\x0c'
  | 'r' => some '\r'
  | '"' => some '"'
  | '\\' => some '\\'
  | _ => none

/-- The character of a number in hexadecimal digits. -/
def codeEscape? (digits : List Char) : Option Char :=
  match Text.digitsValue? 16 0 digits with
  | some n => if n.isValidChar then some (Char.ofNat n) else none
  | none => none

/-- Reads a text of one line after its double mark. What has been read stands
    backwards in front. -/
def quoted? (read : List Char) : List Char → Option (String × List Char)
  | '"' :: rest => some (String.ofList read.reverse, rest)
  | '\\' :: 'u' :: a :: b :: c :: d :: rest =>
    match codeEscape? [a, b, c, d] with
    | some c => quoted? (c :: read) rest
    | none => none
  | '\\' :: 'U' :: a :: b :: c :: d :: e :: f :: g :: h :: rest =>
    match codeEscape? [a, b, c, d, e, f, g, h] with
    | some c => quoted? (c :: read) rest
    | none => none
  | '\\' :: c :: rest =>
    match shortEscape? c with
    | some c => quoted? (c :: read) rest
    | none => none
  | c :: rest => if isPlain c && c != '\\' then quoted? (c :: read) rest else none
  | [] => none

/-- Reads a text of one line after its single mark. -/
def literal? (read : List Char) : List Char → Option (String × List Char)
  | '\'' :: rest => some (String.ofList read.reverse, rest)
  | c :: rest => if isPlain c then literal? (c :: read) rest else none
  | [] => none

/-- Reads a text of several lines after its double marks. Up to two marks in a row
    stand for themselves, also right before the three at the end. After a
    backslash at the end of a line, all blanks and ends of lines are skipped. -/
def quotedLines? (skipping : Bool) (read : List Char) : List Char → Option (String × List Char)
  | '"' :: '"' :: '"' :: '"' :: '"' :: rest => some (String.ofList ('"' :: '"' :: read).reverse, rest)
  | '"' :: '"' :: '"' :: '"' :: rest => some (String.ofList ('"' :: read).reverse, rest)
  | '"' :: '"' :: '"' :: rest => some (String.ofList read.reverse, rest)
  | '\\' :: 'u' :: a :: b :: c :: d :: rest =>
    match codeEscape? [a, b, c, d] with
    | some c => quotedLines? false (c :: read) rest
    | none => none
  | '\\' :: 'U' :: a :: b :: c :: d :: e :: f :: g :: h :: rest =>
    match codeEscape? [a, b, c, d, e, f, g, h] with
    | some c => quotedLines? false (c :: read) rest
    | none => none
  | '\\' :: c :: rest =>
    match shortEscape? c with
    | some c => quotedLines? false (c :: read) rest
    | none => if (skipGap (c :: rest)).head? == some '\n' then quotedLines? true read (c :: rest) else none
  | c :: rest =>
    if skipping && isGapOrEnd c then quotedLines? true read rest
    else if (isPlain c || c == '\n') && c != '\\' then quotedLines? false (c :: read) rest
    else none
  | [] => none

/-- Reads a text of several lines after its single marks. -/
def literalLines? (read : List Char) : List Char → Option (String × List Char)
  | '\'' :: '\'' :: '\'' :: '\'' :: '\'' :: rest => some (String.ofList ('\'' :: '\'' :: read).reverse, rest)
  | '\'' :: '\'' :: '\'' :: '\'' :: rest => some (String.ofList ('\'' :: read).reverse, rest)
  | '\'' :: '\'' :: '\'' :: rest => some (String.ofList read.reverse, rest)
  | c :: rest => if isPlain c || c == '\n' then literalLines? (c :: read) rest else none
  | [] => none

/-- A text over several lines loses an end of line right after its marks. -/
def skipFirstEnd : List Char → List Char
  | '\n' :: rest => rest
  | cs => cs

/-- Reads a text of any sort. -/
def text? : List Char → Option (String × List Char)
  | '"' :: '"' :: '"' :: rest => quotedLines? false [] (skipFirstEnd rest)
  | '"' :: rest => quoted? [] rest
  | '\'' :: '\'' :: '\'' :: rest => literalLines? [] (skipFirstEnd rest)
  | '\'' :: rest => literal? [] rest
  | _ => none

/-! ## Keys -/

/-- The characters of keys without marks. -/
def isKeyPart (c : Char) : Bool := c.isAlphanum || c == '-' || c == '_'

/-- Reads one part of a key. -/
def keyPart? : List Char → Option (String × List Char)
  | '"' :: rest => quoted? [] rest
  | '\'' :: rest => literal? [] rest
  | cs =>
    match cs.span isKeyPart with
    | ([], _) => none
    | (part, rest) => some (String.ofList part, rest)

/-- No key has more parts than this, and no value more lists and tables around its
    parts. -/
def maxNesting : Nat := 79

/-- Reads a key of so many parts at most, with points between them, and the blanks
    on both sides of each. -/
def keyWithin? : Nat → List Char → Option (List String × List Char)
  | 0, _ => none
  | parts + 1, cs =>
    match keyPart? (skipGap cs) with
    | none => none
    | some (part, rest) =>
      match skipGap rest with
      | '.' :: rest => (keyWithin? parts rest).map fun (key, rest) => (part :: key, rest)
      | rest => some ([part], rest)

/-- Reads a key. -/
def key? (cs : List Char) : Option (List String × List Char) := keyWithin? maxNesting cs

end MiniC.Toml
