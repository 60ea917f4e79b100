import MiniC.Json.Basic

/-!
# Writing JSON text

Values are written on one line, or spread out with every item and field on a line
of its own.
-/

namespace MiniC.Json

/-! ## Texts -/

/-- One character inside a written text: the two marks and control characters
    are escaped, the five with a letter of their own by it. -/
def escape (c : Char) : List Char :=
  if c = '"' then ['\\', '"']
  else if c = '\\' then ['\\', '\\']
  else if c = '\x08' then ['\\', 'b']
  else if c = '\x0c' then ['\\', 'f']
  else if c = '\n' then ['\\', 'n']
  else if c = '\r' then ['\\', 'r']
  else if c = '\t' then ['\\', 't']
  else if c.toNat < 0x20 then
    ['\\', 'u', '0', '0', Nat.digitChar (c.toNat / 16), Nat.digitChar (c.toNat % 16)]
  else [c]

/-- A written text. -/
def writeText (s : String) : String :=
  if s.any needsEscape then "\"" ++ String.ofList (s.toList.flatMap escape) ++ "\"" else "\"" ++ s ++ "\""
where
  /-- Whether a character cannot stand for itself. -/
  needsEscape (c : Char) : Bool := c == '"' || c == '\\' || c.toNat < 0x20

/-! ## On one line -/

mutual
/-- Writes a value on one line, after what is written already. -/
def compactOnto (out : String) : Json → String
  | .null | .broken => out ++ "null"
  | .bool b => out ++ if b then "true" else "false"
  | .number lexeme => out ++ lexeme
  | .text s => out ++ writeText s
  | .list [] => out ++ "[]"
  | .list (item :: rest) => compactItems (compactOnto (out ++ "[") item) rest ++ "]"
  | .object [] => out ++ "\x7b\x7d"
  | .object ((key, value) :: rest) =>
    compactFields (compactOnto (out ++ "\x7b" ++ writeText key ++ ":") value) rest ++ "\x7d"

/-- Writes the items after the first, each with its comma. -/
def compactItems (out : String) : List Json → String
  | [] => out
  | item :: rest => compactItems (compactOnto (out ++ ",") item) rest

/-- Writes the fields after the first, each with its comma. -/
def compactFields (out : String) : List (String × Json) → String
  | [] => out
  | (key, value) :: rest => compactFields (compactOnto (out ++ "," ++ writeText key ++ ":") value) rest
end

/-- The text of a value, on one line. -/
def compact (j : Json) : String := compactOnto "" j

/-! ## Spread out -/

/-- A new line, indented by two blanks a level. -/
def newLine (level : Nat) : String := String.ofList ('\n' :: List.replicate (2 * level) ' ')

mutual
/-- Writes a value spread out at a level. Empty lists and objects stay on their
    line. -/
def spreadOnto (out : String) (level : Nat) : Json → String
  | .null | .broken => out ++ "null"
  | .bool b => out ++ if b then "true" else "false"
  | .number lexeme => out ++ lexeme
  | .text s => out ++ writeText s
  | .list [] => out ++ "[]"
  | .list (item :: rest) =>
    let first := spreadOnto (out ++ "[" ++ newLine (level + 1)) (level + 1) item
    spreadItems first (level + 1) rest ++ newLine level ++ "]"
  | .object [] => out ++ "\x7b\x7d"
  | .object ((key, value) :: rest) =>
    let first := spreadOnto (out ++ "\x7b" ++ newLine (level + 1) ++ writeText key ++ ": ") (level + 1) value
    spreadFields first (level + 1) rest ++ newLine level ++ "\x7d"

/-- Writes the items after the first, each on a line of its own. -/
def spreadItems (out : String) (level : Nat) : List Json → String
  | [] => out
  | item :: rest => spreadItems (spreadOnto (out ++ "," ++ newLine level) level item) level rest

/-- Writes the fields after the first, each on a line of its own. -/
def spreadFields (out : String) (level : Nat) : List (String × Json) → String
  | [] => out
  | (key, value) :: rest =>
    spreadFields (spreadOnto (out ++ "," ++ newLine level ++ writeText key ++ ": ") level value) level rest
end

/-- The text of a value, spread out. -/
def pretty (j : Json) : String := spreadOnto "" 0 j

end MiniC.Json
