/-!
# TOML values

The part of TOML that settings are written in: texts, integers, lists and tables.
What else a value can be is not told apart. A table remembers how it was opened,
since that decides what may still be added to it. Documents are read by a
`Toml.Reader`, which nothing here looks into.
-/

namespace MiniC

/-- How a table was opened. -/
inductive TableOrigin where
  /-- By a header of its own. -/
  | header
  /-- By the header of a table inside it. -/
  | outer
  /-- By a dotted key. -/
  | dotted
  /-- By braces, which also close it. -/
  | braces
deriving DecidableEq, Repr

/-- A TOML value. -/
inductive Toml where
  | text (s : String)
  | integer (n : Int)
  /-- A truth value, a fraction, a date or a time. -/
  | foreign
  | list (items : List Toml)
  | table (origin : TableOrigin) (fields : List (String × Toml))
deriving Inhabited

namespace Toml

/-- The fields of a table. -/
abbrev Fields := List (String × Toml)

/-- What reads documents. -/
class Reader where
  /-- The fields of the table that a document spells. -/
  parse? : String → Option Fields

/-- A list or table with nothing in it. -/
def isEmpty : Toml → Bool
  | list [] | table _ [] => true
  | _ => false

end Toml
end MiniC
