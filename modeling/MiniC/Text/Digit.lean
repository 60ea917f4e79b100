/-!
# Digits
-/

namespace MiniC.Text

/-- The value of a digit; letters of either case count from ten. -/
def digit? (radix : Nat) (c : Char) : Option Nat :=
  let value :=
    if '0' ≤ c ∧ c ≤ '9' then c.toNat - '0'.toNat
    else if 'a' ≤ c ∧ c ≤ 'z' then c.toNat - 'a'.toNat + 10
    else if 'A' ≤ c ∧ c ≤ 'Z' then c.toNat - 'A'.toNat + 10
    else radix
  if value < radix then some value else none

/-- The number that digits spell, all of them, after what has been read. -/
def digitsValue? (radix : Nat) (read : Nat) : List Char → Option Nat
  | [] => some read
  | c :: rest =>
    match digit? radix c with
    | some d => digitsValue? radix (radix * read + d) rest
    | none => none

end MiniC.Text
