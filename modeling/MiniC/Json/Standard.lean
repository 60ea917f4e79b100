import MiniC.Json.Reader
import MiniC.Json.Writer
import MiniC.Number.Layout

/-!
# The codec that runs

Texts are read token by token and written spread out, and a number is written with
the fewest digits that tell it from its neighbours.
-/

namespace MiniC.Json

instance standard : Codec where
  parse? := parse?
  pretty := pretty
  numeral := Number.literal.render
  count := toString
  number? lexeme := Numeral.ofLexeme? lexeme >>= Numeral.number?
  nat? lexeme := Numeral.ofLexeme? lexeme >>= Numeral.nat?
  maxNesting := 127

end MiniC.Json
