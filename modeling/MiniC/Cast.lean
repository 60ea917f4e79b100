import MiniC.Value
import MiniC.Number.Integral

/-!
# Casts

The one rule by which a value is fitted to a kind: in casts, assignments,
initialisers, parameters and results.
-/

namespace MiniC.Value

/-- Fits a value to a kind. A pointer takes whole numbers and arrays. Numbers
    lose their fraction unless the kind is floating, and truth values become
    numbers unless the kind is floating or `bool`. Void takes numbers as the
    integers do; nothing else takes void. -/
def cast (v : Value) (k : Kind) (span : Option Span) : Except EvalError Value :=
  let incompatible : Except EvalError Value := .error (.type (.incompatible v.type k) span)
  if k.isPointer then
    match v with
    | .number x => if Number.isWhole x then .ok v else incompatible
    | .array _ => .ok v
    | _ => incompatible
  else
    match v with
    | .lazy _ => .error (.invariant .unforcedCast)
    | .void => if k.primitive = .void then .ok .void else .error (.type .voidUsed span)
    | .number x =>
      if k.primitive.isFloating || Number.isWhole x then .ok v else .ok (.number (Number.truncate x))
    | .bool b =>
      if k.primitive.isFloating || k.primitive = .bool then .ok v
      else .ok (.number (if b then 1.0 else 0.0))
    | _ => incompatible

end MiniC.Value
