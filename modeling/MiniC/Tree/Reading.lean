import MiniC.Tree.Basic
import MiniC.Json.Basic

/-!
# Trees from JSON

A node is an object with its label as `type`; fields it does not know are
skipped, and a field it knows may not be repeated. Programs, declarators and
places may also be lists of their fields in order, where fields that may be
missing can be left off at the end. Values nest no deeper than a text may.
-/

namespace MiniC
variable [Json.Codec]

/-- The items of a list. -/
def Json.items? : Json → Option (List Json)
  | .list items => some items
  | _ => none

/-- A place is an object or a list of two counts. -/
def Span.ofJson? : Json → Option Span
  | .object fields => do
    let line ← Json.required? fields "line" >>= Json.count32?
    let column ← Json.required? fields "column" >>= Json.count32?
    return ⟨line, column⟩
  | .list [line, column] => do return ⟨← line.count32?, ← column.count32?⟩
  | _ => none

/-- A place that may be missing. -/
def placeOf? (fields : List (String × Json)) : Option (Option Span) := Json.optional? Span.ofJson? fields "loc"

/-- The label of a node, by its name or by its position among the labels. -/
def Label.ofJson? : Json → Option Label
  | .text s => ofName? s
  | j => (j.natBelow? ofNodes.length) >>= (ofNodes[·]?)

/-- A literal is a truth value or a number. -/
def Literal.ofJson? : Json → Option Literal
  | .bool b => some (.bool b)
  | j => j.number?.map .number

/-- The name of a choice among several: a text, or an object with the name as its
    only key and nothing under it. -/
def Json.variant? : Json → Option String
  | .text s => some s
  | .object [(s, .null)] => some s
  | .object [(s, .object [])] => some s
  | _ => none

/-- An operator by its sign. -/
def operator? {α : Type} (ofSymbol? : String → Option α) (fields : List (String × Json)) : Option α :=
  Json.required? fields "operator" >>= Json.variant? >>= ofSymbol?

/-- How many stars a tag adds; none if it does not say. -/
def pointers? (fields : List (String × Json)) : Option UInt32 :=
  match Json.field? fields "pointers" with
  | some none => some 0
  | some (some value) => value.count32?
  | none => none

section
variable (readNode : Json → Option Node) (fields : List (String × Json))

/-- A field that holds a node. -/
def nodeAt? (key : String) : Option Node := Json.required? fields key >>= readNode

/-- A field that may hold a node. -/
def nodeAtIf? (key : String) : Option (Option Node) := Json.optional? readNode fields key

/-- A field that holds a list of nodes. -/
def nodesAt? (key : String) : Option (List Node) :=
  Json.required? fields key >>= Json.items? >>= fun items => items.mapM readNode

/-- A value that may be missing from the end of a list, or null. -/
def trailing? {α : Type} (readValue : Json → Option α) : List Json → Option (Option α × List Json)
  | [] => some (none, [])
  | .null :: rest => some (none, rest)
  | value :: rest => (readValue value).map fun v => (some v, rest)

/-- A declarator is an object or a list of its fields. -/
def Declarator.ofJson? : Json → Option Declarator
  | .object fields => do
    return ⟨← nodeAt? readNode fields "id", ← nodeAtIf? readNode fields "init",
      ← nodeAtIf? readNode fields "size", ← placeOf? fields⟩
  | .list (id :: rest) => do
    let id ← readNode id
    let (initial, rest) ← trailing? readNode rest
    let (size, rest) ← trailing? readNode rest
    let (loc, rest) ← trailing? Span.ofJson? rest
    if rest.isEmpty then return ⟨id, initial, size, loc⟩ else none
  | _ => none

/-- The form with a label, from the fields of its node. -/
def Form.ofFields? : Label → Option Form
  | .blockStatement => do return .block (← nodesAt? readNode fields "body")
  | .expressionStatement => do return .expression (← nodeAt? readNode fields "expression")
  | .variableDeclaration => do
    let items ← Json.required? fields "declarations" >>= Json.items?
    return .declaration (← items.mapM (Declarator.ofJson? readNode))
  | .functionDeclaration => do
    return .function (← nodeAt? readNode fields "id") (← nodesAt? readNode fields "params")
      (← nodeAt? readNode fields "body")
  | .ifStatement => do
    return .branch (← nodeAt? readNode fields "test") (← nodeAt? readNode fields "consequent")
      (← nodeAtIf? readNode fields "alternate")
  | .whileStatement => do
    return .whileLoop (← nodeAt? readNode fields "test") (← nodeAt? readNode fields "body")
  | .doWhileStatement => do
    return .doLoop (← nodeAt? readNode fields "body") (← nodeAt? readNode fields "test")
  | .forStatement => do
    return .forLoop (← nodeAtIf? readNode fields "init") (← nodeAtIf? readNode fields "test")
      (← nodeAtIf? readNode fields "update") (← nodeAt? readNode fields "body")
  | .breakStatement => some .breakLoop
  | .continueStatement => some .continueLoop
  | .returnStatement => do return .returnValue (← nodeAtIf? readNode fields "argument")
  | .literal => do return .literal (← Json.required? fields "value" >>= Literal.ofJson?)
  | .identifier => do return .identifier (← Json.required? fields "name" >>= Json.text?)
  | .binaryExpression => do
    return .binary (← operator? BinaryOp.ofSymbol? fields) (← nodeAt? readNode fields "left")
      (← nodeAt? readNode fields "right")
  | .logicalExpression => do
    return .logical (← operator? LogicalOp.ofSymbol? fields) (← nodeAt? readNode fields "left")
      (← nodeAt? readNode fields "right")
  | .unaryExpression => do
    return .unary (← operator? UnaryOp.ofSymbol? fields) (← nodeAt? readNode fields "argument")
  | .assignmentExpression => do
    return .assign (← operator? AssignOp.ofSymbol? fields) (← nodeAt? readNode fields "left")
      (← nodeAt? readNode fields "right")
  | .updateExpression => do
    return .update (← operator? UpdateOp.ofSymbol? fields) (← nodeAt? readNode fields "argument")
      (← Json.required? fields "prefix" >>= Json.bool?)
  | .callExpression => do
    return .call (← nodeAt? readNode fields "callee") (← nodesAt? readNode fields "arguments")
  | .conditionalExpression => do
    return .choice (← nodeAt? readNode fields "test") (← nodeAt? readNode fields "consequent")
      (← nodeAt? readNode fields "alternate")
  | .sequenceExpression => do return .sequence (← nodesAt? readNode fields "expressions")
  | .memberExpression => do
    return .member (← nodeAt? readNode fields "object") (← nodeAt? readNode fields "property")
      (← Json.required? fields "computed" >>= Json.bool?)
  | .arrayExpression => do return .array (← nodesAt? readNode fields "elements")
  | .functionExpression => do
    return .lambda (← nodesAt? readNode fields "params") (← nodeAt? readNode fields "body")
  | .typeTag => do
    return .typeTag (← Json.required? fields "name" >>= Json.text?) (← pointers? fields)
  | .program => none

/-- A node from its fields. -/
def Node.ofFields? : Option Node := do
  let label ← Json.required? fields "type" >>= Label.ofJson?
  return ⟨← Form.ofFields? readNode fields label, ← placeOf? fields⟩

end

/-- A node from a value. The fuel bounds how deep nodes nest. -/
def Node.ofJsonWithin? : Nat → Json → Option Node
  | fuel + 1, .object fields => Node.ofFields? (Node.ofJsonWithin? fuel) fields
  | _, _ => none

/-- A node that stands at the top of a text or of a program, with so many levels
    left for its fields. What its place says beyond line and column is skipped;
    all else is read. -/
def Node.ofJson? (levels : Nat) : Json → Option Node
  | .object fields =>
    if fields.all fun (key, value) => key == "loc" || value.readable levels then
      Node.ofFields? (Node.ofJsonWithin? levels) fields
    else none
  | _ => none

/-- A program from a value: an object, whose own `type` does not matter, or a
    list of its fields. -/
def Program.ofJson? : Json → Option Program
  | .object fields => do
    return ⟨← nodesAt? (Node.ofJson? (Json.Codec.maxNesting - 3)) fields "body", ← placeOf? fields⟩
  | .list (.list items :: rest) => do
    let body ← items.mapM (Node.ofJson? (Json.Codec.maxNesting - 3))
    let (loc, rest) ← trailing? Span.ofJson? rest
    if rest.isEmpty then return ⟨body, loc⟩ else none
  | _ => none

/-- The program that a text spells. -/
def Program.ofText? (s : String) : Option Program := Json.Codec.parse? s >>= Program.ofJson?

/-- The node that a text spells. -/
def Node.ofText? (s : String) : Option Node := Json.Codec.parse? s >>= Node.ofJson? (Json.Codec.maxNesting - 1)

end MiniC
