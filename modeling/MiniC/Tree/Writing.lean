import MiniC.Tree.Basic
import MiniC.Json.Basic

/-!
# Trees as JSON

A node is an object with its label as `type` in front, its parts in the order of
its form, and its place, if it has one, at the end. Parts that are missing are
left out.
-/

namespace MiniC
variable [Json.Codec]

/-- A place as an object. -/
def Span.toJson (s : Span) : Json :=
  .object [("line", .ofNat s.line.toNat), ("column", .ofNat s.column.toNat)]

/-- The field of a place that may be missing. -/
def placeField : Option Span → List (String × Json)
  | none => []
  | some s => [("loc", s.toJson)]

/-- A literal is written as the value it stands for. -/
def Literal.toJson : Literal → Json
  | .bool b => .bool b
  | .number x => .ofNumber x

mutual
/-- A node as an object. -/
def Node.toJson : Node → Json
  | ⟨form, loc⟩ => .object (("type", .text form.label.name) :: form.toFields ++ placeField loc)

/-- The fields of a form. -/
def Form.toFields : Form → List (String × Json)
  | .block body => [("body", .list (writeNodes body))]
  | .expression e => [("expression", e.toJson)]
  | .declaration ds => [("declarations", .list (writeDeclarators ds))]
  | .function id ps body => [("id", id.toJson), ("params", .list (writeNodes ps)), ("body", body.toJson)]
  | .branch t c a => [("test", t.toJson), ("consequent", c.toJson)] ++ writeOption "alternate" a
  | .whileLoop t b => [("test", t.toJson), ("body", b.toJson)]
  | .doLoop b t => [("body", b.toJson), ("test", t.toJson)]
  | .forLoop s t u b =>
    writeOption "init" s ++ writeOption "test" t ++ writeOption "update" u ++ [("body", b.toJson)]
  | .breakLoop => []
  | .continueLoop => []
  | .returnValue a => writeOption "argument" a
  | .literal v => [("value", v.toJson)]
  | .identifier n => [("name", .text n)]
  | .binary o l r => [("operator", .text o.symbol), ("left", l.toJson), ("right", r.toJson)]
  | .logical o l r => [("operator", .text o.symbol), ("left", l.toJson), ("right", r.toJson)]
  | .unary o a => [("operator", .text o.symbol), ("argument", a.toJson)]
  | .assign o l r => [("operator", .text o.symbol), ("left", l.toJson), ("right", r.toJson)]
  | .update o a b => [("operator", .text o.symbol), ("argument", a.toJson), ("prefix", .bool b)]
  | .call c as => [("callee", c.toJson), ("arguments", .list (writeNodes as))]
  | .choice t c a => [("test", t.toJson), ("consequent", c.toJson), ("alternate", a.toJson)]
  | .sequence es => [("expressions", .list (writeNodes es))]
  | .member o p c => [("object", o.toJson), ("property", p.toJson), ("computed", .bool c)]
  | .array es => [("elements", .list (writeNodes es))]
  | .lambda ps b => [("params", .list (writeNodes ps)), ("body", b.toJson)]
  | .typeTag n p => [("name", .text n), ("pointers", .ofNat p.toNat)]

/-- The nodes of a list. -/
def writeNodes : List Node → List Json
  | [] => []
  | n :: rest => n.toJson :: writeNodes rest

/-- The field of a node that may be missing. -/
def writeOption (key : String) : Option Node → List (String × Json)
  | none => []
  | some n => [(key, n.toJson)]

/-- A declarator as an object. -/
def Declarator.toJson : Declarator → Json
  | ⟨id, initial, size, loc⟩ =>
    .object (("id", id.toJson) :: writeOption "init" initial ++ writeOption "size" size ++ placeField loc)

/-- The declarators of a list. -/
def writeDeclarators : List Declarator → List Json
  | [] => []
  | d :: rest => d.toJson :: writeDeclarators rest
end

/-- A program as an object. -/
def Program.toJson (p : Program) : Json :=
  .object (("body", .list (writeNodes p.body)) :: placeField p.loc)

/-- The text of a program. -/
def Program.toText (p : Program) : String := Json.Codec.pretty p.toJson

end MiniC
