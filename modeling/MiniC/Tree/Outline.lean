import MiniC.Kind
import MiniC.Number.Layout
import MiniC.Text.Quoted

/-!
# Outlines

An outline shows a thing with all its parts by name, inside messages about what
must not happen.
-/

namespace MiniC

namespace Outline

/-- A thing with named parts. -/
def parts (name : String) (list : List (String × String)) : String :=
  name ++ " \x7b " ++ ", ".intercalate (list.map fun (key, value) => key ++ ": " ++ value) ++ " \x7d"

/-- A thing with one part that has no name. -/
def wrap (name part : String) : String := name ++ "(" ++ part ++ ")"

/-- A list of things. -/
def list (items : List String) : String := "[" ++ ", ".intercalate items ++ "]"

/-- A truth value. -/
def bool (b : Bool) : String := if b then "true" else "false"

/-- A thing that may be missing. -/
def option : Option String → String
  | none => "None"
  | some s => wrap "Some" s

end Outline

open Outline

/-- The outline of a place. -/
def Span.outline (s : Span) : String :=
  parts "Span" [("line", toString s.line.toNat), ("column", toString s.column.toNat)]

/-- The outline of a place that may be missing. -/
def placeOutline (loc : Option Span) : String := Outline.option (loc.map Span.outline)

/-- The outline of a literal. -/
def Literal.outline : Literal → String
  | .bool b => wrap "Bool" (Outline.bool b)
  | .number x => wrap "Number" (Number.tagged.render x)

/-- The outline of an operator. -/
def BinaryOp.outline : BinaryOp → String
  | add => "Add" | sub => "Sub" | mul => "Mul" | div => "Div" | mod => "Mod"
  | lt => "Lt" | le => "Le" | gt => "Gt" | ge => "Ge" | eq => "Eq" | ne => "Ne"
  | bitAnd => "BitAnd" | bitOr => "BitOr" | bitXor => "BitXor" | shl => "Shl" | shr => "Shr"

@[inherit_doc BinaryOp.outline]
def LogicalOp.outline : LogicalOp → String
  | and => "And" | or => "Or"

@[inherit_doc BinaryOp.outline]
def UnaryOp.outline : UnaryOp → String
  | neg => "Neg" | plus => "Plus" | not => "Not" | bitNot => "BitNot"

@[inherit_doc BinaryOp.outline]
def AssignOp.outline : AssignOp → String
  | plain => "Assign" | add => "AddAssign" | sub => "SubAssign" | mul => "MulAssign"
  | div => "DivAssign" | mod => "ModAssign"

@[inherit_doc BinaryOp.outline]
def UpdateOp.outline : UpdateOp → String
  | increment => "Increment" | decrement => "Decrement"

/-- The outline of a primitive type. -/
def Primitive.outline : Primitive → String
  | void => "Void" | bool => "Bool" | char => "Char" | int => "Int" | float => "Float" | double => "Double"

/-- The outline of a kind. -/
def Kind.outline (k : Kind) : String :=
  parts "Kind" [("primitive", k.primitive.outline), ("pointers", toString k.pointers.toNat)]

mutual
/-- The outline of a node. -/
def Node.outline : Node → String
  | ⟨form, loc⟩ => parts "Node" [("kind", form.outline), ("loc", placeOutline loc)]

/-- The outline of a form. -/
def Form.outline : Form → String
  | .block b => parts "BlockStatement" [("body", list (outlines b))]
  | .expression e => parts "ExpressionStatement" [("expression", e.outline)]
  | .declaration ds => parts "VariableDeclaration" [("declarations", list (declaratorOutlines ds))]
  | .function i ps b =>
    parts "FunctionDeclaration" [("id", i.outline), ("params", list (outlines ps)), ("body", b.outline)]
  | .branch t c a =>
    parts "IfStatement" [("test", t.outline), ("consequent", c.outline), ("alternate", optionOutline a)]
  | .whileLoop t b => parts "WhileStatement" [("test", t.outline), ("body", b.outline)]
  | .doLoop b t => parts "DoWhileStatement" [("body", b.outline), ("test", t.outline)]
  | .forLoop s t u b =>
    parts "ForStatement" [("init", optionOutline s), ("test", optionOutline t), ("update", optionOutline u),
      ("body", b.outline)]
  | .breakLoop => "BreakStatement"
  | .continueLoop => "ContinueStatement"
  | .returnValue a => parts "ReturnStatement" [("argument", optionOutline a)]
  | .literal v => parts "Literal" [("value", v.outline)]
  | .identifier n => parts "Identifier" [("name", Text.quote n)]
  | .binary o l r =>
    parts "BinaryExpression" [("operator", o.outline), ("left", l.outline), ("right", r.outline)]
  | .logical o l r =>
    parts "LogicalExpression" [("operator", o.outline), ("left", l.outline), ("right", r.outline)]
  | .unary o a => parts "UnaryExpression" [("operator", o.outline), ("argument", a.outline)]
  | .assign o l r =>
    parts "AssignmentExpression" [("operator", o.outline), ("left", l.outline), ("right", r.outline)]
  | .update o a b =>
    parts "UpdateExpression" [("operator", o.outline), ("argument", a.outline), ("prefix", Outline.bool b)]
  | .call c as => parts "CallExpression" [("callee", c.outline), ("arguments", list (outlines as))]
  | .choice t c a =>
    parts "ConditionalExpression" [("test", t.outline), ("consequent", c.outline), ("alternate", a.outline)]
  | .sequence es => parts "SequenceExpression" [("expressions", list (outlines es))]
  | .member o p c =>
    parts "MemberExpression" [("object", o.outline), ("property", p.outline), ("computed", Outline.bool c)]
  | .array es => parts "ArrayExpression" [("elements", list (outlines es))]
  | .lambda ps b => parts "FunctionExpression" [("params", list (outlines ps)), ("body", b.outline)]
  | .typeTag n p => parts "TypeTag" [("name", Text.quote n), ("pointers", toString p.toNat)]

/-- The outlines of some nodes. -/
def outlines : List Node → List String
  | [] => []
  | n :: rest => n.outline :: outlines rest

/-- The outline of a node that may be missing. -/
def optionOutline : Option Node → String
  | none => "None"
  | some n => wrap "Some" n.outline

/-- The outline of a declarator. -/
def Declarator.outline : Declarator → String
  | ⟨id, initial, size, loc⟩ =>
    parts "VariableDeclarator" [("id", id.outline), ("init", optionOutline initial),
      ("size", optionOutline size), ("loc", placeOutline loc)]

/-- The outlines of some declarators. -/
def declaratorOutlines : List Declarator → List String
  | [] => []
  | d :: rest => d.outline :: declaratorOutlines rest
end

end MiniC
