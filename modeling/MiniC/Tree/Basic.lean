/-!
# The syntax tree

Programs of a small C. A node has a form and perhaps a place in the source text.
Types have no nodes of their own except for the tag: a declared name is the name
as object and the tag as property of a member access, and the same shape with
any other object is a cast.
-/

namespace MiniC

/-- A place in the source text. -/
structure Span where
  line : UInt32
  column : UInt32
deriving DecidableEq, Repr, Inhabited

/-! ## Operators -/

/-- The binary operators. -/
inductive BinaryOp where
  | add | sub | mul | div | mod
  | lt | le | gt | ge | eq | ne
  | bitAnd | bitOr | bitXor | shl | shr
deriving DecidableEq, Repr

namespace BinaryOp

/-- The binary operators in their usual order. -/
def all : List BinaryOp :=
  [.add, .sub, .mul, .div, .mod, .lt, .le, .gt, .ge, .eq, .ne, .bitAnd, .bitOr, .bitXor, .shl, .shr]

/-- The sign of an operator. -/
def symbol : BinaryOp → String
  | add => "+" | sub => "-" | mul => "*" | div => "/" | mod => "%"
  | lt => "<" | le => "<=" | gt => ">" | ge => ">=" | eq => "==" | ne => "!="
  | bitAnd => "&" | bitOr => "|" | bitXor => "^" | shl => "<<" | shr => ">>"

/-- The operator of a sign. -/
def ofSymbol? (s : String) : Option BinaryOp := all.find? (·.symbol == s)

end BinaryOp

/-- The logical operators, which may skip their right operand. -/
inductive LogicalOp where
  | and | or
deriving DecidableEq, Repr

namespace LogicalOp

@[inherit_doc BinaryOp.symbol]
def symbol : LogicalOp → String
  | and => "&&" | or => "||"

@[inherit_doc BinaryOp.ofSymbol?]
def ofSymbol? (s : String) : Option LogicalOp := [and, or].find? (·.symbol == s)

end LogicalOp

/-- The unary operators. -/
inductive UnaryOp where
  | neg | plus | not | bitNot
deriving DecidableEq, Repr

namespace UnaryOp

@[inherit_doc BinaryOp.symbol]
def symbol : UnaryOp → String
  | neg => "-" | plus => "+" | not => "!" | bitNot => "~"

@[inherit_doc BinaryOp.ofSymbol?]
def ofSymbol? (s : String) : Option UnaryOp := [neg, plus, not, bitNot].find? (·.symbol == s)

end UnaryOp

/-- The assignments: a plain one, and those that combine the old value with the
    new one. -/
inductive AssignOp where
  | plain | add | sub | mul | div | mod
deriving DecidableEq, Repr

namespace AssignOp

@[inherit_doc BinaryOp.symbol]
def symbol : AssignOp → String
  | plain => "=" | add => "+=" | sub => "-=" | mul => "*=" | div => "/=" | mod => "%="

@[inherit_doc BinaryOp.ofSymbol?]
def ofSymbol? (s : String) : Option AssignOp := [plain, add, sub, mul, div, mod].find? (·.symbol == s)

/-- The operator that combines old value and new. -/
def binary? : AssignOp → Option BinaryOp
  | plain => none
  | add => some .add
  | sub => some .sub
  | mul => some .mul
  | div => some .div
  | mod => some .mod

end AssignOp

/-- Stepping a variable up or down by one. -/
inductive UpdateOp where
  | increment | decrement
deriving DecidableEq, Repr

namespace UpdateOp

@[inherit_doc BinaryOp.symbol]
def symbol : UpdateOp → String
  | increment => "++" | decrement => "--"

@[inherit_doc BinaryOp.ofSymbol?]
def ofSymbol? (s : String) : Option UpdateOp := [increment, decrement].find? (·.symbol == s)

end UpdateOp

/-! ## Nodes -/

/-- A literal is a truth value or a number. -/
inductive Literal where
  | bool (b : Bool)
  | number (x : Float)

mutual
/-- A node of the tree. -/
structure Node where
  form : Form
  loc : Option Span

/-- What a node is: a statement, an expression, or the tag of a type. -/
inductive Form where
  | block (body : List Node)
  | expression (e : Node)
  | declaration (declarators : List Declarator)
  | function (id : Node) (params : List Node) (body : Node)
  | branch (test consequent : Node) (alternate : Option Node)
  | whileLoop (test body : Node)
  | doLoop (body test : Node)
  | forLoop (start test update : Option Node) (body : Node)
  | breakLoop
  | continueLoop
  | returnValue (argument : Option Node)
  | literal (value : Literal)
  | identifier (name : String)
  | binary (op : BinaryOp) (left right : Node)
  | logical (op : LogicalOp) (left right : Node)
  | unary (op : UnaryOp) (argument : Node)
  | assign (op : AssignOp) (left right : Node)
  | update (op : UpdateOp) (argument : Node) (before : Bool)
  | call (callee : Node) (arguments : List Node)
  | choice (test consequent alternate : Node)
  | sequence (expressions : List Node)
  | member (object property : Node) (computed : Bool)
  | array (elements : List Node)
  | lambda (params : List Node) (body : Node)
  | typeTag (name : String) (pointers : UInt32)

/-- One name of a variable declaration; with a size it is an array. -/
structure Declarator where
  id : Node
  initial : Option Node
  size : Option Node
  loc : Option Span
end

/-- A program is a list of statements. -/
structure Program where
  body : List Node
  loc : Option Span

/-! ## Labels -/

/-- The kinds of nodes, and the program as a whole. -/
inductive Label where
  | blockStatement | expressionStatement | variableDeclaration | functionDeclaration
  | ifStatement | whileStatement | doWhileStatement | forStatement
  | breakStatement | continueStatement | returnStatement
  | literal | identifier | binaryExpression | logicalExpression | unaryExpression
  | assignmentExpression | updateExpression | callExpression | conditionalExpression
  | sequenceExpression | memberExpression | arrayExpression | functionExpression | typeTag
  | program
deriving DecidableEq, Repr

namespace Label

/-- The labels of nodes, in the order of their forms. -/
def ofNodes : List Label :=
  [.blockStatement, .expressionStatement, .variableDeclaration, .functionDeclaration, .ifStatement,
   .whileStatement, .doWhileStatement, .forStatement, .breakStatement, .continueStatement,
   .returnStatement, .literal, .identifier, .binaryExpression, .logicalExpression, .unaryExpression,
   .assignmentExpression, .updateExpression, .callExpression, .conditionalExpression,
   .sequenceExpression, .memberExpression, .arrayExpression, .functionExpression, .typeTag]

/-- The written name of a label. -/
def name : Label → String
  | blockStatement => "BlockStatement"
  | expressionStatement => "ExpressionStatement"
  | variableDeclaration => "VariableDeclaration"
  | functionDeclaration => "FunctionDeclaration"
  | ifStatement => "IfStatement"
  | whileStatement => "WhileStatement"
  | doWhileStatement => "DoWhileStatement"
  | forStatement => "ForStatement"
  | breakStatement => "BreakStatement"
  | continueStatement => "ContinueStatement"
  | returnStatement => "ReturnStatement"
  | literal => "Literal"
  | identifier => "Identifier"
  | binaryExpression => "BinaryExpression"
  | logicalExpression => "LogicalExpression"
  | unaryExpression => "UnaryExpression"
  | assignmentExpression => "AssignmentExpression"
  | updateExpression => "UpdateExpression"
  | callExpression => "CallExpression"
  | conditionalExpression => "ConditionalExpression"
  | sequenceExpression => "SequenceExpression"
  | memberExpression => "MemberExpression"
  | arrayExpression => "ArrayExpression"
  | functionExpression => "FunctionExpression"
  | typeTag => "TypeTag"
  | program => "Program"

/-- The label of a node by its name. -/
def ofName? (s : String) : Option Label := ofNodes.find? (·.name == s)

end Label

/-- The label of a form. -/
def Form.label : Form → Label
  | .block .. => .blockStatement
  | .expression .. => .expressionStatement
  | .declaration .. => .variableDeclaration
  | .function .. => .functionDeclaration
  | .branch .. => .ifStatement
  | .whileLoop .. => .whileStatement
  | .doLoop .. => .doWhileStatement
  | .forLoop .. => .forStatement
  | .breakLoop => .breakStatement
  | .continueLoop => .continueStatement
  | .returnValue .. => .returnStatement
  | .literal .. => .literal
  | .identifier .. => .identifier
  | .binary .. => .binaryExpression
  | .logical .. => .logicalExpression
  | .unary .. => .unaryExpression
  | .assign .. => .assignmentExpression
  | .update .. => .updateExpression
  | .call .. => .callExpression
  | .choice .. => .conditionalExpression
  | .sequence .. => .sequenceExpression
  | .member .. => .memberExpression
  | .array .. => .arrayExpression
  | .lambda .. => .functionExpression
  | .typeTag .. => .typeTag

/-- The label of a node. -/
def Node.label (n : Node) : Label := n.form.label

end MiniC
