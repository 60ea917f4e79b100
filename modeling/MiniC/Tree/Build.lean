import MiniC.Tree.Basic
import MiniC.Text.Blank

/-!
# Building trees

Short names for nodes without a place. A type is given by its spelling: the stars
are counted, and what is left after the stars and blanks at the end is the name.
-/

namespace MiniC.Tree

/-- A node without a place. -/
def bare (form : Form) : Node := ⟨form, none⟩

/-- A node moved to a place. -/
def placed (n : Node) (line column : UInt32) : Node := { n with loc := some ⟨line, column⟩ }

/-- A number. -/
def num (x : Float) : Node := bare (.literal (.number x))

/-- A truth value. -/
def bool (b : Bool) : Node := bare (.literal (.bool b))

/-- A name. -/
def ident (name : String) : Node := bare (.identifier name)

/-- The number of stars in a spelling. -/
def stars (spelling : String) : UInt32 := UInt32.ofNat (spelling.toList.count '*')

/-- A star or a blank. -/
def isStarOrBlank (c : Char) : Bool := c == '*' || Text.isBlank c

/-- The tag of a type. -/
def ty (spelling : String) : Node :=
  bare (.typeTag (String.ofList (Text.dropEnd isStarOrBlank spelling.toList)) (stars spelling))

/-- A member access. -/
def member (object property : Node) (computed : Bool) : Node := bare (.member object property computed)

/-- A declared name. -/
def typed (spelling name : String) : Node := member (ident name) (ty spelling) false

/-- A cast. -/
def cast (spelling : String) (e : Node) : Node := member e (ty spelling) false

/-- An element of an array. -/
def index (object property : Node) : Node := member object property true

/-- A binary operation. -/
def bin (op : BinaryOp) (left right : Node) : Node := bare (.binary op left right)

/-- A logical operation. -/
def logical (op : LogicalOp) (left right : Node) : Node := bare (.logical op left right)

/-- A unary operation. -/
def unary (op : UnaryOp) (argument : Node) : Node := bare (.unary op argument)

/-- An assignment. -/
def assign (op : AssignOp) (left right : Node) : Node := bare (.assign op left right)

/-- A plain assignment to a name. -/
def set (name : String) (value : Node) : Node := assign .plain (ident name) value

/-- A step up or down, before or after the value is taken. -/
def update (op : UpdateOp) (argument : Node) (before : Bool) : Node := bare (.update op argument before)

/-- A call of a named function. -/
def call (name : String) (arguments : List Node) : Node := bare (.call (ident name) arguments)

/-- A choice between two values. -/
def choice (test consequent alternate : Node) : Node := bare (.choice test consequent alternate)

/-- Expressions one after another. -/
def sequence (expressions : List Node) : Node := bare (.sequence expressions)

/-- An array. -/
def array (elements : List Node) : Node := bare (.array elements)

/-- An expression as a statement. -/
def expr (e : Node) : Node := bare (.expression e)

/-- A block. -/
def block (body : List Node) : Node := bare (.block body)

/-- One name of a declaration. -/
def declarator (spelling name : String) (initial : Option Node) : Declarator :=
  ⟨typed spelling name, initial, none, none⟩

/-- A declaration. -/
def declare (declarators : List Declarator) : Node := bare (.declaration declarators)

/-- The declaration of one variable. -/
def var (spelling name : String) (initial : Option Node) : Node := declare [declarator spelling name initial]

/-- The declaration of one array. -/
def arrayVar (spelling name : String) (size : Node) (initial : Option Node) : Node :=
  declare [⟨typed spelling name, initial, some size, none⟩]

/-- Parameters from spellings and names. -/
def params (list : List (String × String)) : List Node := list.map fun (spelling, name) => typed spelling name

/-- A named function. -/
def func (result name : String) (list : List (String × String)) (body : List Node) : Node :=
  bare (.function (typed result name) (params list) (block body))

/-- A function without a name. -/
def lambda (list : List (String × String)) (body : List Node) : Node := bare (.lambda (params list) (block body))

/-- A conditional statement. -/
def branch (test consequent : Node) (alternate : Option Node) : Node := bare (.branch test consequent alternate)

/-- A loop that tests first. -/
def whileLoop (test body : Node) : Node := bare (.whileLoop test body)

/-- A loop that tests last. -/
def doLoop (body test : Node) : Node := bare (.doLoop body test)

/-- A loop with a header. -/
def forLoop (start test update : Option Node) (body : Node) : Node := bare (.forLoop start test update body)

/-- Leaves a loop. -/
def breakLoop : Node := bare .breakLoop

/-- Goes on with a loop. -/
def continueLoop : Node := bare .continueLoop

/-- Leaves a function. -/
def returnValue (argument : Option Node) : Node := bare (.returnValue argument)

end MiniC.Tree
