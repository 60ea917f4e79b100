import MiniC.Tree.Basic

/-!
# Trees that agree

Two trees agree when they have the same shape, names and places and their numbers
compare equal. A tree with a number that is no number agrees with none, not even
with itself.
-/

namespace MiniC

/-- Literals agree when their values compare equal. -/
def Literal.agrees : Literal → Literal → Bool
  | .bool a, .bool b => a == b
  | .number x, .number y => x == y
  | _, _ => false

mutual
/-- Nodes agree in form and place. -/
def Node.agrees : Node → Node → Bool
  | ⟨f, l⟩, ⟨g, m⟩ => f.agrees g && l == m

/-- Forms agree part by part. -/
def Form.agrees : Form → Form → Bool
  | .block b, .block b' => agreeList b b'
  | .expression e, .expression e' => e.agrees e'
  | .declaration ds, .declaration ds' => agreeDeclarators ds ds'
  | .function i ps b, .function i' ps' b' => i.agrees i' && agreeList ps ps' && b.agrees b'
  | .branch t c a, .branch t' c' a' => t.agrees t' && c.agrees c' && agreeOption a a'
  | .whileLoop t b, .whileLoop t' b' => t.agrees t' && b.agrees b'
  | .doLoop b t, .doLoop b' t' => b.agrees b' && t.agrees t'
  | .forLoop s t u b, .forLoop s' t' u' b' =>
    agreeOption s s' && agreeOption t t' && agreeOption u u' && b.agrees b'
  | .breakLoop, .breakLoop => true
  | .continueLoop, .continueLoop => true
  | .returnValue a, .returnValue a' => agreeOption a a'
  | .literal v, .literal v' => v.agrees v'
  | .identifier n, .identifier n' => n == n'
  | .binary o l r, .binary o' l' r' => o == o' && l.agrees l' && r.agrees r'
  | .logical o l r, .logical o' l' r' => o == o' && l.agrees l' && r.agrees r'
  | .unary o a, .unary o' a' => o == o' && a.agrees a'
  | .assign o l r, .assign o' l' r' => o == o' && l.agrees l' && r.agrees r'
  | .update o a b, .update o' a' b' => o == o' && a.agrees a' && b == b'
  | .call c as, .call c' as' => c.agrees c' && agreeList as as'
  | .choice t c a, .choice t' c' a' => t.agrees t' && c.agrees c' && a.agrees a'
  | .sequence es, .sequence es' => agreeList es es'
  | .member o p c, .member o' p' c' => o.agrees o' && p.agrees p' && c == c'
  | .array es, .array es' => agreeList es es'
  | .lambda ps b, .lambda ps' b' => agreeList ps ps' && b.agrees b'
  | .typeTag n p, .typeTag n' p' => n == n' && p == p'
  | _, _ => false

/-- Lists agree item by item. -/
def agreeList : List Node → List Node → Bool
  | [], [] => true
  | a :: as, b :: bs => a.agrees b && agreeList as bs
  | _, _ => false

/-- Optional nodes agree when both are missing or both are there and agree. -/
def agreeOption : Option Node → Option Node → Bool
  | none, none => true
  | some a, some b => a.agrees b
  | _, _ => false

/-- Declarators agree part by part. -/
def Declarator.agrees : Declarator → Declarator → Bool
  | ⟨i, n, s, l⟩, ⟨i', n', s', l'⟩ => i.agrees i' && agreeOption n n' && agreeOption s s' && l == l'

@[inherit_doc agreeList]
def agreeDeclarators : List Declarator → List Declarator → Bool
  | [], [] => true
  | a :: as, b :: bs => a.agrees b && agreeDeclarators as bs
  | _, _ => false
end

/-- Programs agree in their statements and place. -/
def Program.agrees (p q : Program) : Bool := agreeList p.body q.body && p.loc == q.loc

end MiniC
