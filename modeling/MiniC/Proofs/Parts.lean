import MiniC.Eval.Program

/-!
# Parts of nodes

What a node is made of, which of its parts are evaluated in the frame on top of the chain
when it is, and two properties that are read off a whole tree: that every node in it has a
permitted form, and that its evaluation may declare a variable in the frame on top.
-/

namespace MiniC

/-- The nodes of a declarator. -/
def Declarator.parts : Declarator → List Node
  | ⟨id, initial, size, _⟩ => id :: (initial.toList ++ size.toList)

theorem Declarator.mem_parts_of_initial {d : Declarator} {n : Node} (given : n ∈ d.initial) : n ∈ d.parts := by
  obtain ⟨id, initial, size, loc⟩ := d
  cases given
  simp [parts]

theorem Declarator.mem_parts_of_size {d : Declarator} {n : Node} (sized : n ∈ d.size) : n ∈ d.parts := by
  obtain ⟨id, initial, size, loc⟩ := d
  cases sized
  simp [parts]

theorem Declarator.forall_mem_parts {d : Declarator} {P : Node → Prop} :
    (∀ c ∈ d.parts, P c) ↔ P d.id ∧ (∀ c ∈ d.initial.toList, P c) ∧ ∀ c ∈ d.size.toList, P c := by
  obtain ⟨id, initial, size, loc⟩ := d
  simp only [parts, List.forall_mem_cons, List.forall_mem_append]

/-- The nodes that a node of a form is made of. -/
def Form.parts : Form → List Node
  | .block body => body
  | .expression e => [e]
  | .declaration declarators => declarators.flatMap (·.parts)
  | .function id params body => id :: body :: params
  | .branch test consequent alternate => test :: consequent :: alternate.toList
  | .whileLoop test body | .doLoop body test => [test, body]
  | .forLoop start test next body => body :: (start.toList ++ test.toList ++ next.toList)
  | .returnValue argument => argument.toList
  | .binary _ left right | .logical _ left right | .assign _ left right => [left, right]
  | .unary _ argument | .update _ argument _ => [argument]
  | .call callee arguments => callee :: arguments
  | .choice test consequent alternate => [test, consequent, alternate]
  | .sequence expressions => expressions
  | .member object property _ => [object, property]
  | .array elements => elements
  | .lambda params body => body :: params
  | .breakLoop | .continueLoop | .literal _ | .identifier _ | .typeTag .. => []

/-- The parts that are evaluated in the frame on top when a node of a form is. -/
def Form.inner : Form → List Node
  | .block _ | .declaration _ | .function .. | .forLoop .. | .lambda .. => []
  | .call _ arguments => arguments
  | .member object _ false => [object]
  | form => form.parts

theorem Form.mem_parts_of_inner {form : Form} {c : Node} (member : c ∈ form.inner) : c ∈ form.parts := by
  cases form with
  | member object property computed => cases computed <;> simp_all [inner, parts]
  | _ => simp_all [inner, parts]

/-! ## Permitted forms -/

mutual

/-- Whether a node and all that it is made of have permitted forms. -/
def Node.all (law : Form → Bool) : Node → Bool
  | ⟨form, _⟩ => law form && form.allParts law

/-- Whether all that a node of a form is made of has permitted forms. -/
def Form.allParts (law : Form → Bool) : Form → Bool
  | .block body => allNodes law body
  | .expression e => e.all law
  | .declaration declarators => allDeclarators law declarators
  | .function id params body => id.all law && body.all law && allNodes law params
  | .branch test consequent alternate => test.all law && consequent.all law && allOption law alternate
  | .whileLoop test body => test.all law && body.all law
  | .doLoop body test => test.all law && body.all law
  | .forLoop start test update body =>
    body.all law && allOption law start && allOption law test && allOption law update
  | .returnValue argument => allOption law argument
  | .binary _ left right => left.all law && right.all law
  | .logical _ left right => left.all law && right.all law
  | .assign _ left right => left.all law && right.all law
  | .unary _ argument => argument.all law
  | .update _ argument _ => argument.all law
  | .call callee arguments => callee.all law && allNodes law arguments
  | .choice test consequent alternate => test.all law && consequent.all law && alternate.all law
  | .sequence expressions => allNodes law expressions
  | .member object property _ => object.all law && property.all law
  | .array elements => allNodes law elements
  | .lambda params body => body.all law && allNodes law params
  | .breakLoop | .continueLoop | .literal _ | .identifier _ | .typeTag .. => true

/-- Whether nodes and all that they are made of have permitted forms. -/
def allNodes (law : Form → Bool) : List Node → Bool
  | [] => true
  | n :: rest => n.all law && allNodes law rest

/-- Whether a part that may be missing has permitted forms. -/
def allOption (law : Form → Bool) : Option Node → Bool
  | none => true
  | some n => n.all law

/-- Whether the nodes of a declarator have permitted forms. -/
def Declarator.all (law : Form → Bool) : Declarator → Bool
  | ⟨id, initial, size, _⟩ => id.all law && allOption law initial && allOption law size

/-- Whether the nodes of declarators have permitted forms. -/
def allDeclarators (law : Form → Bool) : List Declarator → Bool
  | [] => true
  | d :: rest => d.all law && allDeclarators law rest

end

section all
variable {law : Form → Bool}

theorem Node.all_eq (n : Node) : n.all law = (law n.form && n.form.allParts law) := by
  cases n
  rfl

theorem allNodes_iff {nodes : List Node} : allNodes law nodes = true ↔ ∀ n ∈ nodes, n.all law = true := by
  induction nodes with
  | nil => simp [allNodes]
  | cons n rest ih => simp [allNodes, ih]

theorem allOption_iff {n : Option Node} : allOption law n = true ↔ ∀ c ∈ n.toList, c.all law = true := by
  cases n <;> simp [allOption]

theorem Declarator.all_iff {d : Declarator} : d.all law = true ↔ ∀ c ∈ d.parts, c.all law = true := by
  obtain ⟨id, initial, size, loc⟩ := d
  simp [Declarator.all, Declarator.parts, allOption_iff, or_imp, forall_and, and_assoc]

theorem allDeclarators_iff {declarators : List Declarator} :
    allDeclarators law declarators = true ↔ ∀ d ∈ declarators, d.all law = true := by
  induction declarators with
  | nil => simp [allDeclarators]
  | cons d rest ih => simp [allDeclarators, ih]

theorem Form.allParts_iff {form : Form} : form.allParts law = true ↔ ∀ c ∈ form.parts, c.all law = true := by
  cases form <;> simp only [Form.allParts, Form.parts, Bool.and_eq_true, allNodes_iff, allOption_iff, allDeclarators_iff,
    Declarator.all_iff] <;> grind

/-- A node has permitted forms exactly if its own form is permitted and those of its parts
    are. -/
theorem Node.all_iff {n : Node} :
    n.all law = true ↔ law n.form = true ∧ ∀ c ∈ n.form.parts, c.all law = true := by
  rw [n.all_eq, Bool.and_eq_true, Form.allParts_iff]

theorem Declarator.sizeOf_parts {d : Declarator} {c : Node} (member : c ∈ d.parts) : sizeOf c < sizeOf d := by
  obtain ⟨id, initial, size, loc⟩ := d
  rw [Declarator.mk.sizeOf_spec]
  rcases List.mem_cons.mp member with rfl | member
  · omega
  · rcases List.mem_append.mp member with given | sized
    · rw [Option.mem_toList.mp given, Option.some.sizeOf_spec]
      omega
    · rw [Option.mem_toList.mp sized, Option.some.sizeOf_spec]
      omega

/-- What a node is made of is smaller. -/
theorem Form.sizeOf_parts {form : Form} {c : Node} (member : c ∈ form.parts) : sizeOf c < sizeOf form := by
  have listed {nodes : List Node} (member : c ∈ nodes) : sizeOf c < sizeOf nodes := List.sizeOf_lt_of_mem member
  have optional {n : Option Node} (member : n = some c) : sizeOf c < sizeOf n := by
    rw [member, Option.some.sizeOf_spec]
    omega
  cases form with
  | declaration declarators =>
    obtain ⟨d, among, part⟩ := List.mem_flatMap.mp member
    have smaller := d.sizeOf_parts part
    have within := List.sizeOf_lt_of_mem among
    rw [Form.declaration.sizeOf_spec]
    omega
  | _ =>
    simp only [parts, List.mem_cons, List.mem_append, List.not_mem_nil, or_false, Option.mem_toList] at member <;>
      simp <;> grind

theorem Node.sizeOf_parts {n c : Node} (part : c ∈ n.form.parts) : sizeOf c < sizeOf n := by
  have smaller := Form.sizeOf_parts part
  cases n
  rw [Node.mk.sizeOf_spec]
  dsimp only at smaller
  omega

/-- What a node has if its parts have it all nodes have. -/
theorem Node.inductParts {motive : Node → Prop} (step : ∀ n : Node, (∀ c ∈ n.form.parts, motive c) → motive n) (n : Node) :
    motive n :=
  step n fun c _ => Node.inductParts step c
termination_by sizeOf n
decreasing_by exact Node.sizeOf_parts ‹_›

/-- If every form is permitted then every node is. -/
theorem Node.all_of_forall (everything : ∀ form, law form = true) (n : Node) : n.all law = true := by
  induction n using Node.inductParts with
  | step n ih => exact Node.all_iff.mpr ⟨everything n.form, ih⟩

end all

/-! ## Code that declares variables -/

mutual

/-- Whether the evaluation of a node may declare a variable in the frame on top. Blocks
    and `for` loops have frames of their own, and so have calls. -/
def Node.introduces : Node → Bool
  | ⟨form, _⟩ => form.introduces

/-- Whether the evaluation of a node of a form may declare a variable in the frame on top. -/
def Form.introduces : Form → Bool
  | .declaration _ => true
  | .expression e => e.introduces
  | .branch test consequent alternate => test.introduces || consequent.introduces || introducesOption alternate
  | .whileLoop test body => test.introduces || body.introduces
  | .doLoop body test => test.introduces || body.introduces
  | .returnValue argument => introducesOption argument
  | .binary _ left right => left.introduces || right.introduces
  | .logical _ left right => left.introduces || right.introduces
  | .assign _ left right => left.introduces || right.introduces
  | .unary _ argument => argument.introduces
  | .update _ argument _ => argument.introduces
  | .call _ arguments => introducesAny arguments
  | .choice test consequent alternate => test.introduces || consequent.introduces || alternate.introduces
  | .sequence expressions => introducesAny expressions
  | .member object _ false => object.introduces
  | .member object property true => object.introduces || property.introduces
  | .array elements => introducesAny elements
  | .block _ | .function .. | .forLoop .. | .lambda .. => false
  | .breakLoop | .continueLoop | .literal _ | .identifier _ | .typeTag .. => false

/-- Whether the evaluation of some of the nodes may declare a variable. -/
def introducesAny : List Node → Bool
  | [] => false
  | n :: rest => n.introduces || introducesAny rest

/-- Whether the evaluation of a part that may be missing may declare a variable. -/
def introducesOption : Option Node → Bool
  | none => false
  | some n => n.introduces

end

theorem Node.introduces_eq (n : Node) : n.introduces = n.form.introduces := by
  cases n
  rfl

theorem introducesAny_iff {nodes : List Node} : introducesAny nodes = true ↔ ∃ n ∈ nodes, n.introduces = true := by
  induction nodes with
  | nil => simp [introducesAny]
  | cons n rest ih => simp [introducesAny, ih]

theorem introducesOption_iff {n : Option Node} : introducesOption n = true ↔ ∃ c ∈ n.toList, c.introduces = true := by
  cases n <;> simp [introducesOption]

/-- What a part that is evaluated in the same frame may declare the whole may. -/
theorem Form.introduces_of_inner {form : Form} {c : Node} (member : c ∈ form.inner) (introduces : c.introduces = true) :
    form.introduces = true := by
  cases form with
  | member object property computed =>
    cases computed <;> simp only [Form.inner, Form.parts, Form.introduces] at member ⊢ <;> grind
  | _ => simp only [Form.inner, Form.parts, Form.introduces, Bool.or_eq_true, introducesAny_iff, introducesOption_iff] at member ⊢ <;> grind

end MiniC
