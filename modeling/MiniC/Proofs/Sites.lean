import MiniC.Proofs.Parts

/-!
# The sites of nodes

A program is well formed if its statements stand where statements may stand, and its jumps
in loops. Where a node may stand follows from what it is a part of (`Form.sites`), so a whole
tree is checked part by part (`Node.wellPlaced_iff`). The site of a node tells how it may
complete (`Site.admits`): an operand yields a value, and only what is in a loop jumps.
-/

namespace MiniC

/-! ## Sites -/

/-- Where a node stands: where statements do, in a loop of the same function or not; as the
    initialiser of a `for` loop; or where a value is needed. -/
inductive Site where
  | statement (looped : Bool)
  | initial
  | operand
deriving DecidableEq, Repr

/-- Whether the nodes of a form are statements. -/
def Form.isStatement : Form → Bool
  | .block _ | .expression _ | .declaration _ | .function .. | .branch .. | .whileLoop .. | .doLoop .. | .forLoop ..
  | .breakLoop | .continueLoop | .returnValue _ => true
  | _ => false

/-- Whether a node of a form may stand at a site. The initialiser of a loop is an expression
    or declares variables. -/
def Form.mayStand : Site → Form → Bool
  | .statement looped, .breakLoop | .statement looped, .continueLoop => looped
  | .statement _, _ => true
  | .initial, .declaration _ | .initial, .expression _ => true
  | _, form => !form.isStatement

/-- The parts of a node of a form, with their sites. What a block or a conditional statement
    consists of stands where that stands, and the body of a function is in no loop. -/
def Form.sites (site : Site) : Form → List (Node × Site)
  | .block body => body.map (·, site)
  | .function id params body => (body, .statement false) :: (id, .operand) :: params.map (·, .operand)
  | .branch test consequent alternate => (test, .operand) :: (consequent, site) :: alternate.toList.map (·, site)
  | .whileLoop test body | .doLoop body test => [(test, .operand), (body, .statement true)]
  | .forLoop start test next body =>
    (body, .statement true) :: (start.toList.map (·, .initial) ++ (test.toList ++ next.toList).map (·, .operand))
  | .lambda params body => (body, .statement false) :: params.map (·, .operand)
  | form => form.parts.map (·, .operand)

/-- How a node may complete at a site. -/
def Site.admits : Site → Completion → Bool
  | _, .normal _ => true
  | .statement _, .returned _ => true
  | .statement looped, .jump _ _ => looped
  | _, _ => false

/-- A statement that is no jump may stand where statements do, and at the head of a loop only
    if it completes normally. -/
theorem Form.exists_of_mayStand {site : Site} {form : Form} (may : form.mayStand site = true)
    (statement : form.isStatement = true) (outside : (∀ e, form ≠ .expression e) ∧ ∀ d, form ≠ .declaration d) :
    ∃ looped, site = .statement looped := by
  cases site with
  | statement looped => exact ⟨looped, rfl⟩
  | initial => cases form <;> simp_all [mayStand, isStatement]
  | operand => cases form <;> simp_all [mayStand, isStatement]

/-! ## Well-placed nodes -/

mutual

/-- Whether a node may stand at a site, and all that it is made of at theirs. -/
def Node.wellPlaced (site : Site) : Node → Bool
  | ⟨form, _⟩ => form.mayStand site && form.partsPlaced site

/-- Whether all that a node of a form is made of is well placed. -/
def Form.partsPlaced (site : Site) : Form → Bool
  | .block body => wellPlacedNodes site body
  | .expression e => e.wellPlaced .operand
  | .declaration declarators => wellPlacedDeclarators declarators
  | .function id params body =>
    body.wellPlaced (.statement false) && id.wellPlaced .operand && wellPlacedNodes .operand params
  | .branch test consequent alternate =>
    test.wellPlaced .operand && consequent.wellPlaced site && wellPlacedOption site alternate
  | .whileLoop test body => test.wellPlaced .operand && body.wellPlaced (.statement true)
  | .doLoop body test => test.wellPlaced .operand && body.wellPlaced (.statement true)
  | .forLoop start test next body =>
    body.wellPlaced (.statement true) && wellPlacedOption .initial start && wellPlacedOption .operand test &&
      wellPlacedOption .operand next
  | .returnValue argument => wellPlacedOption .operand argument
  | .binary _ left right => left.wellPlaced .operand && right.wellPlaced .operand
  | .logical _ left right => left.wellPlaced .operand && right.wellPlaced .operand
  | .assign _ left right => left.wellPlaced .operand && right.wellPlaced .operand
  | .unary _ argument => argument.wellPlaced .operand
  | .update _ argument _ => argument.wellPlaced .operand
  | .call callee arguments => callee.wellPlaced .operand && wellPlacedNodes .operand arguments
  | .choice test consequent alternate =>
    test.wellPlaced .operand && consequent.wellPlaced .operand && alternate.wellPlaced .operand
  | .sequence expressions => wellPlacedNodes .operand expressions
  | .member object property _ => object.wellPlaced .operand && property.wellPlaced .operand
  | .array elements => wellPlacedNodes .operand elements
  | .lambda params body => body.wellPlaced (.statement false) && wellPlacedNodes .operand params
  | .breakLoop | .continueLoop | .literal _ | .identifier _ | .typeTag .. => true

/-- Whether nodes are well placed at one site. -/
def wellPlacedNodes (site : Site) : List Node → Bool
  | [] => true
  | n :: rest => n.wellPlaced site && wellPlacedNodes site rest

/-- Whether a part that may be missing is well placed. -/
def wellPlacedOption (site : Site) : Option Node → Bool
  | none => true
  | some n => n.wellPlaced site

/-- Whether the nodes of a declarator are well placed. -/
def Declarator.wellPlaced : Declarator → Bool
  | ⟨id, initial, size, _⟩ =>
    id.wellPlaced .operand && wellPlacedOption .operand initial && wellPlacedOption .operand size

/-- Whether the nodes of declarators are well placed. -/
def wellPlacedDeclarators : List Declarator → Bool
  | [] => true
  | d :: rest => d.wellPlaced && wellPlacedDeclarators rest

end

/-- Whether the statements of a program stand where statements may stand, and its jumps in
    loops. -/
def Program.wellFormed (p : Program) : Bool := p.body.all (·.wellPlaced (.statement false))

theorem wellPlacedNodes_iff {site : Site} {nodes : List Node} :
    wellPlacedNodes site nodes = true ↔ ∀ n ∈ nodes, n.wellPlaced site = true := by
  induction nodes with
  | nil => simp [wellPlacedNodes]
  | cons n rest ih => simp [wellPlacedNodes, ih]

theorem wellPlacedOption_iff {site : Site} {n : Option Node} :
    wellPlacedOption site n = true ↔ ∀ c ∈ n.toList, c.wellPlaced site = true := by
  cases n <;> simp [wellPlacedOption]

theorem Declarator.wellPlaced_iff {d : Declarator} :
    d.wellPlaced = true ↔ ∀ c ∈ d.parts, c.wellPlaced .operand = true := by
  obtain ⟨id, initial, size, loc⟩ := d
  simp [Declarator.wellPlaced, Declarator.parts, wellPlacedOption_iff, or_imp, forall_and, and_assoc]

theorem wellPlacedDeclarators_iff {declarators : List Declarator} :
    wellPlacedDeclarators declarators = true ↔ ∀ d ∈ declarators, d.wellPlaced = true := by
  induction declarators with
  | nil => simp [wellPlacedDeclarators]
  | cons d rest ih => simp [wellPlacedDeclarators, ih]

theorem Form.partsPlaced_iff {site : Site} {form : Form} :
    form.partsPlaced site = true ↔ ∀ c ∈ form.sites site, c.1.wellPlaced c.2 = true := by
  cases form <;> simp only [Form.partsPlaced, Form.sites, Form.parts, Bool.and_eq_true, wellPlacedNodes_iff,
    wellPlacedOption_iff, wellPlacedDeclarators_iff, Declarator.wellPlaced_iff, List.forall_mem_map, List.forall_mem_cons,
    List.forall_mem_append, List.map_append] <;> grind

/-- A node is well placed exactly if it may stand at its site and its parts are well placed
    at theirs. -/
theorem Node.wellPlaced_iff {site : Site} {n : Node} : n.wellPlaced site = true ↔
    n.form.mayStand site = true ∧ ∀ c ∈ n.form.sites site, c.1.wellPlaced c.2 = true := by
  rw [← Form.partsPlaced_iff, ← Bool.and_eq_true]
  cases n
  rfl

/-! ## What evaluations add -/

/-- The cast of an operand is one. -/
theorem Node.wellPlaced_castTo {n : Node} (placed : n.wellPlaced .operand = true) (kind : Kind) :
    (n.castTo kind).wellPlaced .operand = true := by
  refine Node.wellPlaced_iff.mpr ⟨rfl, fun c member => ?_⟩
  rcases List.mem_cons.mp member with rfl | member
  · exact placed
  · rw [List.mem_singleton.mp member]
    exact Node.wellPlaced_iff.mpr ⟨rfl, List.forall_mem_nil _⟩

/-- The call of the entry point is an operand. -/
theorem Program.wellPlaced_entryCall {p : Program} {settings : Settings} {n : Node}
    (called : p.entryCall? settings = some n) : n.wellPlaced .operand = true := by
  obtain ⟨name, -, made⟩ := Option.bind_eq_some_iff.mp called
  split at made
  · cases made
    rfl
  · cases made

end MiniC
