import MiniC.Eval.Program

/-!
# Orderly programs

What a piece of code may look up, declare and put off can be read off its text. A program
is orderly if it changes nothing that was declared, and if every initialiser that is put
off means the same whenever it is computed: it declares nothing, no name that it mentions
is declared later in the frame of its declaration, and no function is declared twice.
-/

namespace MiniC

/-- Whether two lists of names have no name in common. -/
def apart (xs ys : List String) : Bool := xs.all fun x => !ys.contains x

theorem apart_iff {xs ys : List String} : apart xs ys = true ↔ ∀ x ∈ xs, x ∉ ys := by
  simp [apart]

/-- What the evaluation of a piece of code may do: the names that it may look up, those
    that it may declare in the frame on top, what the initialisers mention that it may put
    off there, the functions that it may declare, and whether it is orderly in itself. -/
structure Facts where
  mentions : List String := []
  declares : List String := []
  delayed : List (List String) := []
  functions : List String := []
  ok : Bool := true
deriving DecidableEq

namespace Facts

/-- Nothing is looked up, declared or put off. -/
def idle : Facts := {}

/-- Code that is not orderly. -/
def refused : Facts := { ok := false }

/-- A name is looked up. -/
def mention (name : String) : Facts := { mentions := [name] }

/-- Names are declared in the frame on top. -/
def declaring (names : List String) : Facts := { declares := names }

/-- Functions are declared. Their bodies declare no functions. -/
def declaringFunction (names : List String) (body : Facts) : Facts :=
  { functions := names, ok := body.ok && body.functions.isEmpty }

/-- One thing after the other. What is put off first mentions no name that is declared
    after it, and no function is declared twice. -/
def seq (f g : Facts) : Facts :=
  ⟨f.mentions ++ g.mentions, f.declares ++ g.declares, f.delayed ++ g.delayed, f.functions ++ g.functions,
    f.ok && g.ok && apart f.delayed.flatten g.declares && apart f.functions g.functions⟩

/-- One thing or the other. -/
def either (f g : Facts) : Facts :=
  ⟨f.mentions ++ g.mentions, f.declares ++ g.declares, f.delayed ++ g.delayed, f.functions ++ g.functions,
    f.ok && g.ok⟩

/-- Something any number of times. -/
def again (f : Facts) : Facts :=
  { f with ok := f.ok && apart f.delayed.flatten f.declares && f.functions.isEmpty }

/-- Something in a frame of its own. -/
def inside (f : Facts) : Facts := { f with declares := [], delayed := [] }

/-- An initialiser is put off. It declares nothing. -/
def delay (f : Facts) : Facts :=
  { mentions := f.mentions, delayed := [f.mentions],
    ok := f.ok && f.declares.isEmpty && f.delayed.isEmpty && f.functions.isEmpty }

end Facts

/-- The name that a declaration declares, if it declares one. -/
def Node.declaredNames (n : Node) : List String :=
  match n.declared with
  | .ok (name, _) => [name]
  | .error _ => []

mutual

/-- What the evaluation of a node may do. -/
def Node.facts : Node → Facts
  | ⟨form, _⟩ => form.facts

/-- What the evaluation of a node of a form may do. The body of a function is evaluated
    in calls only, and what it mentions is looked up there. -/
def Form.facts : Form → Facts
  | .block body => (factsOfAll body).inside
  | .expression e => e.facts
  | .declaration declarators => factsOfDeclarators declarators
  | .function id _ body => .declaringFunction id.declaredNames body.facts
  | .branch test consequent alternate => test.facts.seq (consequent.facts.either (factsOfOption alternate))
  | .whileLoop test body => (test.facts.seq body.facts).again
  | .doLoop body test => (body.facts.seq test.facts).again
  | .forLoop start test update body =>
    ((factsOfOption start).seq
      ((factsOfOption test).seq (body.facts.seq (factsOfOption update))).again).inside
  | .returnValue argument => factsOfOption argument
  | .identifier name => .mention name
  | .binary _ left right => left.facts.seq right.facts
  | .logical _ left right => left.facts.seq right.facts
  | .unary _ argument => argument.facts
  | .assign .. | .update .. => .refused
  | .call _ arguments => factsOfAll arguments
  | .choice test consequent alternate => test.facts.seq (consequent.facts.either alternate.facts)
  | .sequence expressions => factsOfAll expressions
  | .member object _ false => object.facts
  | .member object property true => object.facts.seq property.facts
  | .array elements => factsOfAll elements
  | .breakLoop | .continueLoop | .literal _ | .lambda .. | .typeTag .. => .idle

/-- What the evaluation of nodes from left to right may do. -/
def factsOfAll : List Node → Facts
  | [] => .idle
  | n :: rest => n.facts.seq (factsOfAll rest)

/-- What the evaluation of a part that may be missing may do. -/
def factsOfOption : Option Node → Facts
  | none => .idle
  | some n => n.facts

/-- What a declaration of one name may do. An initialiser is put off unless it is that
    of an array. -/
def Declarator.facts : Declarator → Facts
  | ⟨id, none, none, _⟩ => .declaring id.declaredNames
  | ⟨id, some initial, none, _⟩ => initial.facts.delay.seq (.declaring id.declaredNames)
  | ⟨id, initial, some size, _⟩ =>
    size.facts.seq ((factsOfOption initial).seq (.declaring id.declaredNames))

/-- What declarations from left to right may do. -/
def factsOfDeclarators : List Declarator → Facts
  | [] => .idle
  | d :: rest => d.facts.seq (factsOfDeclarators rest)

end

/-- Whether a program is orderly. -/
def Program.orderly (p : Program) : Bool := (factsOfAll p.body).ok

/-! ## Comparison -/

namespace Facts

/-- Whatever the one may add to a state the other one may add as well. -/
structure Adds (f g : Facts) : Prop where
  declares : f.declares ⊆ g.declares
  delayed : f.delayed ⊆ g.delayed
  functions : f.functions ⊆ g.functions

/-- Whatever the one allows the other one does as well. -/
structure Within (f g : Facts) : Prop extends f.Adds g where
  mentions : f.mentions ⊆ g.mentions
  ok : g.ok = true → f.ok = true

variable {f g : Facts}

theorem seq_ok : (f.seq g).ok = true ↔
    f.ok = true ∧ g.ok = true ∧ (∀ x ∈ f.delayed.flatten, x ∉ g.declares) ∧ ∀ x ∈ f.functions, x ∉ g.functions := by
  simp only [seq, Bool.and_eq_true, apart_iff, and_assoc]

theorem again_ok : f.again.ok = true ↔
    f.ok = true ∧ (∀ x ∈ f.delayed.flatten, x ∉ f.declares) ∧ f.functions = [] := by
  simp only [again, Bool.and_eq_true, apart_iff, and_assoc, List.isEmpty_iff]

theorem delay_ok : f.delay.ok = true ↔
    f.ok = true ∧ f.declares = [] ∧ f.delayed = [] ∧ f.functions = [] := by
  simp only [delay, Bool.and_eq_true, List.isEmpty_iff, and_assoc]

theorem declaringFunction_ok {names : List String} :
    (declaringFunction names f).ok = true ↔ f.ok = true ∧ f.functions = [] := by
  simp only [declaringFunction, Bool.and_eq_true, List.isEmpty_iff]

@[simp] theorem idle_seq (f : Facts) : idle.seq f = f := by
  simp [seq, idle, apart]

@[simp] theorem seq_idle (f : Facts) : f.seq idle = f := by
  have free (xs : List String) : apart xs [] = true := apart_iff.mpr fun _ _ => List.not_mem_nil
  simp [seq, idle, free]

theorem idle_within (f : Facts) : idle.Within f :=
  ⟨⟨List.nil_subset _, List.nil_subset _, List.nil_subset _⟩, List.nil_subset _, fun _ => rfl⟩

theorem within_either_left (f g : Facts) : f.Within (f.either g) :=
  ⟨⟨List.subset_append_left _ _, List.subset_append_left _ _, List.subset_append_left _ _⟩, List.subset_append_left _ _,
    fun ok => (Bool.and_eq_true _ _ ▸ ok : _ ∧ _).1⟩

theorem within_either_right (f g : Facts) : g.Within (f.either g) :=
  ⟨⟨List.subset_append_right _ _, List.subset_append_right _ _, List.subset_append_right _ _⟩, List.subset_append_right _ _,
    fun ok => (Bool.and_eq_true _ _ ▸ ok : _ ∧ _).2⟩

theorem within_seq_left (f g : Facts) : f.Within (f.seq g) :=
  ⟨⟨List.subset_append_left _ _, List.subset_append_left _ _, List.subset_append_left _ _⟩, List.subset_append_left _ _,
    fun ok => (seq_ok.mp ok).1⟩

theorem seq_assoc_within (f g h : Facts) : ((f.seq g).seq h).Within (f.seq (g.seq h)) := by
  have same {α : Type} (xs ys zs : List α) : xs ++ ys ++ zs ⊆ xs ++ (ys ++ zs) := by
    rw [List.append_assoc]
    exact List.Subset.refl _
  refine ⟨⟨same _ _ _, same _ _ _, same _ _ _⟩, same _ _ _, fun ok => ?_⟩
  · obtain ⟨first, rest, separate, distinct⟩ := seq_ok.mp ok
    obtain ⟨second, third, separate', distinct'⟩ := seq_ok.mp rest
    refine seq_ok.mpr ⟨seq_ok.mpr ⟨first, second, fun x put now => separate x put (List.mem_append_left _ now),
      fun x put now => distinct x put (List.mem_append_left _ now)⟩, third, fun x put now => ?_, fun x put now => ?_⟩
    · rw [seq, List.flatten_append] at put
      rcases List.mem_append.mp put with old | new
      · exact separate x old (List.mem_append_right _ now)
      · exact separate' x new now
    · rcases List.mem_append.mp put with old | new
      · exact distinct x old (List.mem_append_right _ now)
      · exact distinct' x new now

/-- Once more is covered by any number of times. -/
theorem seq_again_within (f : Facts) : (f.seq f.again).Within f.again := by
  have twice {α : Type} (xs : List α) : xs ++ xs ⊆ xs := List.append_subset.mpr ⟨List.Subset.refl _, List.Subset.refl _⟩
  refine ⟨⟨twice _, twice _, twice _⟩, twice _, fun ok => ?_⟩
  obtain ⟨fine, separate, none⟩ := again_ok.mp ok
  refine seq_ok.mpr ⟨fine, ok, separate, fun x member => ?_⟩
  rw [none] at member
  cases member

/-- What is put off adds nothing when it is computed. -/
theorem adds_idle_of_delay (ok : f.delay.ok = true) : f.Adds idle := by
  obtain ⟨-, declares, delayed, functions⟩ := delay_ok.mp ok
  exact ⟨by rw [declares]; exact List.nil_subset _, by rw [delayed]; exact List.nil_subset _,
    by rw [functions]; exact List.nil_subset _⟩

/-- A frame of its own takes along all that is declared in it. -/
theorem inside_adds_idle (functions : f.functions = []) : f.inside.Adds idle :=
  ⟨List.nil_subset _, List.nil_subset _, by rw [show f.inside.functions = [] from functions]; exact List.nil_subset _⟩

end Facts
end MiniC
