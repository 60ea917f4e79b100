import MiniC.Proofs.Constructs

/-!
# A ledger of stores

A booked evaluation does what the evaluation does, and keeps a ledger: of every array that a
declarator makes, with the kind of its elements, and of every element that an assignment or an
update stores, with the target and the state in which the place of the target was looked for.
Where something stays true of the ledger at each of these, and stays true as long as no array
changes, it is true all along (`Eval.Booking.program`).
-/

namespace MiniC
variable {σ : Type}

/-! ## Notes -/

/-- An element that has been stored: the target of the assignment or the update, the state in
    which the place of the target was looked for, what that place was, and the value. -/
structure StoredElement where
  target : Node
  start : State
  array : ArrayRef
  index : Nat
  value : Value

/-- What is noted of arrays. -/
inductive Note where
  /-- A declarator has made an array of elements of a kind. -/
  | made (array : ArrayRef) (kind : Kind)
  | stored (element : StoredElement)

/-- What has been noted, the last note first, and the states that have been shown, each with
    what had been noted by then. -/
structure Ledger where
  notes : List Note := []
  points : List (State × List Note) := []

namespace Ledger

/-- Adds a note. -/
def add (l : Ledger) (n : Note) : Ledger := { l with notes := n :: l.notes }

/-- Adds a state that is shown. -/
def suspend (l : Ledger) (s : State) : Ledger := { l with points := (s, l.notes) :: l.points }

end Ledger

/-- The observer that decides as another one does and keeps the ledger. -/
def Observer.booking (o : Observer σ) : Observer (σ × Ledger) :=
  ⟨fun w e s => let (next, action) := o.onStep w.1 e s; ((next, w.2.suspend s), action)⟩

/-- The context of booked evaluations. -/
def Context.booking (ctx : Context σ) : Context (σ × Ledger) := ⟨ctx.settings, ctx.observer.booking⟩

/-! ## Booked evaluations -/

namespace Eval

/-- Adds a note to the ledger. -/
def note (n : Note) : Eval (σ × Ledger) Unit := fun m => .ok () { m with watch := (m.watch.1, m.watch.2.add n) }

/-- Stores at the place of a target, and notes what is stored if it is an element. -/
def bookedWrite (target : Node) (start : State) (place : Place) (v : Value) (span : Option Span) : Eval (σ × Ledger) Value := do
  let v ← writePlace place v span
  match place with
  | .named .. => pure ()
  | .element array index _ => note (.stored ⟨target, start, array, index, v⟩)
  return v

end Eval

namespace Visitor
variable (inner : Visitor (σ × Ledger))

/-- An assignment that notes what it stores. -/
def bookedAssign (op : AssignOp) (left right : Node) (span : Option Span) : Eval (σ × Ledger) Value := do
  let start ← Eval.state
  let place ← inner.place left span
  let old ← op.binary?.mapM fun op => return (op, ← inner.readPlace place span)
  let v ← Eval.ofExcept ((← inner.actual right).castTo? place.kind? (right.loc <|> span))
  let v ← match old with
    | some (op, old) => Eval.applyBinary op old v span
    | none => pure v
  Eval.bookedWrite left start place v span

/-- A step that notes what it stores. -/
def bookedStep (op : UpdateOp) (argument : Node) (before : Bool) (span : Option Span) : Eval (σ × Ledger) Value := do
  let start ← Eval.state
  let place ← inner.place argument span
  let old ← inner.readPlace place span
  match old.toNumber? with
  | none => Eval.fail (.type (.notSteppable old.type) span)
  | some x =>
    let new ← Eval.bookedWrite argument start place
      (.number (match op with | .increment => x + 1.0 | .decrement => x - 1.0)) span
    pure (if before then new else old)

/-- Makes the array of a declaration, and notes it. -/
def bookedArray (element : Kind) (size : Node) (initial : Option Node) (span : Option Span) : Eval (σ × Ledger) Value := do
  let v ← inner.declaredArray element size initial span
  match v with
  | .array r => Eval.note (.made r element)
  | _ => pure ()
  return v

/-- Declares one variable or array, and notes the array. -/
def bookedDeclarator (strategy : Strategy) (d : Declarator) (span : Option Span) : Eval (σ × Ledger) Unit := do
  let span := d.loc <|> span
  let (name, kind) ← Eval.ofExcept d.id.declared
  if kind.isVoid then
    Eval.fail (.type (.voidVariable name) span)
  match d.size with
  | some size =>
    let v ← inner.bookedArray kind size d.initial span
    Eval.declare name kind.pointerTo v span
  | none =>
    let v ← inner.initialValue strategy kind d.initial span
    Eval.declare name kind v span

/-- Declares variables and arrays from left to right, and notes the arrays. -/
def bookedDeclarators (strategy : Strategy) (span : Option Span) : List Declarator → Eval (σ × Ledger) Unit
  | [] => pure ()
  | d :: rest => do
    inner.bookedDeclarator strategy d span
    bookedDeclarators strategy span rest

end Visitor

namespace Eval

/-- Evaluates a node by its form, and notes the arrays that it makes and what it stores. -/
def bookedForm (settings : Settings) (inner : Visitor (σ × Ledger)) (n : Node) (tag : FrameTag) : Eval (σ × Ledger) Completion :=
  match n.form with
  | .declaration declarators => do
    inner.bookedDeclarators settings.strategy n.loc declarators
    pure (.normal .void)
  | .assign op left right => return .normal (← inner.bookedAssign op left right n.loc)
  | .update op argument before => return .normal (← inner.bookedStep op argument before n.loc)
  | _ => byForm settings inner n tag

/-- Visits a node with so much fuel, and keeps the ledger. -/
def bookedVisit (ctx : Context σ) : Nat → Node → FrameTag → Eval (σ × Ledger) Completion
  | 0, _, _ => throw .outOfFuel
  | fuel + 1, n, tag => do
    enter ctx.booking n.summary
    let c ← bookedForm ctx.settings ⟨bookedVisit ctx fuel, fuel⟩ n tag
    exit ctx.booking n.summary
    pure c

/-- The visitor with so much fuel that keeps the ledger. -/
def bookedVisitor (ctx : Context σ) (fuel : Nat) : Visitor (σ × Ledger) := ⟨bookedVisit ctx fuel, fuel⟩

end Eval

/-- The states that are shown while a task is run from a state, in order, each with what has
    been noted by then. -/
def Task.booked (t : Task) (s : State) : List (State × List Note) :=
  let ctx : Context (t.memory × List State) := ⟨t.settings, t.observer.keeping⟩
  let m := (Eval.runOn (Eval.program ctx.booking (Eval.bookedVisitor ctx t.fuel) t.program) ⟨s.beginEvaluation, ((t.watch, []), {})⟩).2
  m.watch.2.points.reverse

/-! ## Targets -/

/-- The name by which a target names the array of which it is an element, if it does. -/
def Node.arrayName? (n : Node) : Option String :=
  match n.form with
  | .member object _ true =>
    match object.form with
    | .identifier name => some name
    | _ => none
  | _ => none

theorem Node.arrayName?_eq_some {n : Node} {name : String} : n.arrayName? = some name ↔
    ∃ object property, n.form = .member object property true ∧ object.form = .identifier name := by
  unfold arrayName?
  constructor
  · intro names
    split at names
    · rename_i object property form
      split at names
      · rename_i name named
        cases names
        exact ⟨object, property, form, named⟩
      · cases names
    · cases names
  · rintro ⟨object, property, form, named⟩
    simp only [form, named]

/-- A place that was looked for in a state has the kind of the elements under the name by which
    the target names the array, if it is an element and the target does so. -/
def Place.Known (start : State) (target : Node) : Place → Prop
  | named .. => True
  | element _ _ kind => ∀ name, target.arrayName? = some name →
    ∃ (b : Binding) (span : Option Span), start.lookup name span = .ok b ∧ kind = some b.kind.pointee

/-- What is stored fits the kind of the elements under the name by which the target names the
    array, if it does. -/
def StoredElement.Fitted (e : StoredElement) : Prop :=
  ∀ name, e.target.arrayName? = some name →
    ∃ (b : Binding) (span : Option Span), e.start.lookup name span = .ok b ∧ e.value.Fits b.kind.pointee

namespace Visitor
variable {inner : Visitor σ} {m m' : Machine σ} {span : Option Span}

/-- A place that is found has the kind that is known of it. -/
theorem place_known {target : Node} {place : Place} (found : Eval.runOn (inner.place target span) m = (.ok place, m')) :
    place.Known m.state target := by
  cases place with
  | named => trivial
  | element r i kind =>
    intro name names
    obtain ⟨object, property, form, named⟩ := Node.arrayName?_eq_some.mp names
    rw [Eval.runOn_eq_ok, Visitor.place, form] at found
    dsimp only at found
    rw [named] at found
    obtain ⟨s, m₁, read, found⟩ := Eval.bind_eq_ok.mp found
    obtain ⟨rfl, rfl⟩ := Eval.state_eq_ok.mp read
    obtain ⟨b, m₂, looked, found⟩ := Eval.bind_eq_ok.mp found
    obtain ⟨bound, rfl⟩ := Eval.ofExcept_eq_ok.mp looked
    obtain ⟨known, m₃, kind, found⟩ := Eval.bind_eq_ok.mp found
    obtain ⟨rfl, -⟩ := Eval.pure_eq_ok.mp kind
    obtain ⟨located, m₄, -, found⟩ := Eval.bind_eq_ok.mp found
    obtain ⟨same, -⟩ := Eval.pure_eq_ok.mp found
    cases same
    exact ⟨b, _, bound, rfl⟩

/-- The elements of an array that is declared fit their kind. -/
theorem declaredElements_fit {element : Kind} (proper : element.isVoid = false) {size : Node} {initial : Option Node}
    {vs : Array Value} (run : inner.declaredElements element size initial span m = .ok vs m') :
    ∀ v ∈ vs, v.Fits element := by
  have filled {given : List Value} (fit : ∀ v ∈ given, v.Fits element) (n : Nat) :
      ∀ v ∈ given.toArray ++ Array.replicate n element.zero, v.Fits element := by
    intro v member
    simp only [Array.mem_append, List.mem_toArray, Array.mem_replicate] at member
    obtain among | ⟨-, rfl⟩ := member
    · exact fit v among
    · exact Kind.fits_zero proper
  obtain ⟨length, m₁, -, run⟩ := Eval.bind_eq_ok.mp run
  cases initial with
  | none =>
    obtain ⟨rfl, -⟩ := Eval.pure_eq_ok.mp run
    exact filled (List.forall_mem_nil _) _
  | some initial =>
    obtain ⟨given, m₂, initialised, run⟩ := Eval.bind_eq_ok.mp run
    obtain ⟨rfl, -⟩ := Eval.pure_eq_ok.mp run
    exact filled (initialElements_eq_ok initialised).2 _

/-- A declarator with a size that ends normally has noted the array to which it binds its name. -/
theorem bookedDeclarator_made {inner : Visitor (σ × Ledger)} {m m' : Machine (σ × Ledger)} {strategy : Strategy}
    {d : Declarator} {size : Node} (sized : d.size = some size)
    (run : Eval.runOn (inner.bookedDeclarator strategy d span) m = (.ok (), m')) :
    ∃ name kind r notes, d.id.declared = .ok (name, kind) ∧ m'.watch.2.notes = .made r kind :: notes ∧
      ∃ s : State, m'.state = s.bind s.top name ⟨kind.pointerTo, .array r⟩ := by
  rw [Eval.runOn_eq_ok, bookedDeclarator] at run
  obtain ⟨⟨name, kind⟩, m₁, declared, run⟩ := Eval.bind_eq_ok.mp run
  obtain ⟨named, rfl⟩ := Eval.ofExcept_eq_ok.mp declared
  dsimp only at run
  cases void : kind.isVoid with
  | true =>
    rw [void] at run
    obtain ⟨_, _, failed, -⟩ := Eval.bind_eq_ok.mp run
    exact absurd failed Eval.fail_ne_ok
  | false =>
    rw [void, sized] at run
    obtain ⟨v, m₁, made, run⟩ := Eval.bind_eq_ok.mp run
    obtain ⟨v', m₂, array, made⟩ := Eval.bind_eq_ok.mp made
    rw [declaredArray_eq] at array
    obtain ⟨vs, m₃, -, array⟩ := Eval.bind_eq_ok.mp array
    obtain ⟨r, m₄, -, array⟩ := Eval.bind_eq_ok.mp array
    obtain ⟨rfl, rfl⟩ := Eval.pure_eq_ok.mp array
    obtain ⟨_, m₅, noted, made⟩ := Eval.bind_eq_ok.mp made
    cases noted
    obtain ⟨rfl, rfl⟩ := Eval.pure_eq_ok.mp made
    obtain ⟨-, rfl⟩ := Eval.attempt_eq_ok.mp run
    exact ⟨name, kind, r, _, named, rfl, _, rfl⟩

end Visitor

/-! ## What stays true of the ledger -/

namespace Eval

/-- What stays true of a ledger: as long as no array changes, and when an array or a store is
    noted. -/
structure Booking (I : σ → Ledger → State → Prop) : Prop extends Undisturbed I where
  made {w : σ} {l : Ledger} {s : State} {elements : Array Value} {kind : Kind} (fit : ∀ v ∈ elements, v.Fits kind) :
    I w l s → I w (l.add (.made (s.memory.newArray elements).1 kind)) { s with memory := (s.memory.newArray elements).2 }
  stored {w : σ} {l : Ledger} {s : State} {e : StoredElement} (fitted : e.Fitted) :
    I w l s → I w (l.add (.stored e)) { s with memory := s.memory.setElement e.array e.index e.value }

variable {α β : Type} {I : σ → Ledger → State → Prop}

/-- The state may be read first. -/
theorem CarriesAt.reading {s : State} {x : Eval σ α} {g : State → Eval (σ × Ledger) α} (h : CarriesAt I s x (g s)) :
    CarriesAt I s x (state >>= g) := by
  intro w seen holds
  rw [runOn_state_bind]
  exact h w seen holds

namespace Booking
variable (B : Booking I)
include B

theorem lockstep {ctx : Context σ} (books : ctx.observer.Carries I ctx.observer.booking) :
    Lockstep ctx ctx.booking (· = ·) (Carries I) (Carries I) (fun _ => True) False :=
  Carries.lockstep B.toUndisturbed books fun no => no.elim

/-- What is stored at a place is noted. -/
theorem write {ctx : Context σ} (books : ctx.observer.Carries I ctx.observer.booking) {target : Node} {start : State}
    {place : Place} (known : place.Known start target) (v : Value) (span : Option Span) :
    Carries I (writePlace place v span) (bookedWrite target start place v span) := by
  cases place with
  | named name kind =>
    have L := B.lockstep books
    have stored : Carries I (writePlace (.named name kind) v span) (writePlace (.named name kind) v span) :=
      L.bind (L.ofExcept _) fun u => L.bind (L.assign name u span) fun _ => L.pure u
    rw [← bind_pure (writePlace (.named name kind) v span)]
    exact L.bind stored fun u => L.pure u
  | element r i kind =>
    intro s w l holds
    unfold bookedWrite
    rw [runOn_bind, runOn_writeElement, runOn_writeElement]
    dsimp only
    cases fitted : v.castTo? kind span with
    | error e => exact ⟨l, rfl, holds⟩
    | ok u =>
      refine ⟨_, rfl, B.stored (e := ⟨target, start, r, i, u⟩) (fun name names => ?_) holds⟩
      obtain ⟨b, span', bound, rfl⟩ := known name names
      exact ⟨b, span', bound, Value.fits_of_cast fitted⟩

/-- An array that a declaration makes is noted. -/
theorem array {ctx : Context σ} (books : ctx.observer.Carries I ctx.observer.booking) {inner : Visitor σ}
    {inner' : Visitor (σ × Ledger)} (O : Congruence.Operands (Carries I) (Carries I) inner inner') {element : Kind}
    (proper : element.isVoid = false) (size : Node) (initial : Option Node) (span : Option Span) :
    Carries I (inner.declaredArray element size initial span) (inner'.bookedArray element size initial span) := by
  have L := B.lockstep books
  unfold Visitor.bookedArray
  rw [Visitor.declaredArray_eq, Visitor.declaredArray_eq, bind_assoc]
  intro s
  refine (L.declaredElements O element size initial span s).bind fun w vs m made => ?_
  have fit := Visitor.declaredElements_fit proper (runOn_eq_ok.mp made)
  exact fun w l holds => ⟨_, rfl, B.made fit holds⟩

section visitor
variable {ctx : Context σ} (books : ctx.observer.Carries I ctx.observer.booking) {inner : Visitor σ}
  {inner' : Visitor (σ × Ledger)} (O : Congruence.Operands (Carries I) (Carries I) inner inner')
include books O

theorem assign (op : AssignOp) (left right : Node) (span : Option Span) :
    Carries I (inner.assign op left right span) (inner'.bookedAssign op left right span) := by
  have L := B.lockstep books
  intro s
  refine .reading ((L.place O left span s).bind fun w place m found => ?_)
  have known := Visitor.place_known found
  refine L.bind (L.optionMapM (fun op => L.bind (L.readPlace O place span) fun old => L.pure (op, old)) _) (fun old => ?_) _
  refine L.bind (L.actual O right) fun v => L.bind (L.ofExcept _) fun u => ?_
  cases old with
  | none => exact B.write books known u span
  | some old => exact L.bind (L.applyBinary old.1 old.2 u span) fun u => B.write books known u span

theorem step (op : UpdateOp) (argument : Node) (before : Bool) (span : Option Span) :
    Carries I (inner.step op argument before span) (inner'.bookedStep op argument before span) := by
  have L := B.lockstep books
  intro s
  refine .reading ((L.place O argument span s).bind fun w place m found => ?_)
  have known := Visitor.place_known found
  refine L.bind (L.readPlace O place span) (fun old => ?_) _
  cases old.toNumber? with
  | none => exact L.fail _
  | some x => exact L.bind (B.write books known _ span) fun new => L.pure _

theorem declarator (d : Declarator) (span : Option Span) :
    Carries I (inner.declarator ctx.settings.strategy d span) (inner'.bookedDeclarator ctx.settings.strategy d span) := by
  have L := B.lockstep books
  refine L.bind (L.ofExcept _) fun (name, kind) => ?_
  dsimp only
  cases void : kind.isVoid with
  | true => exact fun s => (L.fail _ s).bind fun _ _ _ failed => absurd (runOn_eq_ok.mp failed) fail_ne_ok
  | false =>
    cases d.size with
    | none => exact L.bind (L.initialValue O kind d.initial _) fun v => L.declare name kind v _
    | some size => exact L.bind (B.array books O void size d.initial _) fun v => L.declare name _ v _

theorem declarators (span : Option Span) : ∀ items : List Declarator,
    Carries I (inner.declarators ctx.settings.strategy span items)
      (inner'.bookedDeclarators ctx.settings.strategy span items)
  | [] => (B.lockstep books).pure ()
  | d :: rest => (B.lockstep books).bind (B.declarator books O d span) fun _ => declarators span rest

end visitor

/-- A booked visit does what the visit does, and what stays true of the ledger is true all along. -/
theorem visit {ctx : Context σ} (books : ctx.observer.Carries I ctx.observer.booking) :
    ∀ (fuel : Nat) (n : Node) (tag : FrameTag), Carries I (Eval.visit ctx fuel n tag) (bookedVisit ctx fuel n tag)
  | 0, _, _ => .stop _
  | fuel + 1, n, tag => by
    have L := B.lockstep books
    have V : Congruence.Visitors (Carries I) (Carries I) (visitor ctx fuel) (bookedVisitor ctx fuel) :=
      L.visitorsOf (fun n tag _ => visit books fuel n tag) rfl
    refine L.bracket n.summary ?_
    show Carries I (byForm ctx.settings (visitor ctx fuel) n tag) (bookedForm ctx.settings (bookedVisitor ctx fuel) n tag)
    unfold bookedForm
    split <;> rename_i form
    · simp only [byForm, form]
      exact L.bind (B.declarators books (L.operands V) n.loc _) fun _ => L.pure _
    · simp only [byForm, form]
      exact L.bind (B.assign books (L.operands V) _ _ _ n.loc) fun v => L.pure _
    · simp only [byForm, form]
      exact L.bind (B.step books (L.operands V) _ _ _ n.loc) fun v => L.pure _
    · refine L.byForm V n trivial fun stores => ?_
      cases other : n.form <;> rw [other] at stores <;> cases stores <;> simp_all

/-- A booked program does what the program does, and what stays true of the ledger is true all along. -/
theorem program {ctx : Context σ} (books : ctx.observer.Carries I ctx.observer.booking) (fuel : Nat) (p : Program) :
    Carries I (Eval.program ctx (visitor ctx fuel) p) (Eval.program ctx.booking (bookedVisitor ctx fuel) p) := by
  have L := B.lockstep books
  have V : Congruence.Visitors (Carries I) (Carries I) (visitor ctx fuel) (bookedVisitor ctx fuel) :=
    L.visitorsOf (fun n tag _ => B.visit books fuel n tag) rfl
  rw [program_eq, program_eq]
  exact L.bracket p.summary (L.toCongruence.inside V p rfl)

end Booking
end Eval

end MiniC
