import MiniC.Eval.Program

/-!
# Evaluations in lockstep

Two evaluations of one node that differ in their observers, their limits or their
fuel go through the same constructs. A relation between evaluations that holds of
the primitive actions and passes through sequencing, frames and calls passes through
every construct whose parts it holds of (`Congruence`). If it also passes through the
events of a node and through the computation of thunks (`Lockstep`), it holds between
the two visits of every node (`visit`), and between two runs of one program (`program`).
-/

namespace MiniC

/-- States of which an evaluation reads the same. -/
structure State.Alike (s t : State) : Prop where
  elements (r : ArrayRef) : s.memory.elements r = t.memory.elements r
  lookup (name : String) (span : Option Span) : s.lookup name span = t.lookup name span
  global? (name : String) : s.global? name = t.global? name

namespace State.Alike
variable {s t : State}

theorem refl (s : State) : s.Alike s := ⟨fun _ => rfl, fun _ _ => rfl, fun _ => rfl⟩

theorem length (h : s.Alike t) (r : ArrayRef) : s.memory.length r = t.memory.length r := by
  unfold Memory.length
  rw [h.elements]

theorem element (h : s.Alike t) (r : ArrayRef) (i : Nat) : s.memory.element r i = t.memory.element r i := by
  unfold Memory.element
  rw [h.elements]

end State.Alike

/-- Whether a form is evaluated from the values of its parts alone. -/
def Form.isOperation : Form → Bool
  | .block _ | .branch .. | .whileLoop .. | .doLoop .. | .forLoop .. | .call .. => false
  | _ => true

/-- Whether a form may store an element of an array. -/
def Form.stores : Form → Bool
  | .assign .. | .update .. => true
  | _ => false

/-- What a call does once it has its frame and its record. -/
def Visitor.callBody {σ : Type} (inner : Visitor σ) (c : Closure) (kind : Kind) (arguments : List Value)
    (span : Option Span) : Eval σ Value := do
  Eval.bindParams span (c.params.zip arguments)
  let v ← inner.force (← Eval.bodyValue (← inner.node c.body))
  Eval.ofExcept (v.castResult kind span)

namespace Eval
variable {σ τ : Type}

/-- What a program does between its two events. -/
def inside (ctx : Context σ) (inner : Visitor σ) (p : Program) : Eval σ Value := do
  programValue inner (p.entryCall? ctx.settings) (← inner.statements .void p.body)

/-- A program is run between its two events as a node is. -/
theorem program_eq (ctx : Context σ) (inner : Visitor σ) (p : Program) : program ctx inner p = (do
    enter ctx p.summary
    let v ← inside ctx inner p
    exit ctx p.summary
    pure v) := by
  unfold program inside
  simp only [bind_assoc]

/-- A relation that passes through every construct of the language, from its parts. `A` is
    the relation between evaluations that begin with an event if they do anything, as the
    computation of a thunk and the rounds of a loop do. Frames may be made for the reasons
    that `tags` tells, to which blocks and loops belong. Unless `elements` is true, it need
    not hold where an element of an array is stored. -/
structure Congruence (ctx : Context σ) (ctx' : Context τ) (R A : {α : Type} → Eval σ α → Eval τ α → Prop)
    (tags : FrameTag → Prop := fun _ => True) (elements : Prop := True) : Prop where
  strategy : ctx.settings.strategy = ctx'.settings.strategy
  pure {α : Type} (a : α) : R (pure a) (pure a)
  bind {α β : Type} {x : Eval σ α} {y : Eval τ α} {f : α → Eval σ β} {g : α → Eval τ β} :
    R x y → (∀ a, R (f a) (g a)) → R (x >>= f) (y >>= g)
  fail {α : Type} (e : EvalError) : R (α := α) (fail e) (fail e)
  stray {α : Type} (label : Label) (c : Completion) : R (α := α) (stray label c) (stray label c)
  read {α : Type} {f : State → Eval σ α} {g : State → Eval τ α} :
    (∀ s t, s.Alike t → R (f s) (g t)) → R (state >>= f) (state >>= g)
  sameValues (v w : Value) : R (sameValues v w) (sameValues v w)
  newArray (elements : Array Value) : R (allocate (·.newArray elements)) (allocate (·.newArray elements))
  newClosure (name : Option String) (params : List Param) (body : Node) :
    R (allocate (·.newClosure name params body)) (allocate (·.newClosure name params body))
  delay (n : Node) : R (delay n) (delay n)
  setElement (r : ArrayRef) (i : Nat) (v : Value) : elements →
    R (modify fun s => { s with memory := s.memory.setElement r i v })
      (modify fun s => { s with memory := s.memory.setElement r i v })
  write (text : String) : R (modify (·.write text)) (modify (·.write text))
  declare (name : String) (kind : Kind) (v : Value) (span : Option Span) :
    R (declare name kind v span) (declare name kind v span)
  declareGlobal (name : String) (kind : Kind) (v : Value) (span : Option Span) :
    R (declareGlobal name kind v span) (declareGlobal name kind v span)
  redefine (name : String) (kind : Kind) (v : Value) :
    R (modify (·.bind .global name ⟨kind, v⟩)) (modify (·.bind .global name ⟨kind, v⟩))
  assign (name : String) (v : Value) (span : Option Span) : R (assign name v span) (assign name v span)
  block : tags .block := by trivial
  loop (kind : LoopKind) : tags (.loop kind) := by intros; trivial
  inFrame {α : Type} {x : Eval σ α} {y : Eval τ α} {tag : FrameTag} :
    tags tag → R x y → R (inFrame tag x) (inFrame tag y)
  inCall {α : Type} {x : Eval σ α} {y : Eval τ α} (name : String) (span : Option Span) : R x y →
    R (do checkDepth ctx.settings.maxCallDepth span; inCall name x)
      (do checkDepth ctx'.settings.maxCallDepth span; inCall name y)
  after {α β : Type} {x : Eval σ α} {y : Eval τ α} {f : α → Eval σ β} {g : α → Eval τ β} :
    A x y → (∀ a, R (f a) (g a)) → A (x >>= f) (y >>= g)
  forget {α : Type} {x : Eval σ α} {y : Eval τ α} : A x y → R x y

/-- A congruence that visits pass on. The fuels are related apart, since those of the
    constructs inside a node are smaller. -/
structure Lockstep (ctx : Context σ) (ctx' : Context τ) (fuels : Nat → Nat → Prop)
    (R A : {α : Type} → Eval σ α → Eval τ α → Prop) (tags : FrameTag → Prop := fun _ => True) (elements : Prop := True) :
    Prop extends Congruence ctx ctx' R A tags elements where
  compute {x : Node → Eval σ Value} {y : Node → Eval τ Value} (r : ThunkRef) :
    (∀ n, A (x n) (y n)) → R (compute r x) (compute r y)
  bracket {α : Type} {x : Eval σ α} {y : Eval τ α} (n : NodeSummary) : R x y →
    A (do enter ctx n; let a ← x; exit ctx n; Pure.pure a) (do enter ctx' n; let a ← y; exit ctx' n; Pure.pure a)
  quit {α : Type} : A (α := α) (throw .outOfFuel) (throw .outOfFuel)
  fuels_zero {k : Nat} : fuels 0 k → k = 0 ∨ ∀ {α : Type} (y : Eval τ α), A (throw .outOfFuel) y
  fuels_succ {n k : Nat} : fuels (n + 1) k → ∃ j, k = j + 1 ∧ fuels n j

namespace Congruence
variable {ctx : Context σ} {ctx' : Context τ}
variable {R A : {α : Type} → Eval σ α → Eval τ α → Prop} {tags : FrameTag → Prop} {elements : Prop}

/-- Visitors whose visits are related, and so is what they do with their fuel: the rounds of
    a loop and the computation of a value. -/
structure Visitors (R A : {α : Type} → Eval σ α → Eval τ α → Prop)
    (inner : Visitor σ) (inner' : Visitor τ) (tags : FrameTag → Prop := fun _ => True) : Prop where
  visitIn (n : Node) {tag : FrameTag} : tags tag → A (inner.visit n tag) (inner'.visit n tag)
  rounds {x : Eval σ (Option Completion)} {y : Eval τ (Option Completion)} :
    A x y → R (rounds x inner.fuel) (rounds y inner'.fuel)
  force (v : Value) : R (inner.force v) (inner'.force v)

/-- Visitors that evaluate expressions and compute values in related ways. -/
structure Operands (R A : {α : Type} → Eval σ α → Eval τ α → Prop) (inner : Visitor σ) (inner' : Visitor τ) : Prop where
  begun (n : Node) : A (inner.expression n) (inner'.expression n)
  force (v : Value) : R (inner.force v) (inner'.force v)

theorem Visitors.visit {inner : Visitor σ} {inner' : Visitor τ} (V : Visitors R A inner inner') (n : Node)
    (tag : FrameTag) : A (inner.visit n tag) (inner'.visit n tag) := V.visitIn n trivial

variable (L : Congruence ctx ctx' R A tags elements)
include L

/-! ## Sequencing -/

theorem map {α β : Type} (f : α → β) {x : Eval σ α} {y : Eval τ α} (h : R x y) : R (f <$> x) (f <$> y) := by
  rw [map_eq_pure_bind, map_eq_pure_bind]
  exact L.bind h fun a => L.pure (f a)

theorem ofExcept {α : Type} (x : Except EvalError α) : R (ofExcept x) (ofExcept x) := by
  cases x with
  | ok a => exact L.pure a
  | error e => exact L.fail e

theorem mapM {α β : Type} {f : α → Eval σ β} {g : α → Eval τ β} (h : ∀ a, R (f a) (g a)) :
    ∀ items : List α, R (items.mapM f) (items.mapM g)
  | [] => L.pure []
  | a :: rest => by
    rw [List.mapM_cons, List.mapM_cons]
    exact L.bind (h a) fun b => L.bind (mapM h rest) fun bs => L.pure (b :: bs)

theorem optionMapM {α β : Type} {f : α → Eval σ β} {g : α → Eval τ β} (h : ∀ a, R (f a) (g a)) :
    ∀ item : Option α, R (item.mapM f) (item.mapM g)
  | none => L.pure none
  | some a => L.map some (h a)

/-! ## Parts and thunks -/

/-- An expression has the value with which its visit ends normally. -/
theorem valueOf {n : Node} {x : Eval σ Completion} {y : Eval τ Completion} (h : A x y) :
    A (do match ← x with
        | .normal v => Pure.pure v
        | other => Eval.stray n.label other)
      (do match ← y with
        | .normal v => Pure.pure v
        | other => Eval.stray n.label other) := by
  refine L.after h fun c => ?_
  cases c with
  | normal v => exact L.pure v
  | _ => exact L.stray n.label _

variable {inner : Visitor σ} {inner' : Visitor τ}

/-- Visitors evaluate expressions by visits. -/
theorem operands (V : Visitors R A inner inner' tags) : Operands R A inner inner' where
  begun n := L.valueOf (V.visitIn n L.block)
  force := V.force

section operands
variable (O : Operands R A inner inner')
include O

theorem expression (n : Node) : R (inner.expression n) (inner'.expression n) := L.forget (O.begun n)

theorem begunActual (n : Node) : A (inner.actual n) (inner'.actual n) := L.after (O.begun n) O.force

theorem actual (n : Node) : R (inner.actual n) (inner'.actual n) := L.forget (L.begunActual O n)

theorem holds (n : Node) : R (inner.holds n) (inner'.holds n) :=
  L.bind (L.actual O n) fun v => L.pure v.truthy

theorem actuals (nodes : List Node) : R (inner.actuals nodes) (inner'.actuals nodes) :=
  L.mapM (L.actual O) nodes

/-! ## Operators, places and assignments -/

omit O in
theorem applyBinary (op : BinaryOp) (v w : Value) (span : Option Span) :
    R (applyBinary op v w span) (applyBinary op v w span) := by
  unfold Eval.applyBinary
  split
  · exact L.ofExcept _
  · split
    · exact L.bind (L.sameValues v w) fun same => L.pure _
    · exact L.bind (L.sameValues v w) fun same => L.pure _
    · exact L.fail _

theorem element (base index : Node) (span : Option Span) :
    R (inner.element base index span) (inner'.element base index span) := by
  refine L.bind (L.actual O base) fun b => L.bind (L.actual O index) fun i => ?_
  split
  · refine L.read fun s t alike => ?_
    dsimp only
    rw [alike.length]
    split
    · exact L.pure _
    · exact L.fail _
  · exact L.fail _
  · exact L.fail _

theorem located (object property : Node) (kind : Option Kind) (span : Option Span) :
    R (do let (array, index) ← inner.element object property span; Pure.pure (Place.element array index kind))
      (do let (array, index) ← inner'.element object property span; Pure.pure (Place.element array index kind)) :=
  L.bind (L.element O object property span) fun _ => L.pure _

theorem place (target : Node) (span : Option Span) : R (inner.place target span) (inner'.place target span) := by
  unfold Visitor.place
  split
  · exact L.read fun s t alike => alike.lookup .. ▸ L.bind (L.ofExcept _) fun b => L.pure _
  · rename_i object property _
    split
    · refine L.read fun s t alike => alike.lookup .. ▸ L.bind (L.ofExcept _) fun b => ?_
      exact located L O object property _ span
    · exact located L O object property none span
  · exact L.fail _

theorem readPlace (place : Place) (span : Option Span) :
    R (inner.readPlace place span) (inner'.readPlace place span) := by
  refine L.read fun s t alike => ?_
  cases place with
  | named name kind =>
    dsimp only
    exact alike.lookup .. ▸ L.bind (L.ofExcept _) fun b => O.force b.value
  | element array index kind =>
    dsimp only
    exact alike.element array index ▸ O.force _

omit O in
theorem writePlace (place : Place) (v : Value) (span : Option Span) (may : elements := by trivial) :
    R (writePlace place v span) (writePlace place v span) := by
  refine L.bind (L.ofExcept _) fun w => ?_
  cases place with
  | named name kind => exact L.bind (L.assign name w span) fun _ => L.pure w
  | element array index kind => exact L.bind (L.setElement array index w may) fun _ => L.pure w

theorem assignment (op : AssignOp) (left right : Node) (span : Option Span) (may : elements := by trivial) :
    R (inner.assign op left right span) (inner'.assign op left right span) := by
  refine L.bind (L.place O left span) fun place => ?_
  refine L.bind (L.optionMapM (fun op => L.bind (L.readPlace O place span) fun old => L.pure (op, old)) _)
    fun old => ?_
  refine L.bind (L.actual O right) fun v => L.bind (L.ofExcept _) fun w => ?_
  cases old with
  | none => exact L.writePlace place w span may
  | some old => exact L.bind (L.applyBinary old.1 old.2 w span) fun u => L.writePlace place u span may

theorem step (op : UpdateOp) (argument : Node) (before : Bool) (span : Option Span) (may : elements := by trivial) :
    R (inner.step op argument before span) (inner'.step op argument before span) := by
  refine L.bind (L.place O argument span) fun place => L.bind (L.readPlace O place span) fun old => ?_
  split
  · exact L.fail _
  · exact L.bind (L.writePlace place _ span may) fun new => L.pure _

/-! ## Built-in functions and parameters -/

omit O in
theorem bindParams (span : Option Span) :
    ∀ items : List (Param × Value), R (bindParams span items) (bindParams span items)
  | [] => L.pure ()
  | (p, _) :: rest =>
    L.bind (L.ofExcept _) fun w => L.bind (L.declare p.name p.kind w span) fun _ => bindParams span rest

omit O in
theorem bodyValue (c : Completion) : R (bodyValue c) (bodyValue c) := by
  cases c with
  | normal v => exact L.pure v
  | jump j span => exact L.fail _
  | returned v => exact L.pure v

omit O in
theorem callBuiltin (f : Builtin) (arguments : List Value) (span : Option Span) :
    R (callBuiltin f arguments span) (callBuiltin f arguments span) :=
  L.bind (L.ofExcept _) fun (_, text) => L.bind (L.write text) fun _ => L.pure _

/-! ## Declarations -/

theorem arrayLength (size : Node) (span : Option Span) :
    R (inner.arrayLength size span) (inner'.arrayLength size span) := by
  refine L.bind (L.actual O size) fun v => ?_
  split
  · split
    · split
      · exact L.fail _
      · exact L.pure _
    · exact L.fail _
  · exact L.fail _

theorem initialElements (element : Kind) (length : Nat) (initial : Node) (span : Option Span) :
    R (inner.initialElements element length initial span) (inner'.initialElements element length initial span) := by
  refine L.bind (L.actual O initial) fun _ => ?_
  split
  · refine L.read fun s t alike => ?_
    rw [alike.elements]
    have fitted := fun values : List Value => L.mapM (fun v => L.ofExcept (v.cast element span)) values
    dsimp only
    split
    · exact L.bind (L.fail _) fun _ => fitted _
    · exact fitted _
  · exact L.fail _

theorem declaredArray (element : Kind) (size : Node) (initial : Option Node) (span : Option Span) :
    R (inner.declaredArray element size initial span) (inner'.declaredArray element size initial span) := by
  refine L.bind (L.arrayLength O size _) fun length => ?_
  have filled := fun given : List Value =>
    L.map Value.array (L.newArray (given.toArray ++ Array.replicate (length - given.length) element.zero))
  cases initial with
  | none => exact filled []
  | some initial => exact L.bind (L.initialElements O element length initial _) filled

theorem initialValue (kind : Kind) (initial : Option Node) (span : Option Span) :
    R (inner.initialValue ctx.settings.strategy kind initial span)
      (inner'.initialValue ctx'.settings.strategy kind initial span) := by
  rw [← L.strategy]
  cases initial with
  | none => exact L.pure _
  | some initial =>
    cases ctx.settings.strategy with
    | strict => exact L.bind (L.actual O initial) fun v => L.ofExcept _
    | «lazy» => exact L.delay _

theorem declared (size initial : Option Node) (name : String) (kind : Kind) (span : Option Span) :
    R (match size with
      | some size => do
        let v ← inner.declaredArray kind size initial span
        Eval.declare name kind.pointerTo v span
      | none => do
        let v ← inner.initialValue ctx.settings.strategy kind initial span
        Eval.declare name kind v span)
      (match size with
      | some size => do
        let v ← inner'.declaredArray kind size initial span
        Eval.declare name kind.pointerTo v span
      | none => do
        let v ← inner'.initialValue ctx'.settings.strategy kind initial span
        Eval.declare name kind v span) := by
  cases size with
  | none => exact L.bind (L.initialValue O kind initial _) fun v => L.declare name kind v _
  | some size => exact L.bind (L.declaredArray O kind size initial _) fun v => L.declare name _ v _

theorem declarator (d : Declarator) (span : Option Span) :
    R (inner.declarator ctx.settings.strategy d span) (inner'.declarator ctx'.settings.strategy d span) := by
  refine L.bind (L.ofExcept _) fun (name, kind) => ?_
  dsimp only
  split
  · exact L.bind (L.fail _) fun _ => declared L O d.size d.initial name kind _
  · exact declared L O d.size d.initial name kind _

theorem declarators (span : Option Span) : ∀ items : List Declarator,
    R (inner.declarators ctx.settings.strategy span items) (inner'.declarators ctx'.settings.strategy span items)
  | [] => L.pure ()
  | d :: rest => L.bind (L.declarator O d span) fun _ => declarators span rest

omit O in
theorem closure (name : Option String) (params : List Node) (body : Node) :
    R (Eval.newClosure name params body) (Eval.newClosure name params body) :=
  L.bind (L.ofExcept _) fun params => L.map Value.closure (L.newClosure name params body)

omit O in
theorem declareFunction (id : Node) (params : List Node) (body : Node) (span : Option Span) :
    R (declareFunction id params body span) (declareFunction id params body span) := by
  refine L.bind (L.ofExcept _) fun (name, kind) => L.bind (L.closure (some name) params body) fun v =>
    L.read fun s t alike => ?_
  rw [alike.global?]
  split
  · exact L.redefine name kind v
  · exact L.declareGlobal name kind v span

/-! ## Tests -/

theorem begunTest (test : Node) : A (inner.loopTest test) (inner'.loopTest test) :=
  L.after (L.after (L.begunActual O test) fun v => L.pure v.truthy) fun _ => L.pure _

theorem loopTest (test : Node) : R (inner.loopTest test) (inner'.loopTest test) := L.forget (L.begunTest O test)

/-! ## Operations -/

theorem logical (op : LogicalOp) (left right : Node) :
    R (inner.logical op left right) (inner'.logical op left right) := by
  refine L.bind (L.holds O left) fun _ => ?_
  split
  · exact L.pure _
  · exact L.pure _
  · exact L.bind (L.holds O right) fun b => L.pure (Value.bool b)

theorem sequence (last : Value) : ∀ items : List Node, R (inner.sequence last items) (inner'.sequence last items)
  | [] => O.force last
  | n :: rest => L.bind (L.expression O n) fun v => sequence v rest

/-- A form that is evaluated from the values of its parts alone. -/
theorem byOperation (n : Node) (tag : FrameTag) (operation : n.form.isOperation = true)
    (may : n.form.stores = true → elements := by intros; trivial) :
    R (byForm ctx.settings inner n tag) (byForm ctx'.settings inner' n tag) := by
  have result {x : Eval σ Value} {y : Eval τ Value} (h : R x y) :
      R (do Pure.pure (Completion.normal (← x))) (do Pure.pure (Completion.normal (← y))) :=
    L.bind h fun v => L.pure (Completion.normal v)
  have silently {x : Eval σ Unit} {y : Eval τ Unit} (h : R x y) :
      R (do x; Pure.pure (Completion.normal .void)) (do y; Pure.pure (Completion.normal .void)) :=
    L.bind h fun _ => L.pure (Completion.normal .void)
  unfold Eval.byForm
  split <;> rename_i form <;> try (rw [form] at operation; cases operation)
  · exact result (L.expression O _)
  · exact silently (L.declarators O _ _)
  · exact silently (L.declareFunction _ _ _ _)
  · exact L.pure _
  · exact L.pure _
  · exact L.bind (L.actual O _) fun v => L.pure (Completion.returned v)
  · exact L.pure _
  · exact L.pure _
  · exact L.pure _
  · exact L.read fun s t alike => alike.lookup .. ▸ L.bind (L.ofExcept _) fun b => L.pure (Completion.normal b.value)
  · exact L.bind (L.actual O _) fun v => L.bind (L.actual O _) fun w => result (L.applyBinary _ v w _)
  · exact result (L.logical O _ _ _)
  · exact L.bind (L.actual O _) fun v => result (L.ofExcept _)
  · exact result (L.assignment O _ _ _ _ (may (by rw [form]; rfl)))
  · exact result (L.step O _ _ _ _ (may (by rw [form]; rfl)))
  · exact L.bind (L.holds O _) fun b => result (L.actual O _)
  · exact result (L.sequence O _ _)
  · exact L.bind (L.actual O _) fun v => L.bind (L.ofExcept _) fun kind => result (L.ofExcept _)
  · exact L.bind (L.element O _ _ _) fun a => L.read fun s t alike => alike.element .. ▸ result (O.force _)
  · exact L.bind (L.actuals O _) fun values => L.bind (L.newArray _) fun r => L.pure _
  · exact result (L.closure none _ _)
  · exact L.fail _

theorem programValue (entry : Option Node) (c : Completion) :
    R (programValue inner entry c) (programValue inner' entry c) := by
  cases c with
  | returned v => exact L.pure v
  | jump j span => exact L.fail _
  | normal last =>
    refine L.bind (O.force last) fun v => ?_
    cases entry with
    | none => exact L.pure v
    | some call => exact L.actual O call

end operands

section visits
variable (V : Visitors R A inner inner' tags)
include V

theorem node (n : Node) : R (inner.node n) (inner'.node n) := L.forget (V.visitIn n L.block)

/-! ## Calls -/

theorem callBody (c : Closure) (kind : Kind) (arguments : List Value) (span : Option Span) :
    R (inner.callBody c kind arguments span) (inner'.callBody c kind arguments span) :=
  L.bind (L.bindParams span (c.params.zip arguments)) fun _ => L.bind (L.node V c.body) fun done =>
    L.bind (L.bodyValue done) fun v => L.bind (V.force v) fun w => L.ofExcept (w.castResult kind span)

theorem callClosure (name : String) (c : Closure) (kind : Kind) (arguments : List Value) (span : Option Span) :
    R (inner.callClosure ctx.settings.maxCallDepth name c kind arguments span)
      (inner'.callClosure ctx'.settings.maxCallDepth name c kind arguments span) := by
  have called := L.inCall name span (L.callBody V c kind arguments span)
  unfold Visitor.callClosure
  split
  · exact L.bind (L.fail _) fun _ => called
  · exact called

theorem call (callee : Node) (arguments : List Node) (span : Option Span) :
    R (inner.call ctx.settings.maxCallDepth callee arguments span)
      (inner'.call ctx'.settings.maxCallDepth callee arguments span) := by
  unfold Visitor.call
  split
  · refine L.read fun s t alike => ?_
    rw [alike.global?]
    split
    · exact L.fail _
    · exact L.bind (L.actuals (L.operands V) arguments) fun values => L.callClosure V _ _ _ values span
    · exact L.bind (L.actuals (L.operands V) arguments) fun values => L.callBuiltin _ values span
    · exact L.fail _
  · exact L.fail _

/-! ## Loops -/

theorem begunBody (body : Node) (kind : LoopKind) : A (inner.loopBody body kind) (inner'.loopBody body kind) :=
  L.after (V.visitIn body (L.loop kind)) fun c => L.pure c.endsLoop?

theorem loopBody (body : Node) (kind : LoopKind) : R (inner.loopBody body kind) (inner'.loopBody body kind) :=
  L.forget (L.begunBody V body kind)

theorem whileLoop (test body : Node) : R (inner.whileLoop test body) (inner'.whileLoop test body) := by
  refine V.rounds (L.after (L.begunTest (L.operands V) test) fun c => ?_)
  cases c with
  | none => exact L.loopBody V body .whileLoop
  | some c => exact L.pure (some c)

theorem doLoop (body test : Node) : R (inner.doLoop body test) (inner'.doLoop body test) := by
  refine V.rounds (L.after (L.begunBody V body .doLoop) fun c => ?_)
  cases c with
  | none => exact L.loopTest (L.operands V) test
  | some c => exact L.pure (some c)

/-- A round of a `for` loop after its test begins with its body. -/
theorem forRest (update : Option Node) (body : Node) :
    A (inner.forRound none update body) (inner'.forRound none update body) := by
  show A (inner.loopBody body .forLoop >>= _) (inner'.loopBody body .forLoop >>= _)
  refine L.after (L.begunBody V body .forLoop) fun c => ?_
  cases c with
  | some c => exact L.pure (some c)
  | none =>
    cases update with
    | none => exact L.pure none
    | some update => exact L.bind (L.map _ (L.expression (L.operands V) update)) fun _ => L.pure none

theorem forRound (test update : Option Node) (body : Node) :
    A (inner.forRound test update body) (inner'.forRound test update body) := by
  cases test with
  | none => exact L.forRest V update body
  | some test =>
    refine L.after (L.begunTest (L.operands V) test) fun c => ?_
    cases c with
    | some c => exact L.pure (some c)
    | none => exact L.forget (L.forRest V update body)

theorem forLoop (start test update : Option Node) (body : Node) :
    R (inner.forLoop start test update body) (inner'.forLoop start test update body) := by
  have repeated := V.rounds (L.forRound V test update body)
  refine L.inFrame (L.loop .forLoop) ?_
  cases start with
  | none => exact repeated
  | some start => exact L.bind (L.map _ (L.node V start)) fun _ => repeated

/-! ## Visits and programs -/

theorem statements (last : Value) : ∀ body : List Node, R (inner.statements last body) (inner'.statements last body)
  | [] => L.pure (Completion.normal last)
  | n :: rest => by
    refine L.bind (L.node V n) fun c => ?_
    cases c with
    | normal v => exact statements v rest
    | jump j span => exact L.pure _
    | returned v => exact L.pure _

theorem blockIn (body : List Node) {tag : FrameTag} (allowed : tags tag) :
    R (inner.block body tag) (inner'.block body tag) := by
  refine L.inFrame allowed (L.bind (L.statements V .void body) fun c => ?_)
  cases c with
  | normal v => exact L.bind (V.force v) fun w => L.pure _
  | jump j span => exact L.pure _
  | returned v => exact L.pure _

theorem branch (test consequent : Node) (alternate : Option Node) :
    R (inner.branch test consequent alternate) (inner'.branch test consequent alternate) := by
  refine L.bind (L.holds (L.operands V) test) fun b => ?_
  cases b with
  | true => exact L.node V consequent
  | false =>
    cases alternate with
    | none => exact L.pure _
    | some alternate => exact L.node V alternate

theorem byForm (n : Node) {tag : FrameTag} (allowed : tags tag) (may : n.form.stores = true → elements := by intros; trivial) :
    R (byForm ctx.settings inner n tag) (byForm ctx'.settings inner' n tag) := by
  by_cases operation : n.form.isOperation = true
  · exact L.byOperation (L.operands V) n tag operation may
  · unfold Eval.byForm
    split <;> rename_i form <;> try (exact absurd (by rw [form]; rfl) operation)
    · exact L.blockIn V _ allowed
    · exact L.branch V _ _ _
    · exact L.whileLoop V _ _
    · exact L.doLoop V _ _
    · exact L.forLoop V _ _ _ _
    · exact L.bind (L.call V _ _ _) fun v => L.pure (Completion.normal v)

/-- What programs do between their two events is related, if they have the same entry point. -/
theorem inside (p : Program) (entry : p.entryCall? ctx.settings = p.entryCall? ctx'.settings) :
    R (inside ctx inner p) (inside ctx' inner' p) := by
  unfold Eval.inside
  rw [← entry]
  exact L.bind (L.statements V .void p.body) (L.programValue (L.operands V) _)

end visits

end Congruence

namespace Lockstep
variable {ctx : Context σ} {ctx' : Context τ} {fuels : Nat → Nat → Prop}
variable {R A : {α : Type} → Eval σ α → Eval τ α → Prop} {tags : FrameTag → Prop} {elements : Prop}
variable (L : Lockstep ctx ctx' fuels R A tags elements)
include L

/-- Without fuel nothing is done, so two evaluations that start with no fuel on
    one side are related if the other one does nothing without fuel either. -/
theorem exhausted {α : Type} {k : Nat} (h : fuels 0 k) {y : Nat → Eval τ α} (zero : y 0 = throw .outOfFuel) :
    A (throw .outOfFuel) (y k) := by
  rcases L.fuels_zero h with rfl | all
  · rw [zero]
    exact L.quit
  · exact all (y k)

theorem rounds {x : Eval σ (Option Completion)} {y : Eval τ (Option Completion)} (h : R x y) :
    ∀ {n k : Nat}, fuels n k → R (rounds x n) (rounds y k)
  | 0, k, hk => L.forget (L.exhausted hk (y := Eval.rounds y) rfl)
  | n + 1, k, hk => by
    obtain ⟨j, rfl, hj⟩ := L.fuels_succ hk
    refine L.bind h fun c => ?_
    cases c with
    | none => exact rounds h hj
    | some c => exact L.pure c

theorem forceWithin {inner : Visitor σ} {inner' : Visitor τ}
    (visits : ∀ (n : Node) {tag : FrameTag}, tags tag → A (inner.visit n tag) (inner'.visit n tag)) :
    ∀ {n k : Nat} (v : Value), fuels n k → R (inner.forceWithin n v) (inner'.forceWithin k v)
  | 0, k, v, hk => L.forget (L.exhausted hk (y := (inner'.forceWithin · v)) rfl)
  | n + 1, k, v, hk => by
    obtain ⟨j, rfl, hj⟩ := L.fuels_succ hk
    cases v with
    | lazy r => exact L.compute r fun e => L.after (L.valueOf (visits e L.block)) fun w => forceWithin visits w hj
    | _ => exact L.pure _

/-- Visitors with related fuels are related if their visits are. -/
theorem visitorsOf {inner : Visitor σ} {inner' : Visitor τ}
    (visits : ∀ (n : Node) {tag : FrameTag}, tags tag → A (inner.visit n tag) (inner'.visit n tag))
    (fuel : fuels inner.fuel inner'.fuel) : Congruence.Visitors R A inner inner' tags :=
  ⟨visits, fun h => L.rounds (L.forget h) fuel, fun v => L.forceWithin visits v fuel⟩

/-- What the computation of a thunk evaluates is related. -/
theorem computed {inner : Visitor σ} {inner' : Visitor τ} (V : Congruence.Visitors R A inner inner' tags) {n k : Nat}
    (hk : fuels n k) (e : Node) :
    A (do inner.forceWithin n (← inner.expression e)) (do inner'.forceWithin k (← inner'.expression e)) :=
  L.after ((L.operands V).begun e) fun v => L.forceWithin (fun n _ allowed => V.visitIn n allowed) v hk

/-- The visits of a node are related. -/
theorem visit {fuel fuel' : Nat} (hk : fuels fuel fuel') (n : Node) {tag : FrameTag} (allowed : tags tag)
    (may : elements := by trivial) : A (visit ctx fuel n tag) (visit ctx' fuel' n tag) := by
  induction fuel generalizing fuel' n tag with
  | zero => exact L.exhausted hk (y := (Eval.visit ctx' · n tag)) rfl
  | succ fuel ih =>
    obtain ⟨j, rfl, hj⟩ := L.fuels_succ hk
    have V : Congruence.Visitors R A ⟨Eval.visit ctx fuel, fuel⟩ ⟨Eval.visit ctx' j, j⟩ tags :=
      L.visitorsOf (fun n _ allowed => ih hj n allowed) hj
    exact L.bracket n.summary (L.byForm V n allowed fun _ => may)

/-- The visitors of an evaluation are related. -/
theorem visitors {fuel fuel' : Nat} (hk : fuels fuel fuel') (may : elements := by trivial) :
    Congruence.Visitors R A (visitor ctx fuel) (visitor ctx' fuel') tags :=
  L.visitorsOf (fun n _ allowed => L.visit hk n allowed may) hk

/-- What programs do between their two events is related, if they have the same entry point. -/
theorem inside {fuel fuel' : Nat} (hk : fuels fuel fuel') (p : Program)
    (entry : p.entryCall? ctx.settings = p.entryCall? ctx'.settings) (may : elements := by trivial) :
    R (inside ctx (visitor ctx fuel) p) (inside ctx' (visitor ctx' fuel') p) :=
  L.toCongruence.inside (L.visitors hk may) p entry

/-- The runs of a program are related, if it has the same entry point on both sides. -/
theorem program {fuel fuel' : Nat} (hk : fuels fuel fuel') (p : Program)
    (entry : p.entryCall? ctx.settings = p.entryCall? ctx'.settings) (may : elements := by trivial) :
    A (program ctx (visitor ctx fuel) p) (program ctx' (visitor ctx' fuel') p) := by
  rw [program_eq, program_eq]
  exact L.bracket p.summary (L.inside hk p entry may)

end Lockstep
end MiniC.Eval
