import MiniC.Proofs.Runs
import MiniC.Proofs.Trail

/-!
# Accesses within bounds

An index is compared with the length of its array once, when an element is found. Anything may
be evaluated before the element is read or written: calls, assignments through other names,
declarations, thunks. No evaluation changes the length of an array (`State.lengths_kept`), so
that an index inside its array stays inside (`Place.Within.after`). The visitor that checks the
index once more at each access, and ends with some fault if it is outside, is therefore the
visitor itself (`checkedVisitor_eq`).
-/

namespace MiniC
variable {σ α β : Type}

/-! ## Lengths -/

/-- Arrays stay in the memory, and they keep their lengths. -/
def State.KeepsLengths (s s' : State) : Prop := s.memory.KeepsLengths s'.memory

namespace State.KeepsLengths
variable {s s' s'' : State}

theorem still (memory : s'.memory = s.memory) : s.KeepsLengths s' :=
  Memory.KeepsLengths.still (by rw [memory])

theorem refl (s : State) : s.KeepsLengths s := still rfl

theorem trans (h : s.KeepsLengths s') (h' : s'.KeepsLengths s'') : s.KeepsLengths s'' := Memory.KeepsLengths.trans h h'

theorem respected : Trail.Respected KeepsLengths where
  trans := trans
  calm change := change.lengths
  count _ _ := still rfl
  entering _ _ := still rfl
  leaving _ _ := still rfl
  push _ _ := still rfl
  calling _ _ := still rfl
  computing _ _ := Memory.KeepsLengths.still rfl
  dropTop s := still s.dropTop_memory
  popCall _ := still rfl
  setPhase _ _ _ := Memory.KeepsLengths.still rfl

end State.KeepsLengths

/-- While tasks are run one after the other, whatever they are and however they end, arrays keep
    their lengths from any moment to any later one. -/
theorem State.lengths_kept (s : State) (tasks : List Task) : (s.history tasks).Pairwise KeepsLengths :=
  (history_along (I := fun _ => True) KeepsLengths.refl KeepsLengths.trans trivial fun t _ s _ =>
    ⟨trivial, t.log s, (t.trails s).1, t.along s KeepsLengths.respected (.still s.beginEvaluation_memory)
      fun s e => .still (s.recover_memory e)⟩).2

namespace Eval

/-- An evaluation keeps the lengths of arrays, however it ends. -/
def Steady (x : Eval σ α) : Prop := ∀ m : Machine σ, m.state.KeepsLengths (runOn x m).2.state

theorem Trails.steady {ctx : Context σ} {begins : Bool} {x : Eval σ α} (h : Trails ctx begins x) : Steady x := by
  intro m
  have run := h m
  generalize runOn x m = outcome at run ⊢
  obtain ⟨⟨i⟩ | ⟨a⟩, m'⟩ := outcome
  · obtain ⟨log, stopped, -, -⟩ := run
    exact stopped.lasts.lengths
  · obtain ⟨log, trail, -, -⟩ := run
    exact trail.lasts.lengths

section visitor
variable (ctx : Context σ) (fuel : Nat)

theorem trails_operands : Congruence.Operands (fun x _ => Trails ctx false x) (fun x _ => Trails ctx true x)
    (visitor ctx fuel) (visitor ctx fuel) :=
  (Trails.lockstep ctx).operands ((Trails.lockstep ctx).visitors (rfl : fuel = fuel))

theorem trails_readPlace (place : Place) (span : Option Span) : Trails ctx false ((visitor ctx fuel).readPlace place span) :=
  (Trails.lockstep ctx).readPlace (trails_operands ctx fuel) place span

theorem trails_actual (n : Node) : Trails ctx false ((visitor ctx fuel).actual n) :=
  (Trails.lockstep ctx).actual (trails_operands ctx fuel) n

theorem trails_declaredElements (element : Kind) (size : Node) (initial : Option Node) (span : Option Span) :
    Trails ctx false ((visitor ctx fuel).declaredElements element size initial span) :=
  (Trails.lockstep ctx).declaredElements (trails_operands ctx fuel) element size initial span

end visitor

end Eval

/-! ## Places -/

/-- The index of an element is inside its array. -/
def Place.Within (m : Memory) : Place → Prop
  | named _ _ => True
  | element array index _ => index < m.length array

instance (m : Memory) : DecidablePred (Place.Within m)
  | .named _ _ => .isTrue trivial
  | .element array index _ => inferInstanceAs (Decidable (index < m.length array))

namespace Place
variable {place : Place} {m m' : Memory}

/-- Only an array that exists has a place for an element. -/
theorem Within.mono (h : place.Within m) (keeps : m.KeepsLengths m') : place.Within m' := by
  cases place with
  | named name kind => trivial
  | element array index kind =>
    have inside : array.index < m.arrays.size := by
      by_contra outside
      have empty : m.length array = 0 := by simp [Memory.length, Memory.elements, Array.getD_eq_getD_getElem?, outside]
      rw [Within, empty] at h
      exact absurd h (Nat.not_lt_zero index)
    rw [Within, keeps.length array inside]
    exact h

/-- An index that is inside its array stays inside, whatever is evaluated. -/
theorem Within.after {m : Machine σ} {x : Eval σ α} (h : place.Within m.state.memory) (steady : Eval.Steady x) :
    place.Within (Eval.runOn x m).2.state.memory := h.mono (steady m)

end Place

namespace Visitor
variable {inner : Visitor σ} {m m' : Machine σ} {span : Option Span}

/-- An element is found inside its array. -/
theorem element_within {base index : Node} {r : ArrayRef} {i : Nat}
    (found : Eval.runOn (inner.element base index span) m = (.ok (r, i), m')) : i < m'.state.memory.length r := by
  rw [Eval.runOn_eq_ok, Visitor.element] at found
  obtain ⟨b, m₁, -, found⟩ := Eval.bind_eq_ok.mp found
  obtain ⟨v, m₂, -, found⟩ := Eval.bind_eq_ok.mp found
  cases b with
  | array q =>
    cases index : v.toIndex? with
    | none =>
      rw [index] at found
      exact absurd found Eval.fail_ne_ok
    | some k =>
      rw [index] at found
      obtain ⟨s, m₃, read, found⟩ := Eval.bind_eq_ok.mp found
      obtain ⟨rfl, rfl⟩ := Eval.state_eq_ok.mp read
      by_cases inside : k < m₂.state.memory.length q
      · rw [if_pos inside] at found
        obtain ⟨same, rfl⟩ := Eval.pure_eq_ok.mp found
        cases same
        exact inside
      · rw [if_neg inside] at found
        exact absurd found Eval.fail_ne_ok
  | _ => exact absurd found Eval.fail_ne_ok

/-- A place is found inside its array, if it is an element. -/
theorem place_within {target : Node} {place : Place} (found : Eval.runOn (inner.place target span) m = (.ok place, m')) :
    place.Within m'.state.memory := by
  rw [Eval.runOn_eq_ok, Visitor.place] at found
  cases form : target.form with
  | identifier name =>
    rw [form] at found
    obtain ⟨s, m₁, -, found⟩ := Eval.bind_eq_ok.mp found
    obtain ⟨b, m₂, -, found⟩ := Eval.bind_eq_ok.mp found
    obtain ⟨rfl, -⟩ := Eval.pure_eq_ok.mp found
    trivial
  | member object property computed =>
    rw [form] at found
    cases computed with
    | false => exact absurd found Eval.fail_ne_ok
    | true =>
      have located {m : Machine σ} {kind : Option Kind}
          (found : (do let found ← inner.element object property span; pure (Place.element found.1 found.2 kind)) m =
            EStateM.Result.ok place m') : place.Within m'.state.memory := by
        obtain ⟨⟨r, i⟩, m₁, element, found⟩ := Eval.bind_eq_ok.mp found
        obtain ⟨rfl, rfl⟩ := Eval.pure_eq_ok.mp found
        exact element_within (Eval.runOn_of_eq_ok element)
      dsimp only at found
      cases named : object.form with
      | identifier name =>
        rw [named] at found
        obtain ⟨s, m₁, -, found⟩ := Eval.bind_eq_ok.mp found
        obtain ⟨b, m₂, -, found⟩ := Eval.bind_eq_ok.mp found
        exact located found
      | _ =>
        rw [named] at found
        exact located found
  | _ =>
    rw [form] at found
    exact absurd found Eval.fail_ne_ok

end Visitor

/-! ## Declared arrays -/

namespace Visitor
variable {inner : Visitor σ} {m m' : Machine σ} {span : Option Span}

theorem arrayLength_eq_ok {size : Node} {length : Nat} (run : inner.arrayLength size span m = .ok length m') :
    ∃ x, inner.actual size m = .ok (.number x) m' ∧ Number.toCount? x = some length := by
  obtain ⟨v, m₁, sized, run⟩ := Eval.bind_eq_ok.mp run
  cases v with
  | number x =>
    dsimp only at run
    cases counted : Number.toCount? x with
    | none =>
      rw [counted] at run
      exact absurd run Eval.fail_ne_ok
    | some count =>
      rw [counted] at run
      dsimp only at run
      by_cases large : maxArrayLength < count
      · rw [if_pos large] at run
        exact absurd run Eval.fail_ne_ok
      · rw [if_neg large] at run
        obtain ⟨rfl, rfl⟩ := Eval.pure_eq_ok.mp run
        exact ⟨x, sized, counted⟩
  | _ => exact absurd run Eval.fail_ne_ok

/-- A declared array has as many elements as its size says. -/
theorem declaredElements_size {element : Kind} {size : Node} {initial : Option Node} {vs : Array Value}
    (run : inner.declaredElements element size initial span m = .ok vs m') :
    ∃ x m₁, inner.actual size m = .ok (.number x) m₁ ∧ Number.toCount? x = some vs.size := by
  obtain ⟨length, m₁, sized, run⟩ := Eval.bind_eq_ok.mp run
  obtain ⟨x, evaluated, counted⟩ := arrayLength_eq_ok sized
  refine ⟨x, m₁, evaluated, counted.trans (congrArg some ?_)⟩
  cases initial with
  | none =>
    obtain ⟨rfl, -⟩ := Eval.pure_eq_ok.mp run
    simp
  | some initial =>
    obtain ⟨given, m₂, initialised, run⟩ := Eval.bind_eq_ok.mp run
    obtain ⟨few, -⟩ := initialElements_eq_ok initialised
    obtain ⟨rfl, -⟩ := Eval.pure_eq_ok.mp run
    simp
    omega

/-- A declarator with a size binds its name to a new array of its elements. -/
theorem declarator_array {strategy : Strategy} {d : Declarator} {size : Node} (sized : d.size = some size)
    (run : Eval.runOn (inner.declarator strategy d span) m = (.ok (), m')) :
    ∃ name kind vs m₂, d.id.declared = .ok (name, kind) ∧
      inner.declaredElements kind size d.initial (d.loc <|> span) m = .ok vs m₂ ∧
      m'.state = State.bind { m₂.state with memory := (m₂.state.memory.newArray vs).2 } m₂.state.top name
        ⟨kind.pointerTo, .array (m₂.state.memory.newArray vs).1⟩ := by
  rw [Eval.runOn_eq_ok, declarator] at run
  obtain ⟨⟨name, kind⟩, m₁, declared, run⟩ := Eval.bind_eq_ok.mp run
  obtain ⟨named, rfl⟩ := Eval.ofExcept_eq_ok.mp declared
  dsimp only at run
  cases void : kind.isVoid with
  | true =>
    rw [void] at run
    obtain ⟨_, _, failed, -⟩ := Eval.bind_eq_ok.mp run
    exact absurd failed Eval.fail_ne_ok
  | false =>
    rw [void, sized] at run
    obtain ⟨v, m₁, made, run⟩ := Eval.bind_eq_ok.mp run
    rw [declaredArray_eq] at made
    obtain ⟨vs, m₂, elements, made⟩ := Eval.bind_eq_ok.mp made
    obtain ⟨r, m₃, allocated, made⟩ := Eval.bind_eq_ok.mp made
    obtain ⟨rfl, rfl⟩ := Eval.pure_eq_ok.mp made
    cases allocated
    obtain ⟨-, rfl⟩ := Eval.attempt_eq_ok.mp run
    exact ⟨name, kind, vs, m₂, named, elements, rfl⟩

end Visitor

/-! ## Checked accesses -/

namespace Eval

/-- Ends with a fault if an element is not inside its array. -/
def checkPlace (fault : Interrupt) (place : Place) : Eval σ Unit := do
  if place.Within (← state).memory then pure () else throw fault

/-- Stores at a place that is checked first. -/
def checkedWrite (fault : Interrupt) (place : Place) (v : Value) (span : Option Span) : Eval σ Value := do
  checkPlace fault place
  writePlace place v span

end Eval

namespace Visitor
variable (inner : Visitor σ)

/-- Reads a place that is checked first. -/
def checkedRead (fault : Interrupt) (place : Place) (span : Option Span) : Eval σ Value := do
  Eval.checkPlace fault place
  inner.readPlace place span

/-- An assignment that checks its place before it is read and before it is written. -/
def checkedAssign (fault : Interrupt) (op : AssignOp) (left right : Node) (span : Option Span) : Eval σ Value := do
  let place ← inner.place left span
  let old ← op.binary?.mapM fun op => return (op, ← inner.checkedRead fault place span)
  let v ← Eval.ofExcept ((← inner.actual right).castTo? place.kind? (right.loc <|> span))
  let v ← match old with
    | some (op, old) => Eval.applyBinary op old v span
    | none => pure v
  Eval.checkedWrite fault place v span

/-- A step that checks its place before it is read and before it is written. -/
def checkedStep (fault : Interrupt) (op : UpdateOp) (argument : Node) (before : Bool) (span : Option Span) :
    Eval σ Value := do
  let place ← inner.place argument span
  let old ← inner.checkedRead fault place span
  match old.toNumber? with
  | none => Eval.fail (.type (.notSteppable old.type) span)
  | some x =>
    let new ← Eval.checkedWrite fault place (.number (match op with | .increment => x + 1.0 | .decrement => x - 1.0)) span
    pure (if before then new else old)

/-- An element that is checked before it is read. -/
def checkedElement (fault : Interrupt) (object property : Node) (span : Option Span) : Eval σ Value := do
  let (array, index) ← inner.element object property span
  Eval.checkPlace fault (.element array index none)
  inner.force ((← Eval.state).memory.element array index)

end Visitor

namespace Eval

/-- Evaluates a node by its form, with every access to an element checked. -/
def checkedForm (fault : Interrupt) (settings : Settings) (inner : Visitor σ) (n : Node) (tag : FrameTag) : Eval σ Completion :=
  match n.form with
  | .assign op left right => return .normal (← inner.checkedAssign fault op left right n.loc)
  | .update op argument before => return .normal (← inner.checkedStep fault op argument before n.loc)
  | .member object property true => return .normal (← inner.checkedElement fault object property n.loc)
  | _ => byForm settings inner n tag

/-- Visits a node with so much fuel, with every access to an element checked. -/
def checkedVisit (fault : Interrupt) (ctx : Context σ) : Nat → Node → FrameTag → Eval σ Completion
  | 0, _, _ => throw .outOfFuel
  | fuel + 1, n, tag => do
    enter ctx n.summary
    let c ← checkedForm fault ctx.settings ⟨checkedVisit fault ctx fuel, fuel⟩ n tag
    exit ctx n.summary
    pure c

/-- The visitor with so much fuel, with every access to an element checked. -/
def checkedVisitor (fault : Interrupt) (ctx : Context σ) (fuel : Nat) : Visitor σ := ⟨checkedVisit fault ctx fuel, fuel⟩

/-! ### Checks that succeed -/

/-- Two evaluations are the same where a place is inside its array. -/
def SameAt (place : Place) (x y : Eval σ α) : Prop := ∀ m, place.Within m.state.memory → runOn x m = runOn y m

theorem ext_of_runOn {x y : Eval σ α} (same : ∀ m, runOn x m = runOn y m) : x = y := by
  funext m
  have here := same m
  unfold runOn at here
  cases first : x m with
  | ok a m' =>
    cases second : y m with
    | ok b m'' =>
      rw [first, second] at here
      cases here
      rfl
    | error i m'' =>
      rw [first, second] at here
      cases here
  | error i m' =>
    cases second : y m with
    | ok b m'' =>
      rw [first, second] at here
      cases here
    | error j m'' =>
      rw [first, second] at here
      cases here
      rfl

namespace SameAt
variable {place : Place}

theorem refl (x : Eval σ α) : SameAt place x x := fun _ _ => rfl

/-- The place stays inside its array while the first part is evaluated. -/
theorem bind {x y : Eval σ α} {f g : α → Eval σ β} (first : SameAt place x y) (steady : Steady y)
    (second : ∀ a, SameAt place (f a) (g a)) : SameAt place (x >>= f) (y >>= g) := by
  intro m within
  have after := within.after steady
  rw [runOn_bind, runOn_bind, first m within]
  generalize runOn y m = outcome at after ⊢
  obtain ⟨⟨i⟩ | ⟨a⟩, m'⟩ := outcome
  · rfl
  · exact second a m' after

/-- What has been found inside an array passes the check. -/
theorem checked (place : Place) (fault : Interrupt) (x : Eval σ α) : SameAt place (do checkPlace fault place; x) x := by
  intro m within
  have passes : runOn (checkPlace fault place) m = (.ok (), m) := by
    rw [checkPlace, runOn_state_bind, if_pos within]
    rfl
  rw [runOn_bind, passes]

/-- What follows the search for a place is the same if it is the same wherever that is inside
    its array. -/
theorem located {inner : Visitor σ} {target : Node} {span : Option Span} {f g : Place → Eval σ α}
    (same : ∀ place, SameAt place (f place) (g place)) :
    (inner.place target span >>= f) = (inner.place target span >>= g) := by
  refine ext_of_runOn fun m => ?_
  rw [runOn_bind, runOn_bind]
  rcases found : runOn (inner.place target span) m with ⟨⟨i⟩ | ⟨place⟩, m'⟩
  · rfl
  · exact same place m' (Visitor.place_within found)

end SameAt

section visitor
variable (fault : Interrupt) (ctx : Context σ) (fuel : Nat)

theorem checkedAssign_eq (op : AssignOp) (left right : Node) (span : Option Span) :
    (visitor ctx fuel).checkedAssign fault op left right span = (visitor ctx fuel).assign op left right span := by
  have L := Trails.lockstep ctx
  refine SameAt.located fun place => ?_
  have old : SameAt place (op.binary?.mapM fun op => return (op, ← (visitor ctx fuel).checkedRead fault place span))
        (op.binary?.mapM fun op => return (op, ← (visitor ctx fuel).readPlace place span)) ∧
      Steady (op.binary?.mapM fun op => return (op, ← (visitor ctx fuel).readPlace place span)) := by
    have reads := trails_readPlace ctx fuel place span
    cases op.binary? with
    | none => exact ⟨.refl _, (Trails.pure none : Trails ctx false _).steady⟩
    | some op =>
      have read := reads.bind fun old => .pure (op, old)
      rw [Option.mapM_some, Option.mapM_some, map_eq_pure_bind, map_eq_pure_bind]
      refine ⟨.bind ?_ read.steady fun pair => .refl _, (read.bind fun pair => .pure (some pair)).steady⟩
      exact .bind (.checked place fault _) reads.steady fun old => .refl _
  refine .bind old.1 old.2 fun old => ?_
  refine .bind (.refl _) (trails_actual ctx fuel right).steady fun v => .bind (.refl _) (L.ofExcept _).steady fun w => ?_
  cases old with
  | none => exact .checked place fault _
  | some old => exact .bind (.refl _) (L.applyBinary old.1 old.2 w span).steady fun u => .checked place fault _

theorem checkedStep_eq (op : UpdateOp) (argument : Node) (before : Bool) (span : Option Span) :
    (visitor ctx fuel).checkedStep fault op argument before span = (visitor ctx fuel).step op argument before span := by
  refine SameAt.located fun place => ?_
  refine .bind (.checked place fault _) (trails_readPlace ctx fuel place span).steady fun old => ?_
  cases old.toNumber? with
  | none => exact .refl _
  | some x =>
    exact .bind (.checked place fault _) ((Trails.lockstep ctx).writePlace place _ span).steady fun new => .refl _

theorem checkedElement_eq (object property : Node) (span : Option Span) :
    (visitor ctx fuel).checkedElement fault object property span = (do
      let (array, index) ← (visitor ctx fuel).element object property span
      (visitor ctx fuel).force ((← state).memory.element array index)) := by
  refine ext_of_runOn fun m => ?_
  unfold Visitor.checkedElement
  rw [runOn_bind, runOn_bind]
  rcases found : runOn ((visitor ctx fuel).element object property span) m with ⟨⟨i⟩ | ⟨array, index⟩, m'⟩
  · rfl
  · exact SameAt.checked (.element array index none) fault _ m' (Visitor.element_within found)

theorem checkedForm_eq (n : Node) (tag : FrameTag) :
    checkedForm fault ctx.settings (visitor ctx fuel) n tag = byForm ctx.settings (visitor ctx fuel) n tag := by
  unfold checkedForm
  split <;> rename_i form
  · simp only [byForm, form, checkedAssign_eq]
  · simp only [byForm, form, checkedStep_eq]
  · simp only [byForm, form, checkedElement_eq, bind_assoc]
  · rfl

/-- No check ever fails. -/
theorem checkedVisit_eq : ∀ fuel, checkedVisit fault ctx fuel = visit ctx fuel
  | 0 => rfl
  | fuel + 1 => by
    funext n tag
    have inner : (⟨checkedVisit fault ctx fuel, fuel⟩ : Visitor σ) = visitor ctx fuel := by rw [checkedVisit_eq fuel, visitor]
    simp only [checkedVisit, inner, checkedForm_eq]
    rfl

theorem checkedVisitor_eq : checkedVisitor fault ctx fuel = visitor ctx fuel := by
  rw [checkedVisitor, checkedVisit_eq, visitor]

end visitor

/-- Arrays keep their lengths: from any moment of a session to any later one, and while a value
    is computed, however that ends. A declarator with a size binds its name to a new array of as
    many elements as its size says. A place that has been found lies inside its array, and it
    still does so when any expression has been evaluated. Wherever an element is read or written
    its index is inside the array: a visitor that checks this each time, and ends with a fault
    if it is not so, does the same as the visitor that does not check, whatever the fault. -/
theorem accesses_within (ctx : Context σ) (fuel : Nat) :
    (∀ (s : State) (tasks : List Task), (s.history tasks).Pairwise State.KeepsLengths) ∧
    (∀ (v : Value) (m : Machine σ), m.state.KeepsLengths (forceOn ctx fuel v m).2.state) ∧
    (∀ (d : Declarator) (size : Node) (span : Option Span) (m m' : Machine σ), d.size = some size →
      runOn ((visitor ctx fuel).declarator ctx.settings.strategy d span) m = (.ok (), m') →
      ∃ name kind x length m₁ r, d.id.declared = .ok (name, kind) ∧
        runOn ((visitor ctx fuel).actual size) m = (.ok (.number x), m₁) ∧ Number.toCount? x = some length ∧
        m.state.memory.arrays.size ≤ r.index ∧ m'.state.memory.arrays.size = r.index + 1 ∧
        m'.state.memory.length r = length ∧ ∃ s : State, m'.state = s.bind s.top name ⟨kind.pointerTo, .array r⟩) ∧
    (∀ (target : Node) (span : Option Span) (m m₁ : Machine σ) (place : Place),
      runOn ((visitor ctx fuel).place target span) m = (.ok place, m₁) →
      place.Within m₁.state.memory ∧ ∀ n : Node, place.Within (runOn ((visitor ctx fuel).actual n) m₁).2.state.memory) ∧
    ∀ fault, checkedVisitor fault ctx fuel = visitor ctx fuel := by
  refine ⟨State.lengths_kept, fun v => ((trails_operands ctx fuel).force v).steady, fun d size span m m' sized run => ?_,
    fun target span m m₁ place found => ?_, fun fault => checkedVisitor_eq fault ctx fuel⟩
  · obtain ⟨name, kind, vs, m₂, named, elements, bound⟩ := Visitor.declarator_array sized run
    obtain ⟨x, m₁, evaluated, counted⟩ := Visitor.declaredElements_size elements
    have before : m.state.KeepsLengths m₂.state := by
      have steady := (trails_declaredElements ctx fuel kind size d.initial (d.loc <|> span)).steady m
      rwa [runOn_of_eq_ok elements] at steady
    refine ⟨name, kind, x, vs.size, m₁, ⟨m₂.state.memory.arrays.size⟩, named, runOn_of_eq_ok evaluated, counted,
      before.arrays, ?_, ?_, _, bound⟩
    · rw [bound, State.bind_memory]
      simp [Memory.newArray]
    · rw [bound, State.bind_memory, Memory.length, Memory.elements_newArray, if_pos rfl]
  · have within := Visitor.place_within found
    exact ⟨within, fun n => within.after (trails_actual ctx fuel n).steady⟩

/-- The last element of an array is found, and its array is assigned to before it is written. -/
theorem accesses_within_assigned :
    let t : Task := ⟨{}, .silent, (), 20, ⟨[Tree.arrayVar "int" "a" (Tree.num 2.0) none], none⟩⟩
    let target := Tree.index (Tree.ident "a") (Tree.num 1.0)
    ∃ array index kind m₁,
      runOn ((visitor ⟨{}, .silent⟩ 20).place target none) ⟨State.seeded.after [t], ()⟩ =
        (.ok (.element array index kind), m₁) ∧
      index < m₁.state.memory.length array ∧
      index < (runOn ((visitor ⟨{}, .silent⟩ 20).actual (Tree.assign .plain target (Tree.num 3.0))) m₁).2.state.memory.length
        array := by
  intro t target
  have elements : (match runOn ((visitor ⟨{}, .silent⟩ 20).place target none) ⟨State.seeded.after [t], ()⟩ with
      | (.ok (.element ..), _) => true
      | _ => false) = true := by decide +kernel
  rcases found : runOn ((visitor ⟨{}, .silent⟩ 20).place target none) ⟨State.seeded.after [t], ()⟩ with ⟨⟨i⟩ | ⟨place⟩, m₁⟩
  · rw [found] at elements
    cases elements
  · rw [found] at elements
    cases place with
    | named name kind => cases elements
    | element array index kind =>
      obtain ⟨within, after⟩ := (accesses_within ⟨{}, .silent⟩ 20).2.2.2.1 target none _ m₁ _ found
      exact ⟨array, index, kind, m₁, rfl, within, after _⟩

end Eval
end MiniC
