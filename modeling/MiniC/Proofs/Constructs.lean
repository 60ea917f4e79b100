import MiniC.Proofs.Tracing

/-!
# Tracing the constructs

Every construct of the language is made of visits of its parts and of the actions that
passages know, so every visit of a node makes a passage (`Eval.Traces.visit`), and so does a
run of a program (`Eval.Traces.program`). What a visit yields may be a thunk, but then one of
a frame of the scope; everything that is kept, passed on or stored is computed before.
-/

namespace MiniC
variable {σ α β : Type}

/-! ## Simple values -/

namespace Value

/-- Void, a number or a truth value. -/
def Simple (v : Value) : Prop := v.type = .void ∨ v.type = .number ∨ v.type = .bool

theorem Simple.settled {law : Form → Bool} {past : Log} {v : Value} (h : v.Simple) : v.Settled law past := by
  refine settled_of_type (plain_of_ne ?_) ?_ ?_
  · rintro t rfl
    simp [Simple, type] at h
  · rcases h with h | h | h <;> simp [h]
  · rcases h with h | h | h <;> simp [h]

theorem simple_void : Simple .void := .inl rfl

theorem simple_number (x : Float) : Simple (.number x) := .inr (.inl rfl)

theorem simple_bool (b : Bool) : Simple (.bool b) := .inr (.inr rfl)

end Value

theorem Kind.simple_zero (k : Kind) : k.zero.Simple := by
  unfold Kind.zero
  split
  · exact Value.simple_void
  · split
    · exact Value.simple_bool _
    · exact Value.simple_number _

theorem BinaryOp.simple_onNumbers {op : BinaryOp} {x y : Float} {span : Option Span} {v : Value}
    (h : op.onNumbers x y span = .ok v) : v.Simple := by
  unfold onNumbers at h
  cases op <;> simp only at h <;>
    first
    | (cases h; first | exact Value.simple_number _ | exact Value.simple_bool _)
    | (split at h <;> cases h; exact Value.simple_number _)

theorem UnaryOp.simple_apply {op : UnaryOp} {v w : Value} {span : Option Span} (h : op.apply v span = .ok w) :
    w.Simple := by
  unfold apply at h
  split at h <;> cases h <;> first | exact Value.simple_number _ | exact Value.simple_bool _

theorem Builtin.settled_apply {law : Form → Bool} {past : Log} {f : Builtin} {arguments : List Value} {span : Option Span}
    {v : Value} {text : String} (h : f.apply arguments span = .ok (v, text)) : v.Settled law past := by
  have ran {values : List Value} {w : Value} {text : String} (h : f.run values = .ok (w, text)) : w.Simple := by
    unfold run at h
    simp only [bind, Except.bind] at h
    split at h
    · cases h
    · cases f <;> simp only at h
      · cases h
        exact Value.simple_void
      · split at h <;> cases h
        exact Value.simple_number _
      · cases h
        exact Value.simple_number _
  unfold apply at h
  simp only [bind, Except.bind] at h
  split at h
  · cases h
  · split at h
    · cases h
    · split at h
      · cases h
      · rename_i result made
        split at h
        · cases h
        · rename_i fitted
          cases h
          exact (ran made).settled.cast fitted

theorem Value.Settled.castResult {law : Form → Bool} {past : Log} {v w : Value} {k : Kind} {span : Option Span}
    (h : v.Settled law past) (fitted : v.castResult k span = .ok w) : w.Settled law past := by
  unfold Value.castResult at fitted
  split at fitted
  · cases fitted
    exact h
  · exact h.cast fitted

/-! ## Completions -/

namespace Completion

/-- A completion whose value can be kept. -/
def Settled (law : Form → Bool) (past : Log) : Completion → Prop
  | normal v | returned v => v.Settled law past
  | jump _ _ => True

/-- What a visit may yield: the value that a node completes with is computed in the scope,
    that of a `return` has been computed. -/
def Allowed (law : Form → Bool) (past : Log) (s : State) : Completion → Prop
  | normal v => s.Yields law past v
  | jump _ _ => True
  | returned v => v.Settled law past

/-- What the evaluation of a node may yield before the node is left. -/
def Made (law : Form → Bool) (s : State) : Completion → Prop
  | normal v => s.Makes law v
  | jump _ _ => True
  | returned v => s.Makes law v ∧ v.Plain

variable {law : Form → Bool} {past : Log} {s : State} {c : Completion}

theorem Settled.allowed (h : c.Settled law past) (s : State) : c.Allowed law past s := by
  cases c with
  | normal v => exact Value.Settled.yields h s
  | jump j span => trivial
  | returned v => exact h

theorem Allowed.made (h : c.Allowed law past s) (proper : s.Proper law past) : c.Made law s := by
  cases c with
  | normal v => exact State.Yields.makes h proper
  | jump j span => trivial
  | returned v => exact ⟨(Value.Settled.yields h s).makes proper, h.plain⟩

/-- When a node is left everything that there is has been shown. -/
theorem Made.leaving (h : c.Made law s) (n : NodeSummary) :
    c.Allowed law (past ++ [(.exit n, s.leaving n)]) (s.leaving n) := by
  have shown {v : Value} (reached : s.memory.Reaches v) : v.Shown (past ++ [(.exit n, s.leaving n)]) :=
    fun r same => ⟨_, List.mem_append_right _ List.mem_cons_self, reached r same⟩
  cases c with
  | normal v => exact ⟨h.held, h.coded, shown h.reached⟩
  | jump j span => trivial
  | returned v => exact h.1.settled h.2 (shown h.1.reached)

/-- What ends a loop can be kept. -/
theorem settled_of_endsLoop {c' : Completion} (allowed : c.Allowed law past s) (ends : c' ∈ c.endsLoop?) :
    c'.Settled law past := by
  cases c with
  | normal v => cases ends
  | jump j span =>
    cases j with
    | breakLoop =>
      cases ends
      exact Value.simple_void.settled
    | continueLoop => cases ends
  | returned v =>
    cases ends
    exact allowed

end Completion

/-! ## Parts -/

/-- A node of permitted code that declares variables in the frame on top only if the flag
    says so. -/
structure Part (law : Form → Bool) (b : Bool) (n : Node) : Prop where
  code : n.all law = true
  within : n.introduces = true → b = true

/-- In a frame of its own a node may declare what it likes. -/
theorem Part.inside {law : Form → Bool} {n : Node} (code : n.all law = true) : Part law true n := ⟨code, fun _ => rfl⟩

/-- What is evaluated in the frame on top when a node is declares no more than the node. -/
theorem Part.of_inner {law : Form → Bool} {n c : Node} (code : n.all law = true) (member : c ∈ n.form.inner) :
    Part law n.introduces c where
  code := (Node.all_iff.mp code).2 c (Form.mem_parts_of_inner member)
  within introduces := by
    rw [n.introduces_eq]
    exact Form.introduces_of_inner member introduces

theorem Part.inner {law : Form → Bool} {b : Bool} {n c : Node} (part : Part law b n) (member : c ∈ n.form.inner) :
    Part law b c :=
  have whole := Part.of_inner part.code member
  ⟨whole.code, fun introduces => part.within (whole.within introduces)⟩

/-- A law that permits what evaluations add to a program: the casts of initialisers that are
    put off, and the call of the entry point. -/
structure Lenient (law : Form → Bool) : Prop where
  cast (object property : Node) : law (.member object property false) = true
  tag (name : String) (pointers : UInt32) : law (.typeTag name pointers) = true
  call (callee : Node) (arguments : List Node) : law (.call callee arguments) = true
  identifier (name : String) : law (.identifier name) = true

namespace Lenient
variable {law : Form → Bool} (lenient : Lenient law)
include lenient

theorem castTo {n : Node} (code : n.all law = true) (kind : Kind) : (n.castTo kind).all law = true := by
  refine Node.all_iff.mpr ⟨lenient.cast _ _, fun c member => ?_⟩
  rcases List.mem_cons.mp member with rfl | member
  · exact code
  · rw [List.mem_singleton.mp member]
    exact Node.all_iff.mpr ⟨lenient.tag _ _, List.forall_mem_nil _⟩

/-- The call of the entry point is permitted. -/
theorem entryCall {p : Program} {settings : Settings} {n : Node} (called : p.entryCall? settings = some n) :
    n.all law = true := by
  obtain ⟨name, -, made⟩ := Option.bind_eq_some_iff.mp called
  split at made
  · cases made
    refine Node.all_iff.mpr ⟨lenient.call _ _, fun c member => ?_⟩
    rw [List.mem_singleton.mp member]
    exact Node.all_iff.mpr ⟨lenient.identifier _, List.forall_mem_nil _⟩
  · cases made

end Lenient

/-- What a cast yields fits its kind. -/
def Node.CastFits (n : Node) (c : Completion) : Prop :=
  ∀ (inner : Node) (k : Kind) (v : Value), n = inner.castTo k → c = .normal v → v.Fits k

/-- What is known of a place until it is assigned to. -/
def Place.Ready (s : State) : Place → Prop
  | .named name kind => ∃ span old, s.lookup name span = .ok old ∧ old.kind = kind
  | .element .. => True

/-- A value is what comes of another one when that is computed, if it is a thunk. -/
structure Value.Computes (law : Form → Bool) (past : Log) (s : State) (v w : Value) : Prop where
  memo (t : ThunkRef) : v = .lazy t → w.Settled law past ∧ (s.memory.thunk t).phase = .forced w
  same : v.Plain → w = v

theorem Value.Computes.settled {law : Form → Bool} {past : Log} {s : State} {v w : Value}
    (h : Value.Computes law past s v w) (coded : v.Coded law) (shown : v.Shown past) : w.Settled law past := by
  by_cases plain : v.Plain
  · rw [h.same plain]
    exact ⟨plain, coded, shown⟩
  · cases v with
    | lazy t => exact (h.memo t rfl).1
    | _ => exact absurd rfl plain

namespace Visitor

/-- The value that an assignment computes for its place. -/
def newValue (inner : Visitor σ) (op : AssignOp) (place : Place) (right : Node) (span : Option Span) : Eval σ Value := do
  let old ← op.binary?.mapM fun op => return (op, ← inner.readPlace place span)
  let v ← Eval.ofExcept ((← inner.actual right).castTo? place.kind? (right.loc <|> span))
  match old with
  | some (op, old) => Eval.applyBinary op old v span
  | none => pure v

/-- What is stored is computed once the place has been found. -/
theorem assign_eq (inner : Visitor σ) (op : AssignOp) (left right : Node) (span : Option Span) :
    inner.assign op left right span = (do
      let place ← inner.place left span
      let v ← inner.newValue op place right span
      Eval.writePlace place v span) := by
  unfold assign newValue
  simp only [bind_assoc]
  refine bind_congr fun place => bind_congr fun old => bind_congr fun v => bind_congr fun w => ?_
  cases old with
  | some old => rfl
  | none => rfl

/-- The number at a place, with the value that counts as it. -/
def oldNumber (inner : Visitor σ) (place : Place) (span : Option Span) : Eval σ (Value × Float) := do
  let old ← inner.readPlace place span
  match old.toNumber? with
  | none => Eval.fail (.type (.notSteppable old.type) span)
  | some x => pure (old, x)

/-- A number is stepped once it has been read. -/
theorem step_eq (inner : Visitor σ) (op : UpdateOp) (argument : Node) (before : Bool) (span : Option Span) :
    inner.step op argument before span = (do
      let place ← inner.place argument span
      let old ← inner.oldNumber place span
      let new ← Eval.writePlace place (.number (match op with | .increment => old.2 + 1.0 | .decrement => old.2 - 1.0)) span
      pure (if before then new else old.1)) := by
  unfold step oldNumber
  simp only [bind_assoc]
  refine bind_congr fun place => bind_congr fun old => ?_
  cases old.toNumber? with
  | some x => rfl
  | none => rfl

/-- Values that are cast are as many as before, and fit the kind. -/
theorem casts_eq_ok {k : Kind} {span : Option Span} {vs ws : List Value} {m m' : Machine σ}
    (run : vs.mapM (fun v => Eval.ofExcept (v.cast k span)) m = .ok ws m') : ws.length = vs.length ∧ ∀ w ∈ ws, w.Fits k := by
  induction vs generalizing ws m m' with
  | nil =>
    obtain ⟨rfl, -⟩ := Eval.pure_eq_ok.mp run
    exact ⟨rfl, List.forall_mem_nil _⟩
  | cons v rest ih =>
    rw [List.mapM_cons] at run
    obtain ⟨w, m₁, first, run⟩ := Eval.bind_eq_ok.mp run
    obtain ⟨others, m₂, remaining, run⟩ := Eval.bind_eq_ok.mp run
    obtain ⟨rfl, -⟩ := Eval.pure_eq_ok.mp run
    obtain ⟨same, fit⟩ := ih remaining
    exact ⟨congrArg (· + 1) same, List.forall_mem_cons.mpr ⟨Value.fits_of_cast (Eval.ofExcept_eq_ok.mp first).1, fit⟩⟩

/-- An initialiser gives no more elements than there is room for, and they fit their kind. -/
theorem initialElements_eq_ok {inner : Visitor σ} {element : Kind} {length : Nat} {initial : Node} {span : Option Span}
    {vs : List Value} {m m' : Machine σ} (run : inner.initialElements element length initial span m = .ok vs m') :
    vs.length ≤ length ∧ ∀ v ∈ vs, v.Fits element := by
  obtain ⟨v, m₁, -, run⟩ := Eval.bind_eq_ok.mp run
  cases v with
  | array r =>
    obtain ⟨s, m₂, -, run⟩ := Eval.bind_eq_ok.mp run
    by_cases excess : length < (s.memory.elements r).toList.length
    · rw [if_pos excess] at run
      obtain ⟨_, _, failed, -⟩ := Eval.bind_eq_ok.mp run
      exact absurd failed Eval.fail_ne_ok
    · rw [if_neg excess] at run
      obtain ⟨same, fit⟩ := casts_eq_ok run
      exact ⟨same ▸ Nat.le_of_not_lt excess, fit⟩
  | _ => exact absurd run Eval.fail_ne_ok

/-- The elements of an array that is declared. -/
def declaredElements (inner : Visitor σ) (element : Kind) (size : Node) (initial : Option Node) (span : Option Span) :
    Eval σ (Array Value) := do
  let length ← inner.arrayLength size (size.loc <|> span)
  let given ← match initial with
    | some initial => inner.initialElements element length initial (initial.loc <|> span)
    | none => pure []
  return given.toArray ++ Array.replicate (length - given.length) element.zero

/-- An array is made of its elements. -/
theorem declaredArray_eq (inner : Visitor σ) (element : Kind) (size : Node) (initial : Option Node) (span : Option Span) :
    inner.declaredArray element size initial span = (do
      let elements ← inner.declaredElements element size initial span
      return .array (← Eval.allocate (·.newArray elements))) := by
  unfold declaredArray declaredElements
  simp only [bind_assoc, pure_bind]
  refine bind_congr fun length => ?_
  cases initial with
  | some initial => simp only [bind_assoc, pure_bind]
  | none => simp only [pure_bind]

end Visitor

/-- A relation that passes through every construct passes through the elements of a declaration. -/
theorem Eval.Congruence.declaredElements {τ : Type} {ctx : Context σ} {ctx' : Context τ}
    {R A : {α : Type} → Eval σ α → Eval τ α → Prop} {tags : FrameTag → Prop} {elements : Prop}
    (L : Eval.Congruence ctx ctx' R A tags elements) {inner : Visitor σ} {inner' : Visitor τ} (O : Operands R A inner inner')
    (element : Kind) (size : Node) (initial : Option Node) (span : Option Span) :
    R (inner.declaredElements element size initial span) (inner'.declaredElements element size initial span) := by
  refine L.bind (L.arrayLength O size _) fun length => ?_
  cases initial with
  | none => exact L.bind (L.pure []) fun given => L.pure _
  | some initial => exact L.bind (L.initialElements O element length initial _) fun given => L.pure _

namespace Eval

/-- Visitors whose visits make passages. -/
def TracesVisits (law : Form → Bool) (ctx : Context σ) (inner : Visitor σ) : Prop :=
  ∀ n tag, n.all law = true → Traces law ctx n.introduces Always (inner.visit n tag)
    fun past t c => c.Allowed law past t ∧ n.CastFits c

namespace Traces
variable {law : Form → Bool} {ctx : Context σ} {b : Bool} {inner : Visitor σ} (V : TracesVisits law ctx inner)

section parts
include V

/-- The visit of a part, wherever it starts. -/
theorem visited {n : Node} (part : Part law b n) (tag : FrameTag) :
    Traces law ctx b Always (inner.visit n tag) fun past t c => c.Allowed law past t :=
  ((V n tag part.code).widen part.within).conclude fun _ _ _ _ => And.left

theorem fitting {n : Node} (part : Part law b n) :
    Traces law ctx b Always (inner.expression n) fun past t v => t.Yields law past v ∧ n.CastFits (.normal v) := by
  refine bind ((V n .block part.code).widen part.within) fun c => ?_
  cases c with
  | normal v => exact pure fun _ _ _ => id
  | jump j span => exact read fun _ _ _ _ => stop _
  | returned v => exact read fun _ _ _ _ => stop _

theorem expression {n : Node} (part : Part law b n) :
    Traces law ctx b Always (inner.expression n) fun past t v => t.Yields law past v :=
  (fitting V part).conclude fun _ _ _ _ => And.left

/-- A value that waits is computed, and remembered; any other stays as it is. -/
theorem forceWithin : ∀ (fuel : Nat) (b : Bool) (v : Value),
    Traces law ctx b (fun _ s => s.Held v) (inner.forceWithin fuel v) fun past s w => v.Computes law past s w
  | 0, _, _ => stop _
  | fuel + 1, b, v => by
    cases v with
    | lazy t =>
      have evaluated (e : Node) (code : e.all law = true) : Traces law ctx e.introduces Always
          (do inner.forceWithin fuel (← inner.expression e)) fun past _ w =>
            w.Settled law past ∧ ∀ (n : Node) k, e = n.castTo k → w.Fits k := by
        have yields : Traces law ctx e.introduces Always (inner.expression e) fun past s v =>
            (v.Coded law ∧ v.Shown past ∧ ∀ (n : Node) k, e = n.castTo k → v.Fits k) ∧ s.Held v :=
          (fitting V ⟨code, id⟩).conclude fun _ _ v _ done =>
            ⟨⟨done.1.coded, done.1.shown, fun n k same => done.2 n k v same rfl⟩, done.1.held⟩
        refine bind yields fun v => ((forceWithin fuel _ v).keep ?_).conclude ?_
        · exact fun past log known => ⟨known.1, known.2.1.append log, known.2.2⟩
        · rintro past s w - ⟨⟨coded, shown, fits⟩, computes⟩
          refine ⟨computes.settled coded shown, fun n k same => ?_⟩
          have cast := fits n k same
          rwa [computes.same (Value.plain_cast (cast none))]
      refine (compute evaluated).conclude fun past s w _ done => ⟨fun t' same => ?_, fun idle => nomatch idle⟩
      cases same
      exact done
    | _ => exact pure fun _ _ _ _ => ⟨nofun, fun _ => rfl⟩

theorem force (v : Value) :
    Traces law ctx b (fun _ s => s.Held v) (inner.force v) fun past s w => v.Computes law past s w :=
  forceWithin V inner.fuel b v

theorem forced (v : Value) :
    Traces law ctx b (fun past s => s.Yields law past v) (inner.force v) fun past _ w => w.Settled law past :=
  ((force V v).keep (p := fun past => v.Coded law ∧ v.Shown past) fun _ log known => ⟨known.1, known.2.append log⟩).imp
    (fun _ _ yields => ⟨⟨yields.coded, yields.shown⟩, yields.held⟩) fun _ _ _ _ done => done.2.settled done.1.1 done.1.2

/-- What the computation of a thunk evaluates. -/
theorem computed (fuel : Nat) {n : Node} (part : Part law b n) :
    Traces law ctx b Always (do inner.forceWithin fuel (← inner.expression n)) fun _ _ _ => True :=
  bind (expression V part) fun v =>
    (forceWithin V fuel b v).imp (fun _ _ yields => yields.held) fun _ _ _ _ _ => trivial

theorem actual {n : Node} (part : Part law b n) :
    Traces law ctx b Always (inner.actual n) fun past _ v => v.Settled law past :=
  bind (expression V part) fun v => forced V v

theorem holds {n : Node} (part : Part law b n) : Traces law ctx b Always (inner.holds n) fun _ _ _ => True :=
  bind (actual V part) fun _ => pure fun _ _ _ _ => trivial

theorem actuals {nodes : List Node} (parts : ∀ n ∈ nodes, Part law b n) :
    Traces law ctx b Always (inner.actuals nodes) fun past _ vs => ∀ v ∈ vs, v.Settled law past :=
  mapM (q := fun past (v : Value) => v.Settled law past) (fun _ _ => id) (fun _ _ log settled => settled.append log)
    fun n member => actual V (parts n member)

end parts

/-! ## Operators -/

theorem applyBinary (op : BinaryOp) (v w : Value) (span : Option Span) :
    Traces law ctx b Always (Eval.applyBinary (σ := σ) op v w span) fun past _ u => u.Settled law past := by
  have compared (f : Bool → Bool) :
      Traces law ctx b Always (do return Value.bool (f (← sameValues (σ := σ) v w))) fun past _ u => u.Settled law past := by
    refine bind (Q := fun _ _ _ => True) (read fun s _ _ _ => ?_) fun same =>
      pure fun _ _ _ _ => (Value.simple_bool _).settled
    cases s.memory.same? v w with
    | none => exact stop _
    | some same => exact pure fun _ _ _ _ => trivial
  unfold Eval.applyBinary
  split
  · exact ofExcept fun u result _ _ _ _ => (BinaryOp.simple_onNumbers result).settled
  · split
    · exact compared id
    · exact compared (!·)
    · exact fail _

/-! ## Places and assignments -/

section parts
include V

theorem element {object property : Node} (part : Part law b object) (part' : Part law b property) (span : Option Span) :
    Traces law ctx b Always (inner.element object property span) fun _ _ _ => True := by
  refine bind (actual V part) fun base => anyhow (bind (actual V part') fun index => anyhow ?_)
  split
  · refine read fun t _ _ _ => ?_
    dsimp only
    split
    · exact pure fun _ _ _ _ => trivial
    · exact fail _
  · exact fail _
  · exact fail _

theorem place {target : Node} (parts : ∀ c ∈ target.form.inner, Part law b c) (span : Option Span) :
    Traces law ctx b Always (inner.place target span) fun _ s place => place.Ready s := by
  unfold Visitor.place
  split
  · refine read fun s _ _ _ => ?_
    refine bind (Q := fun _ t old => ∃ span, t.lookup _ span = .ok old) ?_ fun old =>
      pure fun _ _ _ found => found.imp fun _ found => ⟨old, found, rfl⟩
    exact ofExcept fun old found _ t _ now => ⟨_, now.1 ▸ found⟩
  · rename_i object property form
    rw [form] at parts
    have located (kind : Option Kind) : Traces law ctx b Always
        (inner.element object property span >>= fun found => Pure.pure (Place.element found.1 found.2 kind))
        fun _ s place => place.Ready s :=
      bind (element V (parts object (by simp [Form.inner, Form.parts])) (parts property (by simp [Form.inner, Form.parts])) span)
        fun _ => pure fun _ _ _ _ => trivial
    split
    · exact read fun s _ _ _ => bind (Q := fun _ _ _ => True) (ofExcept fun _ _ _ _ _ _ => trivial) fun old =>
        (located (some old.kind.pointee)).anyhow
    · exact located none
  · exact fail _

theorem readPlace (place : Place) (span : Option Span) :
    Traces law ctx b Always (inner.readPlace place span) fun _ _ _ => True := by
  refine read fun s _ proper _ => ?_
  cases place with
  | named name kind =>
    refine bind (Q := fun _ t old => t.Held old.value) ?_ fun old => (force V old.value).conclude fun _ _ _ _ _ => trivial
    exact ofExcept fun old found _ t proper' now => (proper'.makes_lookup (now.1 ▸ found)).held
  | element r i kind =>
    have plain := (proper.settled_element r i).plain
    exact (force V (s.memory.element r i)).imp (fun _ t _ => plain.held t) fun _ _ _ _ _ => trivial

theorem newValue {op : AssignOp} {place : Place} {right : Node} (part : Part law b right) (span : Option Span) :
    Traces law ctx b Always (inner.newValue op place right span) fun past _ v => v.Settled law past := by
  have old : Traces law ctx b Always (op.binary?.mapM fun op => return (op, ← inner.readPlace place span))
      fun _ _ _ => True := by
    cases op.binary? with
    | none => exact pure fun _ _ _ _ => trivial
    | some op =>
      rw [Option.mapM_some, map_eq_pure_bind]
      exact bind (Q := fun _ _ _ => True) (bind (readPlace V place span) fun v => pure fun _ _ _ _ => trivial) fun _ =>
        pure fun _ _ _ _ => trivial
  refine bind old fun old => bind (actual V part) fun v => ?_
  refine bind (Q := fun past _ w => w.Settled law past) (ofExcept fun w fitted _ _ _ settled => settled.castTo fitted)
    fun w => ?_
  cases old with
  | none => exact pure fun _ _ _ => id
  | some old => exact (applyBinary old.1 old.2 w span).anyhow

theorem assignment {op : AssignOp} {left right : Node} (permitted : law (.assign op left right) = true)
    (parts : ∀ c ∈ left.form.inner, Part law b c) (part : Part law b right) (span : Option Span) :
    Traces law ctx b Always (inner.assign op left right span) fun past _ v => v.Settled law past := by
  rw [Visitor.assign_eq]
  refine bind (place V parts span) fun place => ?_
  cases place with
  | named name kind =>
    -- between the look-up of the name and the assignment the right side alone is evaluated
    have computed : Traces law ctx right.introduces Always (inner.newValue op (.named name kind) right span)
        fun past _ v => v.Settled law past ∧ ∀ w : Value, w.Settled law past → w.Settled law past :=
      (newValue V ⟨part.code, id⟩ span).conclude fun _ _ _ _ settled => ⟨settled, fun _ => id⟩
    have stored := store name kind span (g := fun _ w => w)
      (q := fun past (w : Value) => w.Settled law past)
      (fun introduces => ⟨op, left, right, permitted, introduces⟩) computed
    simp only [bind_pure] at stored
    exact stored.widen part.within
  | element r i kind =>
    exact (bind (newValue V part span) fun v => storeElement).anyhow

theorem oldNumber (place : Place) (span : Option Span) :
    Traces law ctx b Always (inner.oldNumber place span) fun _ _ old => old.1.Simple := by
  refine bind (readPlace V place span) fun old => ?_
  cases counted : old.toNumber? with
  | none => exact fail _
  | some x =>
    refine pure fun _ _ _ _ => ?_
    unfold Value.toNumber? at counted
    split at counted
    · exact Value.simple_number _
    · exact Value.simple_bool _
    · cases counted

theorem step {op : UpdateOp} {argument : Node} {before : Bool} (parts : ∀ c ∈ argument.form.inner, Part law b c) (span : Option Span) :
    Traces law ctx b Always (inner.step op argument before span) fun past _ v => v.Settled law past := by
  rw [Visitor.step_eq]
  refine bind (place V parts span) fun place => ?_
  have stepped (old : Value × Float) (simple : old.1.Simple) (past : Log) (w : Value) (settled : w.Settled law past) :
      (if before then w else old.1).Settled law past := by
    cases before with
    | true => exact settled
    | false => exact simple.settled
  cases place with
  | named name kind =>
    refine (store name kind span (b := false) nofun ((oldNumber V (.named name kind) span).conclude fun past _ old _ simple =>
      ⟨(Value.simple_number _).settled, stepped old simple past⟩)).widen nofun
  | element r i kind =>
    refine (bind (oldNumber V (.element r i kind) span) fun old => ?_).anyhow
    refine bind ((storeElement.carry (p := fun _ _ => old.1.Simple) fun _ _ _ _ _ _ => id).weaken
      fun _ _ simple => ⟨simple, (Value.simple_number _).settled⟩) fun w => pure fun past _ _ known =>
        stepped old known.1 past w known.2

end parts

/-! ## Calls -/

theorem bindParams (span : Option Span) : ∀ items : List (Param × Value),
    Traces law ctx true (fun past _ => ∀ item ∈ items, item.2.Settled law past) (Eval.bindParams (σ := σ) span items)
      fun _ _ _ => True
  | [] => pure fun _ _ _ _ => trivial
  | (p, v) :: rest => by
    refine bind (Q := fun past _ w => (∀ item ∈ rest, item.2.Settled law past) ∧ w.Settled law past ∧ w.Fits p.kind) ?_
      fun w => ?_
    · exact ofExcept fun w fitted past _ _ settled =>
        ⟨fun item member => settled item (List.mem_cons_of_mem _ member), (settled _ List.mem_cons_self).cast fitted,
          Value.fits_of_cast fitted⟩
    · refine bind ((declare.keep (p := fun past => ∀ item ∈ rest, item.2.Settled law past) fun past log settled item member =>
        (settled item member).append log).weaken fun _ s known => ⟨known.1, .inl known.2⟩) fun _ => ?_
      exact (bindParams span rest).weaken fun _ _ => And.left

section parts
include V

/-- The body of a call, in a frame in which variables may be declared. -/
theorem callBody {c : Closure} (code : c.body.all law = true) (kind : Kind) (arguments : List Value) (span : Option Span) :
    Traces law ctx true (fun past _ => ∀ v ∈ arguments, v.Settled law past) (inner.callBody c kind arguments span)
      fun past _ v => v.Settled law past := by
  have valued (c : Completion) : Traces law ctx true (fun past s => c.Allowed law past s) (Eval.bodyValue (σ := σ) c)
      fun past s v => s.Yields law past v := by
    cases c with
    | normal v => exact pure fun _ _ _ => id
    | jump j span => exact fail _
    | returned v => exact pure fun _ s _ settled => Value.Settled.yields settled s
  refine bind ((bindParams span _).weaken fun _ _ settled item member => settled _ (List.of_mem_zip member).2) fun _ => ?_
  refine bind (visited V (.inside code) .block) fun c => bind (valued c) fun v => bind (forced V v) fun w => ?_
  exact ofExcept fun u fitted _ _ _ settled => settled.castResult fitted

theorem callClosure (name : String) {c : Closure} (code : c.body.all law = true) (kind : Kind) (arguments : List Value)
    (span : Option Span) :
    Traces law ctx b (fun past _ => ∀ v ∈ arguments, v.Settled law past)
      (inner.callClosure ctx.settings.maxCallDepth name c kind arguments span) fun past _ v => v.Settled law past := by
  have checked : Traces law ctx b Always (Eval.checkDepth (σ := σ) ctx.settings.maxCallDepth span)
      fun _ s _ => s.callDepth < ctx.settings.maxCallDepth := by
    refine read fun s _ _ _ => ?_
    by_cases deep : ctx.settings.maxCallDepth ≤ s.callDepth
    · rw [if_pos deep]
      exact fail _
    · rw [if_neg deep]
      exact pure fun _ t _ now => now.1 ▸ Nat.lt_of_not_le deep
  have called : Traces law ctx b (fun past _ => ∀ v ∈ arguments, v.Settled law past) (do
      Eval.checkDepth ctx.settings.maxCallDepth span
      Eval.inCall name (inner.callBody c kind arguments span)) fun past _ v => v.Settled law past := by
    refine bind ((checked.keep (p := fun past => ∀ v ∈ arguments, v.Settled law past) ?_).weaken ?_) fun _ =>
      inCall name (callBody V code kind arguments span)
    · exact fun past log settled v member => (settled v member).append log
    · exact fun _ _ settled => ⟨settled, trivial⟩
  unfold Visitor.callClosure
  dsimp only
  split
  · exact bind (Q := fun _ _ _ => False) (fail _) fun _ => called.weaken fun _ _ => False.elim
  · exact called

theorem call {callee : Node} {arguments : List Node} (parts : ∀ n ∈ arguments, Part law b n) (span : Option Span) :
    Traces law ctx b Always (inner.call ctx.settings.maxCallDepth callee arguments span) fun past _ v =>
      v.Settled law past := by
  have builtin (f : Builtin) (vs : List Value) :
      Traces law ctx b Always (Eval.callBuiltin (σ := σ) f vs span) fun past _ v => v.Settled law past := by
    refine bind (Q := fun past _ r => r.1.Settled law past)
      (ofExcept fun r run past _ _ _ => Builtin.settled_apply run) fun r => ?_
    refine bind ((modify (P := Always) fun _ _ _ _ => .write r.2).keep (p := fun past => r.1.Settled law past) ?_ |>.weaken ?_)
      fun _ => pure fun _ _ _ known => known.1
    · exact fun past log settled => settled.append log
    · exact fun _ _ settled => ⟨settled, trivial⟩
  unfold Visitor.call
  split
  · refine read fun s _ proper _ => ?_
    split
    · exact fail _
    · rename_i kind c found
      have code : c.body.all law = true := (proper.bound 0 _ (Bindings.mem_of_get? found)).coded c rfl
      exact (bind (actuals V parts) fun vs => callClosure V _ code kind vs span).anyhow
    · exact (bind (actuals V parts) fun vs => (builtin _ vs).anyhow).anyhow
    · exact fail _
  · exact fail _

/-! ## Declarations -/

theorem arrayLength {size : Node} (part : Part law b size) (span : Option Span) :
    Traces law ctx b Always (inner.arrayLength size span) fun _ _ _ => True := by
  refine bind (actual V part) fun v => ?_
  split
  · split
    · split
      · exact fail _
      · exact pure fun _ _ _ _ => trivial
    · exact fail _
  · exact fail _

theorem initialElements (element : Kind) (length : Nat) {initial : Node} (part : Part law b initial) (span : Option Span) :
    Traces law ctx b Always (inner.initialElements element length initial span) fun past _ vs =>
      ∀ v ∈ vs, v.Settled law past ∧ v.Fits element := by
  refine bind (actual V part) fun v => ?_
  split
  · rename_i r
    refine read fun s _ proper _ => ?_
    have fitted : Traces law ctx b (fun past _ => ∀ v ∈ (s.memory.elements r).toList, v.Settled law past)
        ((s.memory.elements r).toList.mapM fun v => Eval.ofExcept (σ := σ) (v.cast element span)) fun past _ vs =>
          ∀ v ∈ vs, v.Settled law past ∧ v.Fits element := by
      refine mapM (q := fun past (v : Value) => v.Settled law past ∧ v.Fits element) ?_ ?_ fun v member => ?_
      · exact fun past log settled v member => (settled v member).append log
      · exact fun v past log known => ⟨known.1.append log, known.2⟩
      · exact ofExcept fun w fitted past _ _ settled => ⟨(settled v member).cast fitted, Value.fits_of_cast fitted⟩
    dsimp only
    split
    · exact bind (Q := fun _ _ _ => False) (fail _) fun _ => fitted.weaken fun _ _ => False.elim
    · refine pinnedAt fun t seen proper' now => fitted.weaken fun past _ same v member => ?_
      obtain ⟨rfl, -⟩ := now
      obtain ⟨rfl, -⟩ := same
      have among : v ∈ t.memory.elements r := by simpa using member
      obtain ⟨coded, shown⟩ := proper'.elements r v among
      exact ⟨proper'.arrays r v among, coded, shown⟩
  · exact fail _

theorem declaredElements {element : Kind} (proper : element.isVoid = false) {size : Node} {initial : Option Node}
    (part : Part law b size) (parts : ∀ n ∈ initial, Part law b n) (span : Option Span) :
    Traces law ctx b Always (inner.declaredElements element size initial span) fun past _ elements =>
      ∀ v ∈ elements, v.Settled law past ∧ v.Fits element := by
  refine bind (arrayLength V part _) fun length => ?_
  have filled (given : List Value) : Traces law ctx b
      (fun past _ => ∀ v ∈ given, v.Settled law past ∧ v.Fits element)
      (Pure.pure (given.toArray ++ Array.replicate (length - given.length) element.zero) : Eval σ (Array Value))
      fun past _ elements => ∀ v ∈ elements, v.Settled law past ∧ v.Fits element := by
    refine pure fun past _ _ known v member => ?_
    rcases Array.mem_append.mp member with old | new
    · exact known v (by simpa using old)
    · rw [(Array.mem_replicate.mp new).2]
      exact ⟨element.simple_zero.settled, Kind.fits_zero proper⟩
  cases initial with
  | none => exact (filled []).weaken fun _ _ _ => nofun
  | some initial => exact (bind (initialElements V element length (parts initial rfl) _) filled).anyhow

/-- The first value of a variable. -/
theorem initialValue {declarators : List Declarator} {d : Declarator} {kind : Kind} (proper : kind.isVoid = false)
    (permitted : law (.declaration declarators) = true) (among : d ∈ declarators)
    (parts : ∀ n ∈ d.initial, Part law b n) (tagged : ∀ n ∈ d.initial, (n.castTo kind).all law = true)
    (span : Option Span) :
    Traces law ctx b Always (inner.initialValue ctx.settings.strategy kind d.initial span) fun past s v =>
      s.Initial law past kind v := by
  unfold Visitor.initialValue
  split
  · exact pure fun _ _ _ _ => .inl ⟨kind.simple_zero.settled, Kind.fits_zero proper⟩
  · rename_i initial given _
    refine bind (actual V (parts initial given)) fun v => ofExcept fun w fitted _ _ _ settled => ?_
    exact .inl ⟨settled.cast fitted, Value.fits_of_cast fitted⟩
  · rename_i initial given put
    exact delay put permitted among given (tagged initial given)

theorem declarator (lenient : Lenient law) {declarators : List Declarator} {d : Declarator}
    (permitted : law (.declaration declarators) = true) (among : d ∈ declarators)
    (code : ∀ n ∈ d.parts, n.all law = true) (span : Option Span) :
    Traces law ctx true Always (inner.declarator ctx.settings.strategy d span) fun _ _ _ => True := by
  have initials : ∀ n ∈ d.initial, n.all law = true := fun n given => code n (Declarator.mem_parts_of_initial given)
  have declared (name : String) (kind : Kind) (proper : kind.isVoid = false) (found : d.id.declared = .ok (name, kind)) :
      Traces law ctx true Always
        (match d.size with
        | some size => do
          let v ← inner.declaredArray kind size d.initial (d.loc <|> span)
          Eval.declare name kind.pointerTo v (d.loc <|> span)
        | none => do
          let v ← inner.initialValue ctx.settings.strategy kind d.initial (d.loc <|> span)
          Eval.declare name kind v (d.loc <|> span)) fun _ _ _ => True := by
    cases sized : d.size with
    | none =>
      exact bind (initialValue V proper permitted among (fun n given => .inside (initials n given))
        (fun n given => lenient.castTo (initials n given) kind) _) fun v => declare
    | some size =>
      have part : Part law true size := .inside (code size (Declarator.mem_parts_of_size sized))
      dsimp only
      rw [Visitor.declaredArray_eq]
      simp only [bind_assoc, pure_bind]
      refine bind (declaredElements V proper part (fun n given => .inside (initials n given)) _) fun elements => ?_
      refine pinnedAt fun s seen _ known => ?_
      refine (declareArray permitted among (by rw [sized]; rfl) found fun v member => (known v member).2).weaken ?_
      exact fun past _ same v member => same.1 ▸ (known v member).1
  refine bind (Q := fun _ _ r => d.id.declared = .ok r) (ofExcept fun r found _ _ _ _ => found) fun (name, kind) =>
    given fun found => ?_
  dsimp only
  split
  · exact bind (Q := fun _ _ _ => False) (fail _) fun _ => given False.elim
  · rename_i proper
    exact declared name kind (Bool.eq_false_iff.mpr proper) found

theorem declarators (lenient : Lenient law) {all : List Declarator} (permitted : law (.declaration all) = true)
    (span : Option Span) : ∀ {items : List Declarator}, (∀ d ∈ items, d ∈ all ∧ ∀ n ∈ d.parts, n.all law = true) →
      Traces law ctx true Always (inner.declarators ctx.settings.strategy span items) fun _ _ _ => True
  | [], _ => pure fun _ _ _ _ => trivial
  | d :: rest, known => by
    obtain ⟨among, code⟩ := known d List.mem_cons_self
    refine bind (declarator V lenient permitted among code span) fun _ => ?_
    exact declarators lenient permitted span fun d' member => known d' (List.mem_cons_of_mem d member)

end parts

theorem declareFunction {id : Node} {params : List Node} {body : Node} (permitted : law (.function id params body) = true)
    (code : body.all law = true) (span : Option Span) :
    Traces law ctx b Always (Eval.declareFunction (σ := σ) id params body span) fun _ _ _ => True := by
  refine bind (Q := fun _ _ r => id.declared = .ok r) (ofExcept fun r found _ _ _ _ => found) fun (name, kind) =>
    given fun declared => bind (closure _ params code) fun v => given fun made => read fun s _ _ _ => ?_
  obtain ⟨f, rfl, coded⟩ := made
  have replaces (known : s.global? name = none ∨ ∃ old before, s.global? name = some ⟨old, .closure before⟩) (t : State)
      (now : t = s) (past : Log) : Act law ctx.settings b past t (t.bind .global name ⟨kind, .closure f⟩) :=
    .declareFunction permitted declared coded (now ▸ known)
  split
  · rename_i old before found
    exact modify fun past t _ now => replaces (.inr ⟨old, before, found⟩) t now.1 past
  · refine attempt fun past t _ now fine => replaces (.inl ?_) t now.1 past
    exact now.1 ▸ State.declareFault?_eq_none.mp fine

/-! ## Loops -/

theorem rounds {round : Eval σ (Option Completion)}
    (h : Traces law ctx b Always round fun past _ c => ∀ c' ∈ c, c'.Settled law past) :
    ∀ fuel, Traces law ctx b Always (Eval.rounds round fuel) fun past _ c => c.Settled law past
  | 0 => stop _
  | fuel + 1 => by
    refine bind h fun c => ?_
    cases c with
    | none => exact (rounds h fuel).anyhow
    | some c => exact pure fun _ _ _ settled => settled c rfl

section parts
include V

theorem loopTest {test : Node} (part : Part law b test) :
    Traces law ctx b Always (inner.loopTest test) fun past _ c => ∀ c' ∈ c, c'.Settled law past := by
  refine bind (holds V part) fun holds => pure fun past _ _ _ c' member => ?_
  cases holds with
  | true => cases member
  | false =>
    cases member
    exact Value.simple_void.settled

theorem loopBody {body : Node} (part : Part law b body) (kind : LoopKind) :
    Traces law ctx b Always (inner.loopBody body kind) fun past _ c => ∀ c' ∈ c, c'.Settled law past :=
  bind (visited V part _) fun _ => pure fun _ _ _ allowed _ ends => Completion.settled_of_endsLoop allowed ends

theorem whileLoop {test body : Node} (part : Part law b test) (part' : Part law b body) :
    Traces law ctx b Always (inner.whileLoop test body) fun past _ c => c.Settled law past := by
  refine rounds (bind (loopTest V part) fun c => ?_) _
  cases c with
  | none => exact (loopBody V part' _).anyhow
  | some c => exact pure fun _ _ _ settled => settled

theorem doLoop {body test : Node} (part : Part law b body) (part' : Part law b test) :
    Traces law ctx b Always (inner.doLoop body test) fun past _ c => c.Settled law past := by
  refine rounds (bind (loopBody V part _) fun c => ?_) _
  cases c with
  | none => exact (loopTest V part').anyhow
  | some c => exact pure fun _ _ _ settled => settled

theorem forRound {test update : Option Node} {body : Node} (part : Part law b body)
    (parts : ∀ n ∈ test, Part law b n) (parts' : ∀ n ∈ update, Part law b n) :
    Traces law ctx b Always (inner.forRound test update body) fun past _ c => ∀ c' ∈ c, c'.Settled law past := by
  have tested : Traces law ctx b Always (inner.forTest test) fun past _ c => ∀ c' ∈ c, c'.Settled law past := by
    cases test with
    | none => exact pure fun _ _ _ _ => nofun
    | some test => exact loopTest V (parts test rfl)
  refine bind tested fun c => ?_
  cases c with
  | some c => exact pure fun _ _ _ settled => settled
  | none =>
    refine anyhow <| bind (loopBody V part _) fun c => ?_
    cases c with
    | some c => exact pure fun _ _ _ settled => settled
    | none =>
      cases update with
      | none => exact pure fun _ _ _ _ => nofun
      | some update =>
        refine bind (Q := fun _ _ _ => True) ?_ fun _ => pure fun _ _ _ _ => nofun
        exact anyhow <| discarded (expression V (parts' update rfl))

theorem forLoop {start test update : Option Node} {body : Node} (part : Part law true body)
    (parts : ∀ n ∈ start, Part law true n) (parts' : ∀ n ∈ test, Part law true n)
    (parts'' : ∀ n ∈ update, Part law true n) :
    Traces law ctx b Always (inner.forLoop start test update body) fun past _ c => c.Settled law past := by
  have repeated : Traces law ctx true Always (Eval.rounds (inner.forRound test update body) inner.fuel) fun past _ c =>
      c.Settled law past := rounds (forRound V part parts' parts'') _
  refine inFrame (c := true) (q := fun past (c : Completion) => c.Settled law past) _ ?_
  cases start with
  | none => exact repeated
  | some start => exact bind (discarded (visited V (parts start rfl) .block)) fun _ => repeated

/-! ## Statements and expressions -/

theorem statements (last : Value) : ∀ {body : List Node}, (∀ n ∈ body, Part law b n) →
    Traces law ctx b (fun past s => s.Yields law past last) (inner.statements last body) fun past s c =>
      c.Allowed law past s
  | [], _ => pure fun _ _ _ yields => yields
  | n :: rest, parts => by
    refine anyhow <| bind (visited V (parts n List.mem_cons_self) .block) fun c => ?_
    cases c with
    | normal v => exact statements v fun n' member => parts n' (List.mem_cons_of_mem n member)
    | jump j span => exact pure fun _ _ _ _ => trivial
    | returned v => exact pure fun _ _ _ settled => settled

theorem block {body : List Node} (parts : ∀ n ∈ body, Part law true n) (tag : FrameTag) :
    Traces law ctx b Always (inner.block body tag) fun past _ c => c.Settled law past := by
  refine inFrame (c := true) (q := fun past (c : Completion) => c.Settled law past) tag ?_
  refine bind ((statements V .void parts).weaken fun _ s _ => Value.simple_void.settled.yields s) fun c => ?_
  cases c with
  | normal v => exact bind (forced V v) fun w => pure fun _ _ _ settled => settled
  | jump j span => exact pure fun _ _ _ _ => trivial
  | returned v => exact pure fun _ _ _ settled => settled

theorem branch {test consequent : Node} {alternate : Option Node} (part : Part law b test) (part' : Part law b consequent)
    (parts : ∀ n ∈ alternate, Part law b n) :
    Traces law ctx b Always (inner.branch test consequent alternate) fun past s c => c.Allowed law past s := by
  refine bind (holds V part) fun holds => ?_
  cases holds with
  | true => exact (visited V part' .block).anyhow
  | false =>
    cases alternate with
    | none => exact pure fun _ s _ _ => Value.simple_void.settled.yields s
    | some alternate => exact (visited V (parts alternate rfl) .block).anyhow

theorem logical (op : LogicalOp) {left right : Node} (part : Part law b left) (part' : Part law b right) :
    Traces law ctx b Always (inner.logical op left right) fun past _ v => v.Settled law past := by
  refine bind (holds V part) fun _ => ?_
  split
  · exact pure fun _ _ _ _ => (Value.simple_bool _).settled
  · exact pure fun _ _ _ _ => (Value.simple_bool _).settled
  · exact bind (holds V part').anyhow fun _ => pure fun _ _ _ _ => (Value.simple_bool _).settled

theorem sequence (last : Value) : ∀ {items : List Node}, (∀ n ∈ items, Part law b n) →
    Traces law ctx b (fun past s => s.Yields law past last) (inner.sequence last items) fun past _ v =>
      v.Settled law past
  | [], _ => forced V last
  | n :: _, parts => anyhow <| bind (expression V (parts n List.mem_cons_self)) fun v =>
      sequence v fun n' member => parts n' (List.mem_cons_of_mem n member)

/-- A cast yields what fits its kind. -/
theorem castNode {object : Node} (part : Part law b object) (property : Node) (span : Option Span) :
    Traces law ctx b Always (do
      let v ← inner.actual object
      let kind ← Eval.ofExcept property.kind
      return Completion.normal (← Eval.ofExcept (v.cast kind span))) fun _ s c =>
        c.Made law s ∧ ∀ v kind, c = .normal v → property.kind = .ok kind → v.Fits kind := by
  refine bind (actual V part) fun v => ?_
  refine bind (Q := fun past _ kind => v.Settled law past ∧ property.kind = .ok kind) ?_ fun kind => ?_
  · exact ofExcept fun kind found _ _ _ settled => ⟨settled, found⟩
  · refine bind (Q := fun past _ w => w.Settled law past ∧ w.Fits kind ∧ property.kind = .ok kind) ?_ fun w => ?_
    · exact ofExcept fun w fitted _ _ _ known => ⟨known.1.cast fitted, Value.fits_of_cast fitted, known.2⟩
    · refine pure fun _ s proper known => ⟨(known.1.yields s).makes proper, fun v k same found => ?_⟩
      cases same
      cases known.2.2.symm.trans found
      exact known.2.1

/-- The evaluation of a node by its form. -/
theorem byForm (lenient : Lenient law) {n : Node} (code : n.all law = true) (tag : FrameTag) :
    Traces law ctx n.introduces Always (Eval.byForm ctx.settings inner n tag) fun _ s c => c.Made law s := by
  have settled {b : Bool} {x : Eval σ Value} (h : Traces law ctx b Always x fun past _ v => v.Settled law past) :
      Traces law ctx b Always (do Pure.pure (Completion.normal (← x))) fun _ s c => c.Made law s :=
    bind h fun v => pure fun _ s proper settled => (settled.yields s).makes proper
  have ended {b : Bool} {x : Eval σ Completion} (h : Traces law ctx b Always x fun past _ c => c.Settled law past) :
      Traces law ctx b Always x fun _ s c => c.Made law s :=
    h.conclude fun _ s c proper settled => (settled.allowed s).made proper
  have silently {b : Bool} {x : Eval σ Unit} (h : Traces law ctx b Always x fun _ _ _ => True) :
      Traces law ctx b Always (do x; Pure.pure (Completion.normal .void)) fun _ s c => c.Made law s :=
    bind h fun _ => pure fun _ s proper _ => (Value.simple_void.settled.yields s).makes proper
  have constant {b : Bool} {v : Value} (simple : v.Simple) :
      Traces law ctx b Always (Pure.pure (Completion.normal v) : Eval σ Completion) fun _ s c => c.Made law s :=
    pure fun _ s proper _ => (simple.settled.yields s).makes proper
  have part {c : Node} (member : c ∈ n.form.inner) : Part law n.introduces c := .of_inner code member
  obtain ⟨permitted, parts⟩ := Node.all_iff.mp code
  obtain ⟨form, loc⟩ := n
  cases form with
  | block body => exact ended (block V (fun c member => .inside (parts c member)) tag)
  | expression e =>
    exact bind (expression V (part List.mem_cons_self)) fun v => pure fun _ s proper yields => yields.makes proper
  | declaration items =>
    refine silently (declarators V lenient permitted loc fun d among => ⟨among, fun c member => parts c ?_⟩)
    exact List.mem_flatMap.mpr ⟨d, among, member⟩
  | function id params body =>
    exact silently (declareFunction permitted (parts body (by simp [Form.parts])) loc)
  | branch test consequent alternate =>
    refine (branch V (part (by simp [Form.inner, Form.parts])) (part (by simp [Form.inner, Form.parts]))
      fun c member => part ?_).conclude fun _ _ _ proper allowed => allowed.made proper
    simp [Form.inner, Form.parts, Option.mem_def.mp member]
  | whileLoop test body =>
    exact ended (whileLoop V (part (by simp [Form.inner, Form.parts])) (part (by simp [Form.inner, Form.parts])))
  | doLoop body test =>
    exact ended (doLoop V (part (by simp [Form.inner, Form.parts])) (part (by simp [Form.inner, Form.parts])))
  | forLoop start test update body =>
    refine ended (forLoop V (.inside (parts body (by simp [Form.parts]))) (fun c member => .inside (parts c ?_))
      (fun c member => .inside (parts c ?_)) fun c member => .inside (parts c ?_)) <;>
    simp [Form.parts, Option.mem_def.mp member]
  | breakLoop | continueLoop => exact pure fun _ _ _ _ => trivial
  | returnValue argument =>
    cases argument with
    | none => exact pure fun _ s proper _ => ⟨(Value.simple_void.settled.yields s).makes proper, rfl⟩
    | some argument =>
      exact bind (actual V (part (by simp [Form.inner, Form.parts]))) fun v => pure fun _ s proper settled =>
        ⟨(settled.yields s).makes proper, settled.plain⟩
  | literal l =>
    cases l with
    | bool b => exact constant (Value.simple_bool b)
    | number x => exact constant (Value.simple_number x)
  | identifier name =>
    refine read fun t _ _ _ => bind (Q := fun _ u b => u.Makes law b.value) ?_ fun b => pure fun _ _ _ => id
    exact ofExcept fun b found _ u proper now => proper.makes_lookup (now.1 ▸ found)
  | binary op left right =>
    have left' := part (c := left) (by simp [Form.inner, Form.parts])
    have right' := part (c := right) (by simp [Form.inner, Form.parts])
    exact bind (actual V left') fun v => anyhow <| bind (actual V right') fun w => anyhow <|
      settled (applyBinary op v w loc)
  | logical op left right =>
    exact settled (logical V op (part (by simp [Form.inner, Form.parts])) (part (by simp [Form.inner, Form.parts])))
  | unary op argument =>
    have argument' := part (c := argument) (by simp [Form.inner, Form.parts])
    exact bind (actual V argument') fun v => anyhow <| settled <| ofExcept fun w result _ _ _ _ =>
      (UnaryOp.simple_apply result).settled
  | assign op left right =>
    have left' := part (c := left) (by simp [Form.inner, Form.parts])
    have right' := part (c := right) (by simp [Form.inner, Form.parts])
    exact settled (assignment V permitted (fun c member => left'.inner member) right' loc)
  | update op argument before =>
    have argument' := part (c := argument) (by simp [Form.inner, Form.parts])
    exact settled (step V (fun c member => argument'.inner member) loc)
  | call callee arguments => exact settled (call V (fun c member => part member) loc)
  | choice test consequent alternate =>
    have test' := part (c := test) (by simp [Form.inner, Form.parts])
    have either (holds : Bool) := part (c := if holds then consequent else alternate) (by
      cases holds <;> simp [Form.inner, Form.parts])
    exact bind (holds V test') fun holds => anyhow <| settled (actual V (either holds))
  | sequence expressions =>
    exact settled ((sequence V .void fun c member => part member).weaken fun _ s _ => Value.simple_void.settled.yields s)
  | member object property computed =>
    cases computed with
    | false =>
      exact (castNode V (part (by simp [Form.inner])) property loc).conclude fun _ _ _ _ => And.left
    | true =>
      have object' := part (c := object) (by simp [Form.inner, Form.parts])
      have property' := part (c := property) (by simp [Form.inner, Form.parts])
      refine bind (element V object' property' loc) fun a => read fun s _ _ _ => ?_
      refine bind (Q := fun past _ w => w.Settled law past) ?_ fun w => pure fun _ s proper settled =>
        (settled.yields s).makes proper
      refine pinnedAt fun t seen proper now => ?_
      obtain ⟨rfl, -⟩ := now
      have kept := proper.settled_element a.1 a.2
      exact (forced V _).weaken fun past t now => now.1 ▸ kept.yields t
  | array elements =>
    refine bind (actuals V fun c member => part member) fun values => ?_
    refine bind (Q := fun _ s r => r.index < s.memory.arrays.size) ?_ fun r => pure fun _ s _ inside => ?_
    · refine modifyGet fun past s _ settled => ⟨.newArray (by simpa using settled), ?_⟩
      simp [Memory.newArray]
    · refine ⟨Value.Plain.held (rfl : Value.Plain (.array r)) s, by rintro c ⟨⟩, fun r' same => ?_⟩
      cases same
      exact inside
  | lambda params body =>
    refine bind (closure none params (parts body (by simp [Form.parts]))) fun v => given fun made => pure fun _ s _ _ => ?_
    obtain ⟨f, rfl, coded⟩ := made
    refine ⟨Value.Plain.held (rfl : Value.Plain (.closure f)) s, fun c same => ?_, by rintro r ⟨⟩⟩
    cases same
    exact coded
  | typeTag name pointers => exact fail _

/-- The evaluation of a node by its form, with what is known of casts besides. -/
theorem byFormFitting (lenient : Lenient law) {n : Node} (code : n.all law = true) (tag : FrameTag) :
    Traces law ctx n.introduces Always (Eval.byForm ctx.settings inner n tag) fun _ t c => c.Made law t ∧ n.CastFits c := by
  by_cases cast : ∃ object property, n.form = .member object property false
  · obtain ⟨object, property, form⟩ := cast
    have fitted := castNode V (.of_inner code (by rw [form]; exact List.mem_cons_self)) property n.loc
    unfold Eval.byForm
    rw [form]
    refine fitted.conclude fun _ t c _ ⟨made, fits⟩ => ⟨made, fun inner k v cast done => ?_⟩
    rw [cast] at form
    cases form
    exact fits v k done k.kind_tag
  · refine (byForm V lenient code tag).conclude fun _ t c _ made => ⟨made, fun inner k v same => ?_⟩
    exact absurd ⟨inner, k.tag, by rw [same]; rfl⟩ cast

end parts

/-! ## Visits and programs -/

/-- The visit of every node makes a passage. -/
theorem visit (lenient : Lenient law) : ∀ fuel, TracesVisits law ctx ⟨Eval.visit ctx fuel, fuel⟩
  | 0 => fun _ _ _ => stop _
  | fuel + 1 => fun n tag code => visiting n.summary (byFormFitting (visit lenient fuel) lenient code tag)
      fun _ _ _ _ ⟨made, fits⟩ => ⟨made.leaving n.summary, fits⟩

/-- The run of a program makes a passage, and the value that it yields can be kept. -/
theorem program (lenient : Lenient law) (ctx : Context σ) {p : Program} (code : ∀ n ∈ p.body, n.all law = true) (fuel : Nat) :
    Traces law ctx true Always (Eval.program ctx (visitor ctx fuel) p) fun past _ v => v.Settled law past := by
  have V : TracesVisits law ctx (visitor ctx fuel) := visit lenient fuel
  have valued (c : Completion) : Traces law ctx true (fun past s => c.Allowed law past s)
      (programValue (visitor ctx fuel) (p.entryCall? ctx.settings) c) fun past _ v => v.Settled law past := by
    cases c with
    | returned v => exact pure fun _ _ _ settled => settled
    | jump j span => exact fail _
    | normal last =>
      refine bind (forced V last) fun v => ?_
      cases called : p.entryCall? ctx.settings with
      | none => exact pure fun _ _ _ settled => settled
      | some call => exact anyhow (actual V (.inside (lenient.entryCall called)))
  have run : Traces law ctx true Always (do
      programValue (visitor ctx fuel) (p.entryCall? ctx.settings) (← (visitor ctx fuel).statements .void p.body))
      fun past _ v => v.Settled law past :=
    bind ((statements V .void fun n member => .inside (code n member)).weaken fun _ s _ => Value.simple_void.settled.yields s)
      valued
  have visited : Traces law ctx true Always (do
      Eval.enter ctx p.summary
      let v ← (visitor ctx fuel).statements .void p.body >>= programValue (visitor ctx fuel) (p.entryCall? ctx.settings)
      Eval.exit ctx p.summary
      Pure.pure v) fun past _ v => v.Settled law past :=
    visiting p.summary run fun past t v _ settled => settled.append _
  simpa only [Eval.program, bind_assoc] using visited

end Traces
end Eval
end MiniC
