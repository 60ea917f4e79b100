import MiniC.Proofs.Balance
import MiniC.Proofs.Fitting
import MiniC.Proofs.Frames
import MiniC.Proofs.History
import MiniC.Proofs.Parts

/-!
# Passages

All that an evaluation does to a state it does by a few actions, nested in the visits of
nodes, in frames, in calls and in the computation of thunks. A passage is such a nesting
from one state to another, with the log of its events (`Passage`), and an evaluation that
is cut short has gone part of such a way (`Broken`). What a passage knows of its actions
(what was bound when the target of an assignment was found, what kind a value fits, what
code it comes from) is what invariants of the language are proved from, one case for each
action, without going through the constructs again.
-/

namespace MiniC

/-! ## Values and states -/

/-- An array is one of the memory. -/
def Memory.Reaches (m : Memory) (v : Value) : Prop := ∀ r, v = .array r → r.index < m.arrays.size

namespace Value

/-- The body of a function has permitted forms. -/
def Coded (law : Form → Bool) (v : Value) : Prop := ∀ c, v = .closure c → c.body.all law = true

/-- An array has been there at some event. -/
def Shown (past : Log) (v : Value) : Prop := ∀ r, v = .array r → ∃ entry ∈ past, r.index < entry.2.memory.arrays.size

/-- A value that can be kept: it is no thunk, its code is permitted, and it is not newer than
    the last event. -/
structure Settled (law : Form → Bool) (past : Log) (v : Value) : Prop where
  plain : v.Plain
  coded : v.Coded law
  shown : v.Shown past

theorem Shown.append {past : Log} {v : Value} (h : v.Shown past) (log : Log) : v.Shown (past ++ log) := by
  intro r same
  obtain ⟨entry, member, inside⟩ := h r same
  exact ⟨entry, List.mem_append_left log member, inside⟩

theorem Settled.append {law : Form → Bool} {past : Log} {v : Value} (h : v.Settled law past) (log : Log) :
    v.Settled law (past ++ log) := ⟨h.plain, h.coded, h.shown.append log⟩

/-- What a cast yields can be kept if what is cast can. -/
theorem Settled.cast {law : Form → Bool} {past : Log} {v w : Value} {k : Kind} {span : Option Span}
    (h : v.Settled law past) (fitted : v.cast k span = .ok w) : w.Settled law past := by
  have same : w = v ∨ (w.type ≠ .function ∧ w.type ≠ .array) := by
    unfold Value.cast at fitted
    cases v <;> grind [Value.type]
  rcases same with rfl | ⟨simple, flat⟩
  · exact h
  · refine ⟨plain_cast fitted, ?_, ?_⟩
    · rintro c rfl
      exact absurd rfl simple
    · rintro r rfl
      exact absurd rfl flat

theorem Settled.castTo {law : Form → Bool} {past : Log} {v w : Value} {k : Option Kind} {span : Option Span}
    (h : v.Settled law past) (fitted : v.castTo? k span = .ok w) : w.Settled law past := by
  cases k with
  | some k => exact h.cast fitted
  | none =>
    cases fitted
    exact h

/-- A value that is neither a thunk nor a function nor an array can always be kept. -/
theorem settled_of_type {law : Form → Bool} {past : Log} {v : Value} (plain : v.Plain) (simple : v.type ≠ .function)
    (flat : v.type ≠ .array) : v.Settled law past := by
  refine ⟨plain, ?_, ?_⟩
  · rintro c rfl
    exact absurd rfl simple
  · rintro r rfl
    exact absurd rfl flat

end Value

namespace State

/-- What is bound has permitted code and exists, and a thunk was put off as a cast to the kind
    under which it is bound. -/
structure Binds (law : Form → Bool) (s : State) (b : Binding) : Prop where
  coded : b.value.Coded law
  reached : s.memory.Reaches b.value
  delayed (t : ThunkRef) : b.value = .lazy t → ∃ e : Node, (s.memory.thunk t).expression = e.castTo b.kind

/-- A lexical state, left by code of permitted forms, after the events of a log: of all arrays
    only those that were declared since the last event may be bound, and they are not kept
    anywhere else. -/
structure Proper (law : Form → Bool) (past : Log) (s : State) : Prop extends s.Lexical where
  grown : ∀ entry ∈ past, entry.2.memory.arrays.size ≤ s.memory.arrays.size
  bound (n : Nat) : ∀ b ∈ (s.frame (.numbered n)).bindings, s.Binds law b.2
  elements (r : ArrayRef) : ∀ v ∈ s.memory.elements r, v.Coded law ∧ v.Shown past
  results (t : ThunkRef) (v : Value) : (s.memory.thunk t).phase = .forced v → v.Coded law ∧ v.Shown past
  expressions (t : ThunkRef) : t.index < s.memory.thunks.size → (s.memory.thunk t).expression.all law = true

/-- Whether one more step is allowed. -/
def MayStep (settings : Settings) (s : State) : Prop := ∀ limit, settings.maxSteps = some limit → s.steps + 1 ≤ limit

/-- The state in which the entry of a node is announced. -/
def entering (s : State) (n : NodeSummary) : State := { s.enterNode n with lastEvent := some (.enter n) }

/-- The state in which it is announced that a node is left. -/
def leaving (s : State) (n : NodeSummary) : State := { s.leaveNode with lastEvent := some (.exit n) }

/-- The state in which a call has its frame and its record. -/
def calling (s : State) (name : String) : State :=
  (s.pushInside (.call name) .global).2.pushCall ⟨name, s.top.number, s.frames.size⟩

/-- The state in which a thunk is being computed in its own frame. -/
def computing (s : State) (t : ThunkRef) : State := (s.setPhase t .forcing).reenter (s.memory.thunk t).home

/-- A thunk that waits is the one that is being computed then. -/
theorem thunk_computing {s : State} {t : ThunkRef} (waits : (s.memory.thunk t).phase = .pending) :
    (s.computing t).memory.thunk t = { s.memory.thunk t with phase := .forcing } := by
  show (s.memory.setPhase t .forcing).thunk t = _
  rw [Memory.thunk_setPhase, if_pos ⟨rfl, Memory.lt_of_phase fun v forced => nomatch waits.symm.trans forced⟩]

theorem thunk_computing_of_ne {s : State} {t q : ThunkRef} (other : q ≠ t) :
    (s.computing t).memory.thunk q = s.memory.thunk q := by
  show (s.memory.setPhase t .forcing).thunk q = _
  rw [Memory.thunk_setPhase, if_neg fun both => other both.1]

/-- No thunk begins to wait when another one is computed. -/
theorem waiting_of_computing {s : State} {t q : ThunkRef} (pending : (s.memory.thunk t).phase = .pending)
    (waits : ((s.computing t).memory.thunk q).phase = .pending) : (s.memory.thunk q).phase = .pending := by
  by_cases same : q = t
  · rw [same]
    exact pending
  · rwa [thunk_computing_of_ne same] at waits

end State

/-! ## Actions -/

/-- What a single action does to a state, by code of permitted forms, after the events of a
    log. Variables are declared in the frame on top only if the flag says so. -/
inductive Act (law : Form → Bool) (settings : Settings) : Bool → Log → State → State → Prop
  | write {b : Bool} {past : Log} {s : State} (text : String) : Act law settings b past s (s.write text)
  | newArray {b : Bool} {past : Log} {s : State} {elements : Array Value} (settled : ∀ v ∈ elements, v.Settled law past) :
      Act law settings b past s { s with memory := (s.memory.newArray elements).2 }
  | newClosure {b : Bool} {past : Log} {s : State} (name : Option String) (params : List Param) (body : Node) :
      Act law settings b past s { s with memory := (s.memory.newClosure name params body).2 }
  | delay {b : Bool} {past : Log} {s : State} {declarators : List Declarator} {d : Declarator} {initial : Node}
      (kind : Kind) (put : settings.strategy = .lazy) (permitted : law (.declaration declarators) = true)
      (among : d ∈ declarators) (given : d.initial = some initial) (code : (initial.castTo kind).all law = true) :
      Act law settings b past s { s with memory := (s.memory.newThunk (initial.castTo kind) s.top).2 }
  | declare {past : Log} {s : State} {name : String} {kind : Kind} {v : Value} (free : s.get? s.top name = none)
      (settled : v.Settled law past) (fits : v.Fits kind) : Act law settings true past s (s.bind s.top name ⟨kind, v⟩)
  | declareLazy {past : Log} {s : State} {name : String} {kind : Kind} {t : ThunkRef} {e : Node}
      (free : s.get? s.top name = none) (made : t.index < s.memory.thunks.size)
      (fresh : s.memory.thunk t = ⟨e.castTo kind, s.top, .pending⟩) :
      Act law settings true past s (s.bind s.top name ⟨kind, .lazy t⟩)
  | declareArray {past : Log} {s : State} {declarators : List Declarator} {d : Declarator} {name : String} {kind : Kind}
      {elements : Array Value} (permitted : law (.declaration declarators) = true) (among : d ∈ declarators)
      (sized : d.size.isSome = true) (declared : d.id.declared = .ok (name, kind)) (free : s.get? s.top name = none)
      (settled : ∀ v ∈ elements, v.Settled law past) (fits : ∀ v ∈ elements, v.Fits kind) :
      Act law settings true past s
        (State.bind { s with memory := (s.memory.newArray elements).2 } s.top name
          ⟨kind.pointerTo, .array (s.memory.newArray elements).1⟩)
  | declareFunction {b : Bool} {past : Log} {s : State} {id : Node} {params : List Node} {body : Node} {name : String}
      {kind : Kind} {c : Closure} (permitted : law (.function id params body) = true)
      (declared : id.declared = .ok (name, kind)) (code : c.body.all law = true)
      (replaces : s.global? name = none ∨ ∃ old before, s.global? name = some ⟨old, .closure before⟩) :
      Act law settings b past s (s.bind .global name ⟨kind, .closure c⟩)

/-- The right side of a permitted assignment may declare variables if what happens between
    the look-up of the target and the assignment does. -/
def Between (law : Form → Bool) (introduces : Bool) : Prop :=
  introduces = true → ∃ op left right, law (.assign op left right) = true ∧ right.introduces = true

/-! ## Passages -/

/-- What successful evaluations do after the events of a log, with what they announce. -/
inductive Passage (law : Form → Bool) (settings : Settings) : Bool → Log → State → Log → State → Prop
  | nil {b : Bool} {past : Log} {s : State} : Passage law settings b past s [] s
  | append {b : Bool} {past : Log} {s s₁ s₂ : State} {log more : Log} (first : Passage law settings b past s log s₁)
      (second : Passage law settings b (past ++ log) s₁ more s₂) : Passage law settings b past s (log ++ more) s₂
  | calm {b : Bool} {past : Log} {s s' : State} {log : Log} (inner : Passage law settings false past s log s') :
      Passage law settings b past s log s'
  | act {b : Bool} {past : Log} {s s' : State} (action : Act law settings b past s s') :
      Passage law settings b past s [] s'
  | visit {b : Bool} {past : Log} {s s₁ : State} {log : Log} (n : NodeSummary) (may : s.MayStep settings)
      (inner : Passage law settings b (past ++ [(.enter n, s.entering n)]) (s.entering n) log s₁) :
      Passage law settings b past s ((.enter n, s.entering n) :: (log ++ [(.exit n, s₁.leaving n)])) (s₁.leaving n)
  | frame {b c : Bool} {past : Log} {s s₁ : State} {log : Log} (tag : FrameTag)
      (inner : Passage law settings c past (s.push tag).2 log s₁) : Passage law settings b past s log s₁.dropTop
  | call {b c : Bool} {past : Log} {s s₁ : State} {log : Log} (name : String) (may : s.callDepth < settings.maxCallDepth)
      (inner : Passage law settings c past (s.calling name) log s₁) :
      Passage law settings b past s log s₁.dropTop.popCall
  | thunk {b : Bool} {past : Log} {s s₁ : State} {log : Log} {t : ThunkRef} {v : Value}
      (waits : (s.memory.thunk t).phase = .pending) (seen : (s.memory.thunk t).home ∈ s.scope)
      (inner : Passage law settings (s.memory.thunk t).expression.introduces past (s.computing t) log s₁)
      (settled : v.Settled law (past ++ log))
      (fits : ∀ (e : Node) k, (s.memory.thunk t).expression = e.castTo k → v.Fits k) :
      Passage law settings b past s log (s₁.dropTop.setPhase t (.forced v))
  | store {b : Bool} {past : Log} {s s₁ : State} {log : Log} {name : String} {span : Option Span} {old : Binding}
      {v : Value} (found : s.lookup name span = .ok old) (inner : Passage law settings b past s log s₁)
      (between : Between law b) (bound : (s₁.lookupFrame? name).isSome = true) (settled : v.Settled law (past ++ log))
      (fits : v.Fits old.kind) : Passage law settings b past s log (s₁.store name v)
  | storeElement {b : Bool} {past : Log} {s s₁ : State} {log : Log} {r : ArrayRef} {i : Nat} {v : Value}
      (inner : Passage law settings b past s log s₁) (settled : v.Settled law (past ++ log)) :
      Passage law settings b past s log { s₁ with memory := s₁.memory.setElement r i v }

/-- What evaluations have done that are cut short, with what they have announced. -/
inductive Broken (law : Form → Bool) (settings : Settings) : Log → State → Log → State → Prop
  | here {past : Log} {s : State} : Broken law settings past s [] s
  | after {b : Bool} {past : Log} {s s₁ s₂ : State} {log more : Log} (first : Passage law settings b past s log s₁)
      (second : Broken law settings (past ++ log) s₁ more s₂) : Broken law settings past s (log ++ more) s₂
  | refused {past : Log} {s : State} (n : NodeSummary) (limit : Nat) (reached : settings.maxSteps = some limit)
      (beyond : limit < s.steps + 1) : Broken law settings past s [] (s.enterNode n)
  | visit {past : Log} {s s₁ : State} {log : Log} (n : NodeSummary) (may : s.MayStep settings)
      (inner : Broken law settings (past ++ [(.enter n, s.entering n)]) (s.entering n) log s₁) :
      Broken law settings past s ((.enter n, s.entering n) :: log) s₁
  | frame {past : Log} {s s₁ : State} {log : Log} (tag : FrameTag)
      (inner : Broken law settings past (s.push tag).2 log s₁) : Broken law settings past s log s₁
  | call {past : Log} {s s₁ : State} {log : Log} (name : String) (may : s.callDepth < settings.maxCallDepth)
      (inner : Broken law settings past (s.calling name) log s₁) : Broken law settings past s log s₁
  | thunk {past : Log} {s s₁ : State} {log : Log} {t : ThunkRef} (waits : (s.memory.thunk t).phase = .pending)
      (seen : (s.memory.thunk t).home ∈ s.scope) (inner : Broken law settings past (s.computing t) log s₁) :
      Broken law settings past s log (s₁.setPhase t .pending)

/-! ## Balance -/

section balance
variable {law : Form → Bool} {settings : Settings} {b : Bool} {s s' : State} {past log : Log}

theorem Act.control (h : Act law settings b past s s') : s'.stack = s.stack ∧ s'.calls = s.calls := by
  cases h <;> simp [State.write]

/-- A passage leaves the chain and the calls as they were. -/
theorem Passage.control (h : Passage law settings b past s log s') : s'.stack = s.stack ∧ s'.calls = s.calls := by
  induction h with
  | nil => exact ⟨rfl, rfl⟩
  | append first second ih ih' => exact ⟨ih'.1.trans ih.1, ih'.2.trans ih.2⟩
  | calm inner ih => exact ih
  | act action => exact action.control
  | visit n may inner ih => exact ih
  | frame tag inner ih =>
    rw [State.dropTop_stack, State.dropTop_calls, ih.1, ih.2]
    exact ⟨rfl, rfl⟩
  | call name may inner ih =>
    simp only [State.popCall, State.dropTop_stack, State.dropTop_calls, ih.1, ih.2]
    exact ⟨rfl, rfl⟩
  | thunk waits seen inner settled fits ih =>
    simp only [State.setPhase, State.dropTop_stack, State.dropTop_calls, ih.1, ih.2]
    exact ⟨rfl, rfl⟩
  | store found inner between bound settled fits ih => simpa using ih
  | storeElement inner settled ih => exact ih

theorem Passage.top (h : Passage law settings b past s log s') : s'.top = s.top := by
  rw [State.top, State.top, h.control.1]

end balance

/-! ## Logs -/

/-- Something holds of each event of a log, after those of another log and those before it. -/
def Log.Holds (p : Log → Event × State → Prop) : Log → Log → Prop
  | _, [] => True
  | past, entry :: rest => p past entry ∧ Holds p (past ++ [entry]) rest

section logs
variable {p : Log → Event × State → Prop} {past log more : Log}

theorem Log.holds_append : Holds p past (log ++ more) ↔ Holds p past log ∧ Holds p (past ++ log) more := by
  induction log generalizing past with
  | nil => simp [Holds]
  | cons entry rest ih => simp [Holds, ih, and_assoc]

/-- What holds along the events of a visit. -/
theorem Log.holds_around {first last : Event × State} : Holds p past (first :: (log ++ [last])) ↔
    p past first ∧ Holds p (past ++ [first]) log ∧ p (past ++ [first] ++ log) last := by
  rw [Holds, holds_append, Holds, Holds, and_true]

theorem Log.Holds.mid {entry : Event × State} (h : Holds p past (log ++ entry :: more)) : p (past ++ log) entry :=
  (holds_append.mp h).2.1

theorem Log.Holds.of_mem (h : Holds p past log) {entry : Event × State} (member : entry ∈ log) : ∃ before, p before entry := by
  obtain ⟨before, after, rfl⟩ := List.append_of_mem member
  exact ⟨_, h.mid⟩

end logs

/-- What holds of the events of a visit holds of its entry, of those between and of its exit. -/
theorem Log.forall_around {p : Event × State → Prop} {first last : Event × State} {log : Log} :
    (∀ entry ∈ first :: (log ++ [last]), p entry) ↔ p first ∧ (∀ entry ∈ log, p entry) ∧ p last := by
  simp [or_imp, forall_and]

/-! ## Proper states -/

namespace State
variable {law : Form → Bool} {s s' : State} {past more : Log}

theorem Proper.lexical (h : s.Proper law past) : s.Lexical := h.toLexical

/-- What is kept exists. -/
theorem Proper.reaches (h : s.Proper law past) {v : Value} (shown : v.Shown past) : s.memory.Reaches v := by
  intro r same
  obtain ⟨entry, member, inside⟩ := shown r same
  exact Nat.lt_of_lt_of_le inside (h.grown entry member)

/-- What is proper in a lexical state after a change: what was there, unless it is new. -/
theorem Proper.change (h : s.Proper law past) (lexical : s'.Lexical)
    (grows : s.memory.arrays.size ≤ s'.memory.arrays.size)
    (bound : ∀ n, ∀ b ∈ (s'.frame (.numbered n)).bindings,
      b ∈ (s.frame (.numbered n)).bindings ∨ s'.Binds law b.2)
    (thunks : ∀ t : ThunkRef, t.index < s.memory.thunks.size →
      (s'.memory.thunk t).expression = (s.memory.thunk t).expression)
    (expressions : ∀ t : ThunkRef, t.index < s'.memory.thunks.size →
      t.index < s.memory.thunks.size ∨ (s'.memory.thunk t).expression.all law = true)
    (elements : ∀ r, ∀ v ∈ s'.memory.elements r, v ∈ s.memory.elements r ∨ v.Settled law past)
    (results : ∀ t v, (s'.memory.thunk t).phase = .forced v →
      (s.memory.thunk t).phase = .forced v ∨ v.Settled law past) : s'.Proper law past := by
  refine ⟨lexical, fun entry member => Nat.le_trans (h.grown entry member) grows, fun n b member => ?_,
    fun r v member => ?_, fun t v forced => ?_, fun t inside => ?_⟩
  · rcases bound n b member with old | new
    · refine ⟨(h.bound n b old).coded, fun r same => ?_, fun t same => ?_⟩
      · exact Nat.lt_of_lt_of_le ((h.bound n b old).reached r same) grows
      · rw [thunks t (h.bindings n b old t same).1]
        exact (h.bound n b old).delayed t same
    · exact new
  · exact (elements r v member).elim (h.elements r v) fun settled => ⟨settled.coded, settled.shown⟩
  · exact (results t v forced).elim (h.results t v) fun settled => ⟨settled.coded, settled.shown⟩
  · rcases expressions t inside with old | new
    · rw [thunks t old]
      exact h.expressions t old
    · exact new

/-- Nothing changes that is kept in the frames and in the memory. -/
theorem Proper.still (h : s.Proper law past) (lexical : s'.Lexical) (memory : s'.memory = s.memory)
    (bound : ∀ n, ∀ b ∈ (s'.frame (.numbered n)).bindings, b ∈ (s.frame (.numbered n)).bindings) :
    s'.Proper law past := by
  refine h.change lexical (by rw [memory]) (fun n b member => .inl (bound n b member)) ?_ ?_ ?_ ?_
  · exact fun t _ => by rw [memory]
  · exact fun t inside => by rw [memory] at inside; exact .inl inside
  · exact fun r v member => by rw [memory] at member; exact .inl member
  · exact fun t v forced => by rw [memory] at forced; exact .inl forced

theorem Proper.restack (h : s.Proper law past) (frames : s'.frames = s.frames) (memory : s'.memory = s.memory)
    (stacked : s.Stacked s'.stack) : s'.Proper law past := by
  refine h.still (h.lexical.restack frames memory stacked) memory fun n b member => ?_
  simpa only [frame, frames] using member

/-- A state is proper after the events that show it. -/
theorem Proper.announce (h : s.Proper law past)
    (seen : ∀ entry ∈ more, entry.2.memory.arrays.size ≤ s.memory.arrays.size) : s.Proper law (past ++ more) :=
  { h with
    grown := List.forall_mem_append.mpr ⟨h.grown, seen⟩
    elements := fun r v member => ⟨(h.elements r v member).1, (h.elements r v member).2.append more⟩
    results := fun t v forced => ⟨(h.results t v forced).1, (h.results t v forced).2.append more⟩ }

/-- The bindings of a frame change. -/
theorem Proper.modifyBindings (h : s.Proper law past) {n : Nat} {f : Bindings → Bindings}
    (own : ∀ b ∈ f (s.frame (.numbered n)).bindings, s.Own (.numbered n) b.2.value)
    (bound : ∀ b ∈ f (s.frame (.numbered n)).bindings, s.Binds law b.2) :
    (s.modifyBindings (.numbered n) f).Proper law past := by
  refine h.change (h.lexical.modifyBindings own) (by simp) (fun k b member => ?_) (by simp) (by simp; grind)
    (by simp; grind) (by simp; grind)
  rw [frame_modifyBindings] at member
  split at member
  · rename_i same
    obtain ⟨rfl, -⟩ := same
    obtain ⟨coded, reached, delayed⟩ := bound b member
    exact .inr ⟨coded, by simpa using reached, by simpa using delayed⟩
  · exact .inl member

theorem Proper.bind (h : s.Proper law past) {n : Nat} {name : String} {b : Binding} (own : s.Own (.numbered n) b.value)
    (bound : s.Binds law b) : (s.bind (.numbered n) name b).Proper law past := by
  refine h.modifyBindings (fun item member => ?_) fun item member => ?_
  · rcases Bindings.mem_insert member with old | new
    · exact h.bindings n item old
    · rw [new]
      exact own
  · rcases Bindings.mem_insert member with old | new
    · exact h.bound n item old
    · rw [new]
      exact bound

/-- What can be kept can be bound under any kind. -/
theorem Proper.binds (h : s.Proper law past) {kind : Kind} {v : Value} (settled : v.Settled law past) :
    s.Binds law ⟨kind, v⟩ := by
  refine ⟨settled.coded, h.reaches settled.shown, fun t same => ?_⟩
  have plain := settled.plain
  rw [show v = .lazy t from same] at plain
  cases plain

theorem Proper.store (h : s.Proper law past) {name : String} {v : Value} (settled : v.Settled law past) :
    (s.store name v).Proper law past := by
  unfold State.store
  split
  · rename_i r found
    obtain ⟨-, numbered⟩ := h.lexical.numbered_of_mem_scope (List.mem_of_find?_eq_some found)
    rw [numbered]
    refine h.modifyBindings (fun item member => ?_) fun item member => ?_
    · rcases Bindings.mem_update member with old | ⟨old, -, new⟩
      · exact h.bindings _ item old
      · rw [new]
        exact settled.plain.own s _
    · rcases Bindings.mem_update member with old | ⟨old, -, new⟩
      · exact h.bound _ item old
      · rw [new]
        exact h.binds settled
  · exact h

theorem Proper.pushInside (h : s.Proper law past) (tag : FrameTag) {parent : FrameRef}
    (allowed : parent = s.top ∨ parent = .global) : (s.pushInside tag parent).2.Proper law past := by
  refine h.still (h.lexical.pushInside tag allowed) rfl fun n b member => ?_
  rw [frame_pushInside] at member
  split at member
  · cases member
  · exact member

theorem Proper.clearIfGone (h : s.Proper law past) (r : FrameRef) (rest : List FrameRef) :
    (s.clearIfGone r rest).Proper law past :=
  h.still (h.lexical.clearIfGone r rest) (s.clearIfGone_memory r rest) fun _ _ => mem_of_clearIfGone

theorem Proper.dropTop (h : s.Proper law past) : s.dropTop.Proper law past :=
  h.still h.lexical.dropTop s.dropTop_memory fun _ _ => mem_of_dropTop

theorem Proper.clearAll : ∀ {s : State}, s.Proper law past → ∀ stack : List FrameRef, (s.clearAll stack).Proper law past
  | _, h, [] => h
  | _, h, r :: rest => clearAll (h.clearIfGone r rest) rest

theorem Proper.unwind (h : s.Proper law past) : s.unwind.Proper law past :=
  (h.clearAll s.stack).restack rfl rfl .base

theorem Proper.beginEvaluation (h : s.Proper law past) : s.beginEvaluation.Proper law past :=
  h.unwind.restack rfl rfl h.unwind.stacked

theorem Proper.recover (h : s.Proper law past) (e : EvalError) : (s.recover e).Proper law past := by
  have recorded : State.Proper law past { s with errors := s.errors.push e } := h.restack rfl rfl h.stacked
  exact recorded.unwind.restack rfl rfl recorded.unwind.stacked

theorem Proper.newArray (h : s.Proper law past) {elements : Array Value} (settled : ∀ v ∈ elements, v.Settled law past) :
    State.Proper law past { s with memory := (s.memory.newArray elements).2 } := by
  refine h.change (h.lexical.newArray fun v member => (settled v member).plain) ?_ (fun _ _ => .inl) (fun _ _ => rfl)
    (fun _ => .inl) (fun r v member => ?_) fun _ _ => .inl
  · simp [Memory.newArray]
  · rw [Memory.elements_newArray] at member
    split at member
    · exact .inr (settled v member)
    · exact .inl member

theorem Proper.setElement (h : s.Proper law past) (r : ArrayRef) (i : Nat) {w : Value} (settled : w.Settled law past) :
    State.Proper law past { s with memory := s.memory.setElement r i w } := by
  refine h.change (h.lexical.setElement settled.plain) ?_ (fun _ _ => .inl) (fun _ _ => rfl) (fun _ => .inl)
    (fun q v member => ?_) fun _ _ => .inl
  · simp [Memory.setElement]
  · rcases Memory.mem_elements_setElement member with old | rfl
    · exact .inl old
    · exact .inr settled

theorem Proper.newClosure (h : s.Proper law past) (name : Option String) (params : List Param) (body : Node) :
    State.Proper law past { s with memory := (s.memory.newClosure name params body).2 } :=
  h.change (h.lexical.remember _ (fun _ inside => ⟨inside, rfl⟩) h.arrays h.memos) (Nat.le_refl _) (fun _ _ => .inl)
    (fun _ _ => rfl) (fun _ => .inl) (fun _ _ => .inl) fun _ _ => .inl

theorem Proper.newThunk (h : s.Proper law past) {e : Node} (code : e.all law = true) (home : FrameRef) :
    State.Proper law past { s with memory := (s.memory.newThunk e home).2 } := by
  refine h.change (h.lexical.newThunk e home) (Nat.le_refl _) (fun _ _ => .inl) (fun t inside => ?_)
    (fun t inside => ?_) (fun _ _ => .inl) fun t v forced => ?_
  · rw [Memory.thunk_newThunk e home inside]
  · rcases Memory.thunk_newThunk_of_lt inside with ⟨old, -⟩ | ⟨-, new⟩
    · exact .inl old
    · dsimp only
      rw [new]
      exact .inr code
  · refine .inl ?_
    dsimp only at forced
    rwa [Memory.thunk_newThunk_of_forced forced] at forced

theorem Proper.setPhase (h : s.Proper law past) {t : ThunkRef} {phase : Phase}
    (settled : ∀ v, phase = .forced v → v.Settled law past) : (s.setPhase t phase).Proper law past := by
  refine h.change (h.lexical.setPhase fun v same => (settled v same).plain) (Nat.le_refl _) (fun _ _ => .inl)
    (fun q _ => ?_) (fun q inside => ?_) (fun _ _ => .inl) fun q v forced => ?_
  · unfold State.setPhase
    rw [Memory.thunk_setPhase]
    split <;> rfl
  · exact .inl (by simpa [State.setPhase] using inside)
  · unfold State.setPhase at forced
    rw [Memory.thunk_setPhase] at forced
    split at forced
    · exact .inr (settled v forced)
    · exact .inl forced

theorem Proper.entering (h : s.Proper law past) (n : NodeSummary) :
    (s.entering n).Proper law (past ++ [(.enter n, s.entering n)]) :=
  have entered : (s.entering n).Proper law past := h.restack rfl rfl h.stacked
  entered.announce (by simp)

theorem Proper.leaving (h : s.Proper law past) (n : NodeSummary) :
    (s.leaving n).Proper law (past ++ [(.exit n, s.leaving n)]) :=
  have left : (s.leaving n).Proper law past := h.restack rfl rfl h.stacked
  left.announce (by simp)

theorem Proper.calling (h : s.Proper law past) (name : String) : (s.calling name).Proper law past :=
  have pushed := h.pushInside (.call name) (.inr rfl)
  pushed.restack rfl rfl pushed.stacked

/-- A thunk of a frame of the scope re-enters that frame. -/
theorem Proper.computing (h : s.Proper law past) {t : ThunkRef} (seen : (s.memory.thunk t).home ∈ s.scope) :
    (s.computing t).Proper law past := by
  have forcing : (s.setPhase t .forcing).Proper law past := h.setPhase nofun
  obtain ⟨inside, numbered⟩ := h.lexical.numbered_of_mem_scope seen
  refine forcing.restack rfl rfl ?_
  show State.Stacked _ ((s.memory.thunk t).home :: (s.setPhase t .forcing).stack)
  rw [numbered] at seen ⊢
  exact .reenter inside forcing.stacked seen

end State

section proper
variable {law : Form → Bool} {settings : Settings} {b : Bool} {s s' : State} {past log : Log}

theorem Act.proper (action : Act law settings b past s s') (h : s.Proper law past) : s'.Proper law past := by
  obtain ⟨n, inside, top⟩ := h.lexical.top_inside
  cases action with
  | write text => exact h.restack rfl rfl h.stacked
  | newArray settled => exact h.newArray settled
  | newClosure name params body => exact h.newClosure name params body
  | delay kind put permitted among given code => exact h.newThunk code s.top
  | declare free settled fits =>
    rw [top]
    exact h.bind (settled.plain.own s _) (h.binds settled)
  | @declareLazy _ _ name kind t e free made fresh =>
    rw [top] at fresh ⊢
    refine h.bind (fun q same => ?_) ⟨by rintro c ⟨⟩, by rintro r ⟨⟩, fun q same => ?_⟩
    · cases same
      exact ⟨made, by rw [fresh]⟩
    · cases same
      exact ⟨e, by rw [fresh]⟩
  | declareArray permitted among sized declared free settled fits =>
    rw [top]
    refine (h.newArray settled).bind (Value.Plain.own (rfl : Value.Plain (.array _)) _ _)
      ⟨by rintro c ⟨⟩, fun r same => ?_, by rintro t ⟨⟩⟩
    cases same
    simp [Memory.newArray]
  | declareFunction permitted declared code replaces =>
    refine h.bind (Value.Plain.own (rfl : Value.Plain (.closure _)) s _) ⟨fun c same => ?_, by rintro r ⟨⟩, by rintro t ⟨⟩⟩
    cases same
    exact code

/-- A passage leads from a proper state to a proper one. -/
theorem Passage.proper (passage : Passage law settings b past s log s') (h : s.Proper law past) :
    s'.Proper law (past ++ log) := by
  induction passage with
  | nil => rwa [List.append_nil]
  | append first second ih ih' =>
    rw [← List.append_assoc]
    exact ih' (ih h)
  | calm inner ih => exact ih h
  | act action =>
    rw [List.append_nil]
    exact action.proper h
  | @visit _ past s s₁ log n may inner ih =>
    have last := (ih (h.entering n)).leaving n
    simpa using last
  | frame tag inner ih => exact (ih (h.pushInside tag (.inl rfl))).dropTop
  | call name may inner ih =>
    have last := (ih (h.calling name)).dropTop
    exact last.restack rfl rfl last.stacked
  | thunk waits seen inner settled fits ih =>
    refine (ih (h.computing seen)).dropTop.setPhase fun w same => ?_
    cases same
    exact settled
  | store found inner between bound settled fits ih => exact (ih h).store settled
  | storeElement inner settled ih => exact (ih h).setElement _ _ settled

theorem Broken.proper (broken : Broken law settings past s log s') (h : s.Proper law past) :
    s'.Proper law (past ++ log) := by
  induction broken with
  | here => rwa [List.append_nil]
  | after first second ih =>
    rw [← List.append_assoc]
    exact ih (first.proper h)
  | refused n limit reached beyond =>
    rw [List.append_nil]
    exact h.restack rfl rfl h.stacked
  | visit n may inner ih => simpa using ih (h.entering n)
  | frame tag inner ih => exact ih (h.pushInside tag (.inl rfl))
  | call name may inner ih => exact ih (h.calling name)
  | thunk waits seen inner ih => exact (ih (h.computing seen)).setPhase nofun

/-- What the events of a passage show are proper states. -/
theorem Passage.proper_log (passage : Passage law settings b past s log s') (h : s.Proper law past) :
    Log.Holds (fun before entry => entry.2.Proper law (before ++ [entry])) past log := by
  induction passage with
  | nil | act => trivial
  | append first second ih ih' => exact Log.holds_append.mpr ⟨ih h, ih' (first.proper h)⟩
  | calm inner ih => exact ih h
  | visit n may inner ih =>
    exact Log.holds_around.mpr ⟨h.entering n, ih (h.entering n), (inner.proper (h.entering n)).leaving n⟩
  | frame tag inner ih => exact ih (h.pushInside tag (.inl rfl))
  | call name may inner ih => exact ih (h.calling name)
  | thunk waits seen inner settled fits ih => exact ih (h.computing seen)
  | store found inner between bound settled fits ih => exact ih h
  | storeElement inner settled ih => exact ih h

theorem Broken.proper_log (broken : Broken law settings past s log s') (h : s.Proper law past) :
    Log.Holds (fun before entry => entry.2.Proper law (before ++ [entry])) past log := by
  induction broken with
  | here | refused => trivial
  | after first second ih => exact Log.holds_append.mpr ⟨first.proper_log h, ih (first.proper h)⟩
  | visit n may inner ih => exact ⟨h.entering n, ih (h.entering n)⟩
  | frame tag inner ih => exact ih (h.pushInside tag (.inl rfl))
  | call name may inner ih => exact ih (h.calling name)
  | thunk waits seen inner ih => exact ih (h.computing seen)

end proper

/-! ## Relations along passages -/

/-- The states of a log lie between two states in the order of some relation. -/
structure Log.Along (R : State → State → Prop) (s : State) (log : Log) (s' : State) : Prop where
  whole : R s s'
  onward : ∀ entry ∈ log, R s entry.2
  back : ∀ entry ∈ log, R entry.2 s'
  pairs : log.Pairwise fun entry next => R entry.2 next.2

namespace Log.Along
variable {R : State → State → Prop} {s s' s₀ s₁ s₂ : State} {log more : Log}

theorem nil (step : R s s') : Along R s [] s' :=
  ⟨step, List.forall_mem_nil _, List.forall_mem_nil _, .nil⟩

theorem append (trans : ∀ {x y z}, R x y → R y z → R x z) (h : Along R s log s₁) (h' : Along R s₁ more s₂) :
    Along R s (log ++ more) s₂ where
  whole := trans h.whole h'.whole
  onward := List.forall_mem_append.mpr ⟨h.onward, fun entry member => trans h.whole (h'.onward entry member)⟩
  back := List.forall_mem_append.mpr ⟨fun entry member => trans (h.back entry member) h'.whole, h'.back⟩
  pairs := List.pairwise_append.mpr ⟨h.pairs, h'.pairs, fun entry member next member' =>
    trans (h.back entry member) (h'.onward next member')⟩

/-- What comes before the log and after it belongs to the way. -/
theorem around (trans : ∀ {x y z}, R x y → R y z → R x z) (before : R s₀ s) (h : Along R s log s₁) (after : R s₁ s₂) :
    Along R s₀ log s₂ where
  whole := trans before (trans h.whole after)
  onward entry member := trans before (h.onward entry member)
  back entry member := trans (h.back entry member) after
  pairs := h.pairs

/-- An event shows the state that it leaves. -/
theorem single (refl : R s' s') (step : R s s') (e : Event) : Along R s [(e, s')] s' where
  whole := step
  onward := List.forall_mem_singleton.mpr step
  back := List.forall_mem_singleton.mpr refl
  pairs := List.pairwise_singleton _ _

end Log.Along

/-- A relation of states that everything that passages do respects. -/
structure Respected (law : Form → Bool) (settings : Settings) (R : State → State → Prop) : Prop where
  refl (s : State) : R s s
  trans {s s' s'' : State} : R s s' → R s' s'' → R s s''
  act {b : Bool} {past : Log} {s s' : State} : s.Proper law past → Act law settings b past s s' → R s s'
  count (s : State) (n : NodeSummary) : R s (s.enterNode n)
  entering (s : State) (n : NodeSummary) : R s (s.entering n)
  leaving (s : State) (n : NodeSummary) : R s (s.leaving n)
  push (s : State) (tag : FrameTag) : R s (s.push tag).2
  calling (s : State) (name : String) : R s (s.calling name)
  computing {s : State} {t : ThunkRef} : s.Lexical → (s.memory.thunk t).home ∈ s.scope → R s (s.computing t)
  dropTop {s : State} : s.Lexical → R s s.dropTop
  popCall (s : State) : R s s.popCall
  setPhase (s : State) (t : ThunkRef) (phase : Phase) : R s (s.setPhase t phase)
  store (s : State) (name : String) (v : Value) : R s (s.store name v)
  setElement (s : State) (r : ArrayRef) (i : Nat) (v : Value) : R s { s with memory := s.memory.setElement r i v }

section along
variable {law : Form → Bool} {settings : Settings} {R : State → State → Prop} {b : Bool} {s s' : State} {past log : Log}

/-- A passage goes along such a relation. -/
theorem Passage.along (passage : Passage law settings b past s log s') (respected : Respected law settings R)
    (h : s.Proper law past) : Log.Along R s log s' := by
  induction passage with
  | nil => exact .nil (respected.refl _)
  | append first second ih ih' => exact .append respected.trans (ih h) (ih' (first.proper h))
  | calm inner ih => exact ih h
  | act action => exact .nil (respected.act h action)
  | @visit _ _ s s₁ log n may inner ih =>
    have entered := Log.Along.single (respected.refl _) (respected.entering s n) (.enter n)
    have left := Log.Along.single (respected.refl _) (respected.leaving s₁ n) (.exit n)
    exact .append (R := R) respected.trans entered (.append (R := R) respected.trans (ih (h.entering n)) left)
  | frame tag inner ih =>
    have pushed := h.pushInside tag (.inl rfl)
    exact .around respected.trans (respected.push _ tag) (ih pushed) (respected.dropTop (inner.proper pushed).lexical)
  | call name may inner ih =>
    have dropped := respected.dropTop (inner.proper (h.calling name)).lexical
    exact .around respected.trans (respected.calling _ name) (ih (h.calling name))
      (respected.trans dropped (respected.popCall _))
  | thunk waits seen inner settled fits ih =>
    have dropped := respected.dropTop (inner.proper (h.computing seen)).lexical
    exact .around respected.trans (respected.computing h.lexical seen) (ih (h.computing seen))
      (respected.trans dropped (respected.setPhase _ _ _))
  | store found inner between bound settled fits ih =>
    exact .around respected.trans (respected.refl _) (ih h) (respected.store _ _ _)
  | storeElement inner settled ih =>
    exact .around respected.trans (respected.refl _) (ih h) (respected.setElement _ _ _ _)

theorem Broken.along (broken : Broken law settings past s log s') (respected : Respected law settings R)
    (h : s.Proper law past) : Log.Along R s log s' := by
  induction broken with
  | here => exact .nil (respected.refl _)
  | after first second ih => exact .append respected.trans (first.along respected h) (ih (first.proper h))
  | refused n limit reached beyond => exact .nil (respected.count _ n)
  | @visit _ s s₁ log n may inner ih =>
    have entered := Log.Along.single (respected.refl _) (respected.entering s n) (.enter n)
    exact .append (R := R) respected.trans entered (ih (h.entering n))
  | frame tag inner ih =>
    exact .around respected.trans (respected.push _ tag) (ih (h.pushInside tag (.inl rfl))) (respected.refl _)
  | call name may inner ih =>
    exact .around respected.trans (respected.calling _ name) (ih (h.calling name)) (respected.refl _)
  | thunk waits seen inner ih =>
    exact .around respected.trans (respected.computing h.lexical seen) (ih (h.computing seen)) (respected.setPhase _ _ _)

end along

/-! ## Lasting references -/

/-- What is never undone: frames and thunks stay what they are, no frame is detached, and as
    long as a frame is on the chain it stays there and keeps its names. -/
structure State.Leads (s s' : State) : Prop extends s.Grows s' where
  expressions (t : ThunkRef) : t.index < s.memory.thunks.size →
    (s'.memory.thunk t).expression = (s.memory.thunk t).expression
  detached : s'.detached.size = s.detached.size
  held (n : Nat) : n < s.frames.size → .numbered n ∈ s'.chain → .numbered n ∈ s.chain ∧
    ∀ name, (s.get? (.numbered n) name).isSome = true → (s'.get? (.numbered n) name).isSome = true

namespace State.Leads
variable {s s' s'' : State}

theorem trans (h : s.Leads s') (h' : s'.Leads s'') : s.Leads s'' := by
  refine ⟨h.toGrows.trans h'.toGrows, fun t inside => ?_, h'.detached.trans h.detached, fun n inside member => ?_⟩
  · rw [h'.expressions t (h.thunks t inside).1, h.expressions t inside]
  · obtain ⟨among, names⟩ := h'.held n (Nat.lt_of_lt_of_le inside h.frames) member
    obtain ⟨among', names'⟩ := h.held n inside among
    exact ⟨among', fun name bound => names name (names' name bound)⟩

/-- The memory and the stack change. -/
theorem remember (frames : s'.frames = s.frames) (detached : s'.detached = s.detached)
    (thunks : ∀ t : ThunkRef, t.index < s.memory.thunks.size → t.index < s'.memory.thunks.size ∧
      (s'.memory.thunk t).expression = (s.memory.thunk t).expression ∧
      (s'.memory.thunk t).home = (s.memory.thunk t).home)
    (stack : ∀ r ∈ s'.chain, r ∈ s.chain) : s.Leads s' := by
  have same (r : FrameRef) (n : Nat) (numbered : r = .numbered n) : s'.frame r = s.frame r := by
    rw [numbered, State.frame, State.frame, frames]
  refine ⟨⟨Nat.le_of_eq (by rw [frames]), fun n _ => by rw [same _ n rfl], fun t inside => ?_⟩, fun t inside => ?_,
    by rw [detached], fun n _ member => ⟨stack _ member, fun name bound => ?_⟩⟩
  · exact ⟨(thunks t inside).1, (thunks t inside).2.2⟩
  · exact (thunks t inside).2.1
  · rwa [State.get?, same _ n rfl]

theorem still (frames : s'.frames = s.frames) (detached : s'.detached = s.detached) (memory : s'.memory = s.memory)
    (stack : ∀ r ∈ s'.chain, r ∈ s.chain) : s.Leads s' := remember frames detached (fun t inside => by rw [memory]; exact ⟨inside, rfl, rfl⟩) stack

theorem refl (s : State) : s.Leads s := still rfl rfl rfl fun _ => id

/-- The bindings of a frame change, and no name is lost. -/
theorem modifyBindings {r : FrameRef} {f : Bindings → Bindings}
    (names : ∀ (b : Bindings) name, (b.get? name).isSome = true → ((f b).get? name).isSome = true) :
    s.Leads (s.modifyBindings r f) := by
  have chain : (s.modifyBindings r f).chain = s.chain := by rw [State.chain, State.chain, modifyBindings_stack]
  refine ⟨⟨Nat.le_of_eq (by simp), fun n _ => by simp, fun t inside => by simpa using inside⟩, fun t _ => by simp,
    by simp, fun n _ member => ⟨chain ▸ member, fun name bound => ?_⟩⟩
  cases r with
  | detached k => exact bound
  | numbered k =>
    rw [State.get?, frame_modifyBindings]
    split
    · exact names _ name bound
    · exact bound

theorem bind (s : State) (r : FrameRef) (name : String) (b : Binding) : s.Leads (s.bind r name b) := by
  refine modifyBindings fun bindings x bound => ?_
  rw [Bindings.get?_insert]
  split
  · rfl
  · exact bound

theorem store (s : State) (name : String) (v : Value) : s.Leads (s.store name v) := by
  unfold State.store
  split
  · refine modifyBindings fun bindings x bound => ?_
    rw [Bindings.get?_update]
    split
    · rwa [Option.isSome_map]
    · exact bound
  · exact refl s

/-- A frame is pushed and recorded. -/
theorem pushInside (tag : FrameTag) (parent : FrameRef) (frames : s'.frames = (s.pushInside tag parent).2.frames)
    (detached : s'.detached = s.detached) (memory : s'.memory = s.memory) (stack : s'.stack = .numbered s.frames.size :: s.stack) : s.Leads s' := by
  have same {n : Nat} (inside : n < s.frames.size) : s'.frame (.numbered n) = s.frame (.numbered n) := by
    rw [State.frame, frames]
    exact frame_pushInside_of_lt tag parent inside
  refine ⟨⟨?_, fun n inside => by rw [same inside], fun t inside => by rw [memory]; exact ⟨inside, rfl⟩⟩,
    fun t _ => by rw [memory], by rw [detached], fun n inside member => ⟨?_, fun name bound => ?_⟩⟩
  · rw [frames]
    simp [State.pushInside]
  · rw [State.chain, stack] at member
    rcases List.mem_cons.mp member with here | below
    · exact absurd (FrameRef.numbered.inj here) (Nat.ne_of_lt inside)
    · exact below
  · rwa [State.get?, same inside]

theorem dropTop (L : s.Lexical) : s.Leads s.dropTop := by
  have smaller : ∀ r ∈ s.dropTop.chain, r ∈ s.chain := by
    intro r member
    rw [State.chain, dropTop_stack] at member
    exact (List.mem_append.mp member).elim (fun h => List.mem_append_left _ (List.mem_of_mem_tail h))
      (List.mem_append_right _)
  refine ⟨⟨Nat.le_of_eq (by simp), fun n _ => ?_, fun t inside => by simpa using inside⟩, fun t _ => by simp,
    by simp, fun n _ member => ⟨smaller _ member, fun name bound => ?_⟩⟩
  · unfold State.dropTop State.clearIfGone
    split
    · rfl
    · split
      · rfl
      · rw [around_modifyBindings]
        rfl
  · rwa [State.get?, frame_dropTop_of_chain L member]

theorem setPhase (s : State) (t : ThunkRef) (phase : Phase) : s.Leads (s.setPhase t phase) := by
  refine remember rfl rfl (fun q inside => ?_) fun _ => id
  show q.index < (s.memory.setPhase t phase).thunks.size ∧ ((s.memory.setPhase t phase).thunk q).expression = _ ∧ 
    ((s.memory.setPhase t phase).thunk q).home = _
  rw [Memory.thunks_setPhase, Memory.thunk_setPhase]
  split
  · exact ⟨inside, rfl, rfl⟩
  · exact ⟨inside, rfl, rfl⟩

end State.Leads

section leads
variable {law : Form → Bool} {settings : Settings} {b : Bool} {s s' : State} {past log : Log}

theorem State.leads_entering (s : State) (n : NodeSummary) : s.Leads (s.entering n) := .still rfl rfl rfl fun _ => id

theorem State.leads_leaving (s : State) (n : NodeSummary) : s.Leads (s.leaving n) := .still rfl rfl rfl fun _ => id

theorem State.leads_calling (s : State) (name : String) : s.Leads (s.calling name) :=
  .pushInside (.call name) .global rfl rfl rfl rfl

theorem State.leads_computing (L : s.Lexical) {t : ThunkRef} (seen : (s.memory.thunk t).home ∈ s.scope) :
    s.Leads (s.computing t) := by
  refine (Leads.setPhase s t .forcing).trans (.still rfl rfl rfl fun r member => ?_)
  rcases List.mem_cons.mp member with rfl | below
  · exact L.mem_chain_of_mem_scope seen
  · exact below

theorem Act.leads (action : Act law settings b past s s') : s.Leads s' := by
  cases action with
  | write text => exact .still rfl rfl rfl fun _ => id
  | newArray | newClosure => exact .remember rfl rfl (fun _ inside => ⟨inside, rfl, rfl⟩) fun _ => id
  | delay kind put permitted among given code =>
    refine .remember rfl rfl (fun t inside => ?_) fun _ => id
    dsimp only
    rw [Memory.thunks_newThunk, Memory.thunk_newThunk _ _ inside]
    exact ⟨Nat.lt_succ_of_lt inside, rfl, rfl⟩
  | declare | declareLazy | declareFunction => exact .bind s _ _ _
  | @declareArray _ _ _ _ name kind elements =>
    have made : s.Leads { s with memory := (s.memory.newArray elements).2 } :=
      .remember rfl rfl (fun _ inside => ⟨inside, rfl, rfl⟩) fun _ => id
    exact made.trans (.bind _ _ _ _)

theorem State.leads_respected : Respected law settings State.Leads where
  refl := .refl
  trans := .trans
  act _ := Act.leads
  count _ _ := .still rfl rfl rfl fun _ => id
  entering := State.leads_entering
  leaving := State.leads_leaving
  push s tag := .pushInside tag s.top rfl rfl rfl rfl
  calling := State.leads_calling
  computing lexical seen := State.leads_computing lexical seen
  dropTop := .dropTop
  popCall _ := .still rfl rfl rfl fun _ => id
  setPhase := .setPhase
  store := .store
  setElement _ _ _ _ := .remember rfl rfl (fun _ inside => ⟨inside, rfl, rfl⟩) fun _ => id

/-- What a passage leads through is never undone. -/
theorem Passage.leads (passage : Passage law settings b past s log s') (h : s.Proper law past) :
    Log.Along State.Leads s log s' := passage.along State.leads_respected h

end leads
end MiniC
