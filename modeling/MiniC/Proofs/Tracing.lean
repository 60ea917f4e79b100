import MiniC.Proofs.Passage

/-!
# Tracing evaluations

From a proper state a successful evaluation makes a passage, and one that is cut short part
of a passage; and its observer is shown the log of that (`Eval.Traces`). The rules here are
for the primitive actions and for what encloses others: sequences, frames, calls, thunks,
assignments and visits.
-/

namespace MiniC
variable {σ α β : Type}

/-! ## Values in hand -/

namespace State

/-- A value that an evaluation may leave: it can be computed in the scope, its code is
    permitted, and it exists. -/
structure Makes (s : State) (law : Form → Bool) (v : Value) : Prop where
  held : s.Held v
  coded : v.Coded law
  reached : s.memory.Reaches v

/-- A value that a visit may leave: it is not newer than the last event either. -/
structure Yields (s : State) (law : Form → Bool) (past : Log) (v : Value) : Prop where
  held : s.Held v
  coded : v.Coded law
  shown : v.Shown past

/-- What the first value of a variable of some kind is like: it has been fitted to the kind,
    or it is a cast to the kind that was put off in the frame on top. -/
def Initial (s : State) (law : Form → Bool) (past : Log) (kind : Kind) (v : Value) : Prop :=
  (v.Settled law past ∧ v.Fits kind) ∨ ∃ (t : ThunkRef) (e : Node), v = .lazy t ∧ t.index < s.memory.thunks.size ∧
    s.memory.thunk t = ⟨e.castTo kind, s.top, .pending⟩

variable {s : State} {law : Form → Bool} {past : Log} {v : Value}

theorem Yields.makes (h : s.Yields law past v) (proper : s.Proper law past) : s.Makes law v :=
  ⟨h.held, h.coded, proper.reaches h.shown⟩

theorem Makes.settled (h : s.Makes law v) (plain : v.Plain) (shown : v.Shown past) : v.Settled law past :=
  ⟨plain, h.coded, shown⟩

theorem Proper.makes_lookup (proper : s.Proper law past) {name : String} {span : Option Span} {b : Binding}
    (found : s.lookup name span = .ok b) : s.Makes law b.value := by
  obtain ⟨r, among, bound⟩ := State.binding_of_lookup found
  obtain ⟨-, numbered⟩ := proper.lexical.numbered_of_mem_scope among
  rw [numbered] at bound
  have binds := proper.bound _ _ bound
  exact ⟨proper.lexical.held_lookup found, binds.coded, binds.reached⟩

theorem Proper.settled_element (proper : s.Proper law past) (r : ArrayRef) (i : Nat) :
    (s.memory.element r i).Settled law past := by
  have plain := proper.lexical.plain_element r i
  unfold Memory.element at plain ⊢
  rw [Array.getD_eq_getD_getElem?] at plain ⊢
  cases found : (s.memory.elements r)[i]? with
  | none => exact Value.settled_of_type rfl nofun nofun
  | some v =>
    rw [found] at plain
    obtain ⟨coded, shown⟩ := proper.elements r v (Array.mem_of_getElem? found)
    exact ⟨plain, coded, shown⟩

end State

theorem Value.Settled.yields {law : Form → Bool} {past : Log} {v : Value} (h : v.Settled law past) (s : State) :
    s.Yields law past v := ⟨h.plain.held s, h.coded, h.shown⟩

namespace Eval

/-! ## Sequences -/

/-- From proper states that `P` allows after a log, an evaluation makes a passage if it
    succeeds, and `Q` holds of its result in the state that is left and after the longer log;
    otherwise it makes part of a passage. Either way the observer is shown the log of that. -/
def Traces (law : Form → Bool) (ctx : Context σ) (b : Bool) (P : Log → State → Prop) (x : Eval σ α)
    (Q : Log → State → α → Prop) : Prop :=
  ∀ (past : Log) (m : Machine σ), m.state.Proper law past → P past m.state →
    match runOn x m with
    | (.ok a, m') => ∃ log, Passage law ctx.settings b past m.state log m'.state ∧
        m'.watch = ctx.observer.shown m.watch log ∧ Q (past ++ log) m'.state a
    | (.error _, m') => ∃ log, Broken law ctx.settings past m.state log m'.state ∧
        m'.watch = ctx.observer.shown m.watch log

/-- In any state. -/
abbrev Always : Log → State → Prop := fun _ _ => True

namespace Traces
variable {law : Form → Bool} {ctx : Context σ} {b c : Bool}
variable {P P' : Log → State → Prop} {Q Q' : Log → State → α → Prop} {R : Log → State → β → Prop}

theorem pure {a : α} (h : ∀ past s, s.Proper law past → P past s → Q past s a) : Traces law ctx b P (pure a) Q :=
  fun past m proper allowed => ⟨[], .nil, rfl, by rw [List.append_nil]; exact h past m.state proper allowed⟩

theorem stop (i : Interrupt) : Traces law ctx b P (throw i : Eval σ α) Q := fun _ _ _ _ => ⟨[], .here, rfl⟩

theorem fail (e : EvalError) : Traces law ctx b P (Eval.fail e : Eval σ α) Q := stop (.error e)

theorem bind {x : Eval σ α} {f : α → Eval σ β} (first : Traces law ctx b P x Q)
    (second : ∀ a, Traces law ctx b (Q · · a) (f a) R) : Traces law ctx b P (x >>= f) R := by
  intro past m proper allowed
  have begun := first past m proper allowed
  rw [runOn_bind]
  generalize runOn x m = ended at begun ⊢
  rcases ended with ⟨⟨i⟩ | ⟨a⟩, m₁⟩
  · exact begun
  · obtain ⟨log, passage, watched, holds⟩ := begun
    have done := second a (past ++ log) m₁ (passage.proper proper) holds
    dsimp only
    generalize runOn (f a) m₁ = ended at done ⊢
    rcases ended with ⟨⟨i⟩ | ⟨r⟩, m₂⟩
    · obtain ⟨more, broken, watched'⟩ := done
      exact ⟨log ++ more, .after passage broken, by rw [watched', watched, Observer.shown_append]⟩
    · obtain ⟨more, passage', watched', holds'⟩ := done
      refine ⟨log ++ more, .append passage passage', by rw [watched', watched, Observer.shown_append], ?_⟩
      rwa [← List.append_assoc]

/-- What is known of an evaluation holds from fewer states and of more results. -/
theorem imp {x : Eval σ α} (h : Traces law ctx b P x Q) (before : ∀ past s, P' past s → P past s)
    (after : ∀ past s a, s.Proper law past → Q past s a → Q' past s a) : Traces law ctx b P' x Q' := by
  intro past m proper allowed
  have done := h past m proper (before past m.state allowed)
  generalize runOn x m = ended at done ⊢
  rcases ended with ⟨⟨i⟩ | ⟨a⟩, m₁⟩
  · exact done
  · obtain ⟨log, passage, watched, holds⟩ := done
    exact ⟨log, passage, watched, after _ _ a (passage.proper proper) holds⟩

theorem weaken {x : Eval σ α} (h : Traces law ctx b P x Q) (before : ∀ past s, P' past s → P past s) :
    Traces law ctx b P' x Q := h.imp before fun _ _ _ _ => id

theorem conclude {x : Eval σ α} (h : Traces law ctx b P x Q)
    (after : ∀ past s a, s.Proper law past → Q past s a → Q' past s a) : Traces law ctx b P x Q' :=
  h.imp (fun _ _ => id) after

theorem anyhow {x : Eval σ α} (h : Traces law ctx b Always x Q) : Traces law ctx b P x Q := h.weaken fun _ _ _ => trivial

/-- What depends on nothing can be taken for granted. -/
theorem given {p : Prop} {x : Eval σ α} (h : p → Traces law ctx b Always x Q) : Traces law ctx b (fun _ _ => p) x Q :=
  fun past m proper holds => h holds past m proper trivial

/-- The state and the log from which an evaluation starts can be named. -/
theorem pinnedAt {x : Eval σ α} (h : ∀ s seen, s.Proper law seen → P seen s →
    Traces law ctx b (fun past t => past = seen ∧ t = s) x Q) : Traces law ctx b P x Q :=
  fun past m proper allowed => h m.state past proper allowed past m proper ⟨rfl, rfl⟩

/-- What lasts through passages lasts through an evaluation. -/
theorem carry {p : Log → State → Prop} {x : Eval σ α} (h : Traces law ctx b P x Q)
    (lasts : ∀ past s log s', s.Proper law past → Passage law ctx.settings b past s log s' → p past s →
      p (past ++ log) s') :
    Traces law ctx b (fun past s => p past s ∧ P past s) x fun past s a => p past s ∧ Q past s a := by
  intro past m proper allowed
  have done := h past m proper allowed.2
  generalize runOn x m = ended at done ⊢
  rcases ended with ⟨⟨i⟩ | ⟨a⟩, m₁⟩
  · exact done
  · obtain ⟨log, passage, watched, holds⟩ := done
    exact ⟨log, passage, watched, lasts past m.state log m₁.state proper passage allowed.1, holds⟩

/-- What is known of a log is known of every longer one. -/
theorem keep {p : Log → Prop} {x : Eval σ α} (h : Traces law ctx b P x Q)
    (lasts : ∀ past log, p past → p (past ++ log)) :
    Traces law ctx b (fun past s => p past ∧ P past s) x fun past s a => p past ∧ Q past s a :=
  h.carry (p := fun past _ => p past) fun past _ log _ _ _ => lasts past log

/-- An evaluation that declares nothing does nothing else than is allowed to one that may. -/
theorem widen {x : Eval σ α} (h : Traces law ctx c P x Q) (within : c = true → b = true) : Traces law ctx b P x Q := by
  cases c with
  | true => rwa [within rfl]
  | false =>
    intro past m proper allowed
    have done := h past m proper allowed
    generalize runOn x m = ended at done ⊢
    rcases ended with ⟨⟨i⟩ | ⟨a⟩, m₁⟩
    · exact done
    · obtain ⟨log, passage, watched, holds⟩ := done
      exact ⟨log, .calm passage, watched, holds⟩

/-- The state that is read is proper. -/
theorem read {f : State → Eval σ α}
    (h : ∀ s past, s.Proper law past → P past s → Traces law ctx b (fun seen t => t = s ∧ P seen t) (f s) Q) :
    Traces law ctx b P (Eval.state >>= f) Q :=
  fun past m proper allowed => h m.state past proper allowed past m proper ⟨rfl, allowed⟩

theorem ofExcept {x : Except EvalError α} (h : ∀ a, x = .ok a → ∀ past s, s.Proper law past → P past s → Q past s a) :
    Traces law ctx b P (Eval.ofExcept x) Q := by
  cases x with
  | ok a => exact pure (h a rfl)
  | error e => exact fail e

theorem discarded {x : Eval σ α} (h : Traces law ctx b P x Q) : Traces law ctx b P (discard x) fun _ _ _ => True := by
  show Traces law ctx b P ((fun _ => PUnit.unit) <$> x) _
  rw [map_eq_pure_bind]
  exact bind h fun _ => pure fun _ _ _ _ => trivial

/-- Several evaluations, each of which depends on nothing but the log, as does what it yields. -/
theorem mapM {f : α → Eval σ β} {p : Log → Prop} {q : Log → β → Prop} (stays : ∀ past log, p past → p (past ++ log))
    (lasts : ∀ r past log, q past r → q (past ++ log) r) : ∀ {items : List α},
      (∀ a ∈ items, Traces law ctx b (fun past _ => p past) (f a) fun past _ r => q past r) →
      Traces law ctx b (fun past _ => p past) (items.mapM f) fun past _ rs => ∀ r ∈ rs, q past r
  | [], _ => pure fun past _ _ _ => List.forall_mem_nil (q past)
  | a :: rest, h => by
    rw [List.mapM_cons]
    have others := mapM stays lasts fun a' member => h a' (List.mem_cons_of_mem a member)
    refine bind (((h a List.mem_cons_self).keep stays).weaken fun _ _ hp => ⟨hp, hp⟩) fun r => ?_
    refine bind ((others.keep (lasts r)).weaken fun _ _ known => ⟨known.2, known.1⟩) fun rs => pure fun _ _ _ all => ?_
    exact List.forall_mem_cons.mpr all

/-! ## Actions -/

theorem modifyGet {f : State → α × State}
    (h : ∀ past s, s.Proper law past → P past s →
      Act law ctx.settings b past s (f s).2 ∧ Q past (f s).2 (f s).1) :
    Traces law ctx b P (Eval.modifyGet f) Q := by
  intro past m proper allowed
  obtain ⟨action, holds⟩ := h past m.state proper allowed
  exact ⟨[], .act action, rfl, by rwa [List.append_nil]⟩

theorem modify {f : State → State}
    (h : ∀ past s, s.Proper law past → P past s → Act law ctx.settings b past s (f s)) :
    Traces law ctx b P (Eval.modify (σ := σ) f) fun _ _ _ => True :=
  modifyGet (f := fun s => ((), f s)) fun past s proper allowed => ⟨h past s proper allowed, trivial⟩

theorem attempt {fault? : State → Option EvalError} {change : State → State}
    (h : ∀ past s, s.Proper law past → P past s → fault? s = none → Act law ctx.settings b past s (change s)) :
    Traces law ctx b P (Eval.attempt (σ := σ) fault? change) fun _ _ _ => True := by
  intro past m proper allowed
  rw [runOn_attempt]
  cases fine : fault? m.state with
  | some e => exact ⟨[], .here, rfl⟩
  | none => exact ⟨[], .act (h past m.state proper allowed fine), rfl, trivial⟩

theorem closure (name : Option String) (params : List Node) {body : Node} (code : body.all law = true) :
    Traces law ctx b Always (Eval.newClosure (σ := σ) name params body) fun _ _ v =>
      ∃ f : Closure, v = .closure f ∧ f.body.all law = true := by
  refine bind (Q := fun _ _ _ => True) (ofExcept fun _ _ _ _ _ _ => trivial) fun params => ?_
  refine bind (Q := fun _ _ f => f.body = body) ?_ fun f => given fun same => pure fun _ _ _ _ => ⟨f, rfl, same ▸ code⟩
  exact modifyGet fun _ _ _ _ => ⟨.newClosure name params body, rfl⟩

/-- The initialiser of a variable that is put off is a first value of it. -/
theorem delay {declarators : List Declarator} {d : Declarator} {initial : Node} {kind : Kind}
    (put : ctx.settings.strategy = .lazy) (permitted : law (.declaration declarators) = true) (among : d ∈ declarators)
    (given : d.initial = some initial) (code : (initial.castTo kind).all law = true) :
    Traces law ctx b Always (Eval.delay (σ := σ) (initial.castTo kind)) fun past s v => s.Initial law past kind v := by
  refine read fun s _ _ _ => ?_
  refine bind (Q := fun past t r => t.Initial law past kind (.lazy r)) ?_ fun r => pure fun _ _ _ initial => initial
  refine modifyGet fun past t _ same => ?_
  obtain ⟨rfl, -⟩ := same
  refine ⟨.delay kind put permitted among given code, .inr ⟨_, initial, rfl, ?_, Memory.thunk_newThunk_self _ _ _⟩⟩
  rw [Memory.thunks_newThunk]
  exact Nat.lt_succ_self _

/-- A variable is declared with a first value. -/
theorem declare {name : String} {kind : Kind} {v : Value} {span : Option Span} :
    Traces law ctx true (fun past s => s.Initial law past kind v) (Eval.declare (σ := σ) name kind v span)
      fun _ _ _ => True := by
  refine attempt fun _ s _ initial fine => ?_
  have free := State.declareFault?_eq_none.mp fine
  rcases initial with ⟨settled, fits⟩ | ⟨t, e, rfl, made, fresh⟩
  · exact .declare free settled fits
  · exact .declareLazy free made fresh

/-- The elements of an array stay in the memory also where its name cannot be declared. -/
theorem runOn_declareArray (elements : Array Value) (name : String) (kind : Kind) (span : Option Span) (m : Machine σ) :
    runOn (do
      let r ← Eval.allocate (σ := σ) (·.newArray elements)
      Eval.declare name kind.pointerTo (.array r) span) m =
    match m.state.declareFault? m.state.top name span with
    | some e => (.error (.error e), { m with state := { m.state with memory := (m.state.memory.newArray elements).2 } })
    | none => (.ok (), ⟨State.bind { m.state with memory := (m.state.memory.newArray elements).2 } m.state.top name
        ⟨kind.pointerTo, .array (m.state.memory.newArray elements).1⟩, m.watch⟩) := by
  rw [runOn_bind]
  exact runOn_attempt _ _ ⟨{ m.state with memory := (m.state.memory.newArray elements).2 }, m.watch⟩

/-- An array is made and declared at once. -/
theorem declareArray {declarators : List Declarator} {d : Declarator} {name : String} {kind : Kind}
    {elements : Array Value} {span : Option Span} (permitted : law (.declaration declarators) = true)
    (among : d ∈ declarators) (sized : d.size.isSome = true) (declared : d.id.declared = .ok (name, kind))
    (fits : ∀ v ∈ elements, v.Fits kind) :
    Traces law ctx true (fun past _ => ∀ v ∈ elements, v.Settled law past) (do
      let r ← Eval.allocate (σ := σ) (·.newArray elements)
      Eval.declare name kind.pointerTo (.array r) span) fun _ _ _ => True := by
  intro past m proper settled
  rw [runOn_declareArray]
  cases fine : m.state.declareFault? m.state.top name span with
  | some e =>
    have made : Passage law ctx.settings true past m.state [] _ := .act (.newArray settled)
    exact ⟨[], .after made .here, rfl⟩
  | none =>
    have free := State.declareFault?_eq_none.mp fine
    exact ⟨[], .act (.declareArray permitted among sized declared free settled fits), rfl, trivial⟩

/-! ## Frames, calls and thunks -/

/-- What happens in a frame of its own depends on nothing but the log, and neither does what it
    yields. -/
theorem inFrame {x : Eval σ α} {p : Log → Prop} {q : Log → α → Prop} (tag : FrameTag)
    (h : Traces law ctx c (fun past _ => p past) x fun past _ a => q past a) :
    Traces law ctx b (fun past _ => p past) (Eval.inFrame tag x) fun past _ a => q past a := by
  intro past m proper allowed
  have done := h past { m with state := (m.state.push tag).2 } (proper.pushInside tag (.inl rfl)) allowed
  rw [runOn_inFrame]
  generalize runOn x { m with state := (m.state.push tag).2 } = ended at done ⊢
  rcases ended with ⟨⟨i⟩ | ⟨a⟩, m₁⟩
  · obtain ⟨log, broken, watched⟩ := done
    exact ⟨log, .frame tag broken, watched⟩
  · obtain ⟨log, passage, watched, holds⟩ := done
    have fine : m₁.state.popFault? m.state.frames.size = none := State.popFault?_eq_none passage.control.1
    dsimp only
    rw [fine]
    exact ⟨log, .frame tag passage, watched, holds⟩

/-- So it is with what happens in a call. -/
theorem inCall {x : Eval σ α} {p : Log → Prop} {q : Log → α → Prop} (name : String)
    (h : Traces law ctx c (fun past _ => p past) x fun past _ a => q past a) :
    Traces law ctx b (fun past s => p past ∧ s.callDepth < ctx.settings.maxCallDepth) (Eval.inCall name x)
      fun past _ a => q past a := by
  intro past m proper ⟨allowed, may⟩
  have done := h past ⟨m.state.calling name, m.watch⟩ (proper.calling name) allowed
  rw [runOn_inCall]
  unfold State.calling at done
  generalize runOn x ⟨(m.state.pushInside (.call name) .global).2.pushCall ⟨name, m.state.top.number, m.state.frames.size⟩,
    m.watch⟩ = ended at done ⊢
  rcases ended with ⟨⟨i⟩ | ⟨a⟩, m₁⟩
  · obtain ⟨log, broken, watched⟩ := done
    exact ⟨log, .call name may broken, watched⟩
  · obtain ⟨log, passage, watched, holds⟩ := done
    have left : runOn (Eval.leaveCall name m.state.frames.size) m₁ = (.ok (), { m₁ with state := m₁.state.dropTop.popCall }) :=
      runOn_leaveCall_of_control passage.control.1 (rfl : m.state.stack.headD .global = m.state.top) passage.control.2
    dsimp only
    rw [left]
    exact ⟨log, .call name may passage, watched, holds⟩

/-- A thunk that is to be computed in a frame of the scope re-enters that frame. -/
theorem compute {x : Node → Eval σ Value} {t : ThunkRef}
    (h : ∀ e : Node, e.all law = true → Traces law ctx e.introduces Always (x e) fun past _ v =>
      v.Settled law past ∧ ∀ (inner : Node) k, e = inner.castTo k → v.Fits k) :
    Traces law ctx b (fun _ s => s.Held (.lazy t)) (Eval.compute t x) fun past s v =>
      v.Settled law past ∧ (s.memory.thunk t).phase = .forced v := by
  intro past m proper held
  obtain ⟨home, member, own⟩ := held
  obtain ⟨inside, same⟩ := own t rfl
  rw [← same] at member
  rw [runOn_compute]
  dsimp only
  cases phase : (m.state.memory.thunk t).phase with
  | forced v =>
    obtain ⟨coded, shown⟩ := proper.results t v phase
    refine ⟨[], .nil, rfl, ?_⟩
    rw [List.append_nil]
    exact ⟨⟨proper.memos t v phase, coded, shown⟩, phase⟩
  | forcing => exact ⟨[], .here, rfl⟩
  | pending =>
    have done := h _ (proper.expressions t inside) past ⟨m.state.computing t, m.watch⟩ (proper.computing member) trivial
    unfold State.computing at done
    dsimp only
    generalize runOn (x (m.state.memory.thunk t).expression)
      ⟨(m.state.setPhase t .forcing).reenter (m.state.memory.thunk t).home, m.watch⟩ = ended at done ⊢
    rcases ended with ⟨⟨i⟩ | ⟨v⟩, m₁⟩
    · obtain ⟨log, broken, watched⟩ := done
      exact ⟨log, .thunk phase member broken, watched⟩
    · obtain ⟨log, passage, watched, settled, fits⟩ := done
      have fine : m₁.state.popFault? (m.state.memory.thunk t).home.number = none :=
        State.popFault?_eq_none passage.control.1
      have computing := State.leads_computing proper.lexical member
      have kept := ((passage.leads (proper.computing member)).whole.thunks t (computing.thunks t inside).1).1
      dsimp only
      rw [fine]
      refine ⟨log, .thunk phase member passage settled fits, watched, settled, ?_⟩
      show ((m₁.state.dropTop.memory.setPhase t (.forced v)).thunk t).phase = _
      rw [State.dropTop_memory, Memory.thunk_setPhase, if_pos ⟨rfl, kept⟩]

/-! ## Assignments -/

/-- The binding that was found is assigned to, once its new value has been computed. -/
theorem store {y : Eval σ α} {f : α → Value} {g : α → Value → β} (name : String) (kind : Kind) (span : Option Span)
    {q : Log → β → Prop} (between : Between law b)
    (h : Traces law ctx b Always y fun past _ a => (f a).Settled law past ∧
      ∀ w, w.Settled law past → q past (g a w)) :
    Traces law ctx b (fun _ s => ∃ span old, s.lookup name span = .ok old ∧ old.kind = kind) (do
      let a ← y
      let w ← Eval.writePlace (.named name kind) (f a) span
      Pure.pure (g a w)) fun past _ r => q past r := by
  intro past m proper found
  obtain ⟨span', old, found, rfl⟩ := found
  have done := h past m proper trivial
  rw [runOn_bind]
  generalize runOn y m = ended at done ⊢
  rcases ended with ⟨⟨i⟩ | ⟨a⟩, m₁⟩
  · exact done
  · obtain ⟨log, passage, watched, settled, result⟩ := done
    dsimp only
    rw [runOn_bind, runOn_writeNamed]
    cases fitted : (f a).cast old.kind span with
    | error e => exact ⟨log, by simpa using Broken.after passage .here, watched⟩
    | ok w =>
      have kept := settled.cast fitted
      dsimp only
      cases fine : m₁.state.assignFault? name span with
      | some e => exact ⟨log, by simpa using Broken.after passage .here, watched⟩
      | none =>
        refine ⟨log, .store found passage between ?_ kept (Value.fits_of_cast fitted), watched, result w kept⟩
        unfold State.assignFault? at fine
        split at fine
        · assumption
        · cases fine

/-- An element is assigned to. -/
theorem storeElement {v : Value} {r : ArrayRef} {i : Nat} {kind : Option Kind} {span : Option Span} :
    Traces law ctx b (fun past _ => v.Settled law past) (Eval.writePlace (σ := σ) (.element r i kind) v span)
      fun past _ w => w.Settled law past := by
  intro past m proper settled
  rw [runOn_writeElement]
  cases fitted : v.castTo? kind span with
  | error e => exact ⟨[], .here, rfl⟩
  | ok w =>
    have kept : w.Settled law (past ++ []) := by
      rw [List.append_nil]
      exact settled.castTo fitted
    exact ⟨[], .storeElement .nil kept, rfl, kept⟩

/-! ## Visits -/

/-- A node that may be entered is announced. -/
theorem runOn_entering {s : State} (n : NodeSummary) (may : s.MayStep ctx.settings) (w : σ) :
    runOn (Eval.enter ctx n) ⟨s, w⟩ =
      match ctx.observer.onStep w (.enter n) (s.entering n) with
      | (w', .proceed) => (.ok (), ⟨s.entering n, w'⟩)
      | (w', .halt) => (.error .halted, ⟨s.entering n, w'⟩) := by
  have unlimited : ctx.settings.maxSteps.filter (· < s.steps + 1) = none :=
    Option.filter_eq_none_iff.mpr fun limit reached => by simpa using may limit reached
  rw [runOn_enter, unlimited]
  exact runOn_suspend ctx _ _ w

/-- A node that may not be entered is refused, with the limit that it goes beyond. -/
theorem runOn_refused (ctx : Context σ) {s : State} (n : NodeSummary) (never : ¬ s.MayStep ctx.settings) (w : σ) :
    ∃ limit, ctx.settings.maxSteps = some limit ∧ limit < s.steps + 1 ∧
      runOn (Eval.enter ctx n) ⟨s, w⟩ = (.error (.error (.stepLimit limit)), ⟨s.enterNode n, w⟩) := by
  have limits : ctx.settings.maxSteps.filter (· < s.steps + 1) ≠ none := fun unlimited =>
    never fun limit reached => by simpa using Option.filter_eq_none_iff.mp unlimited limit reached
  obtain ⟨limit, limited⟩ := Option.ne_none_iff_exists'.mp limits
  obtain ⟨reached, beyond⟩ := Option.filter_eq_some_iff.mp limited
  refine ⟨limit, reached, of_decide_eq_true beyond, ?_⟩
  rw [runOn_enter, limited]

theorem runOn_leaving (s : State) (n : NodeSummary) (w : σ) :
    runOn (Eval.exit ctx n) ⟨s, w⟩ =
      match ctx.observer.onStep w (.exit n) (s.leaving n) with
      | (w', .proceed) => (.ok (), ⟨s.leaving n, w'⟩)
      | (w', .halt) => (.error .halted, ⟨s.leaving n, w'⟩) := runOn_suspend ctx _ _ w

/-- What happens between the events of a node. -/
theorem visiting {x : Eval σ α} (n : NodeSummary) (h : Traces law ctx b Always x Q)
    (exits : ∀ past t a, t.Proper law past → Q past t a → Q' (past ++ [(.exit n, t.leaving n)]) (t.leaving n) a) :
    Traces law ctx b Always (do
      Eval.enter ctx n
      let a ← x
      Eval.exit ctx n
      Pure.pure a) Q' := by
  rintro past ⟨t, w⟩ proper -
  by_cases may : t.MayStep ctx.settings
  · rw [runOn_bind, runOn_entering n may]
    rcases shown : ctx.observer.onStep w (.enter n) (t.entering n) with ⟨w₁, action⟩
    have watched : w₁ = ctx.observer.shown w [(.enter n, t.entering n)] := by rw [Observer.shown_single, shown]
    cases action with
    | halt => exact ⟨_, .visit n may .here, watched⟩
    | proceed =>
      have done := h (past ++ [(.enter n, t.entering n)]) ⟨t.entering n, w₁⟩ (proper.entering n) trivial
      dsimp only
      rw [runOn_bind]
      generalize runOn x ⟨t.entering n, w₁⟩ = ended at done ⊢
      rcases ended with ⟨⟨i⟩ | ⟨a⟩, m₁⟩
      · obtain ⟨log, broken, watched'⟩ := done
        exact ⟨_, .visit n may broken, by rw [watched', watched, ← Observer.shown_append]; rfl⟩
      · obtain ⟨log, passage, watched', holds⟩ := done
        have whole := Passage.visit n may passage
        have after : ctx.observer.shown w ((.enter n, t.entering n) :: (log ++ [(.exit n, m₁.state.leaving n)])) =
            (ctx.observer.onStep m₁.watch (.exit n) (m₁.state.leaving n)).1 := by
          rw [watched', watched, ← Observer.shown_append, ← List.singleton_append, ← List.append_assoc,
            Observer.shown_append, Observer.shown_single]
        dsimp only
        rw [runOn_bind, runOn_leaving]
        rcases shown' : ctx.observer.onStep m₁.watch (.exit n) (m₁.state.leaving n) with ⟨w₂, action⟩
        rw [shown'] at after
        cases action with
        | halt => exact ⟨_, by simpa using Broken.after whole .here, after.symm⟩
        | proceed =>
          refine ⟨_, whole, after.symm, ?_⟩
          have left := exits _ _ a (passage.proper (proper.entering n)) holds
          simpa using left
  · obtain ⟨limit, reached, beyond, refused⟩ := runOn_refused ctx n may w
    rw [runOn_bind, refused]
    exact ⟨[], .refused n limit reached beyond, rfl⟩

end Traces
end Eval
end MiniC
