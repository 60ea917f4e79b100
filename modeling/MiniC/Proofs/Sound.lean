import MiniC.Proofs.Runs
import MiniC.Proofs.Texts
import MiniC.Proofs.Sites

/-!
# Sound states and ordinary errors

What the memory keeps is computed: no array holds a thunk, and no thunk was computed to one.
So a cast never finds a thunk, and every error of a cast is the program's own
(`Value.ordinary_cast`). If the code is to be well placed, then so is all code that a state
keeps for later: the bodies of its functions and the expressions of its thunks
(`State.Sound`).
-/

namespace MiniC
variable {α β : Type}

/-! ## Ordinary errors -/

/-- An error that tells what is wrong with a program or that a limit is reached: neither a
    broken invariant nor a jump that no loop takes. -/
def EvalError.ordinary : EvalError → Bool
  | .invariant _ | .jumpOutsideLoop _ _ => false
  | _ => true

/-- Something that ends with no other errors than ordinary ones. -/
def Ordinary (x : Except EvalError α) : Prop := ∀ e, x = .error e → e.ordinary = true

namespace Ordinary

theorem ok (a : α) : Ordinary (.ok a) := nofun

theorem error {e : EvalError} (h : e.ordinary = true) : Ordinary (.error e : Except EvalError α) := by
  rintro e' ⟨⟩
  exact h

theorem bind {x : Except EvalError α} {f : α → Except EvalError β} (first : Ordinary x)
    (second : ∀ a, x = .ok a → Ordinary (f a)) : Ordinary (x >>= f) := by
  cases x with
  | ok a => exact second a rfl
  | error e => exact error (first e rfl)

theorem map {x : Except EvalError α} (f : α → β) (h : Ordinary x) : Ordinary (x.map f) := by
  cases x with
  | ok a => exact ok _
  | error e => exact error (h e rfl)

theorem mapM {f : α → Except EvalError β} : ∀ {items : List α}, (∀ a ∈ items, Ordinary (f a)) → Ordinary (items.mapM f)
  | [], _ => ok _
  | a :: rest, h => by
    rw [List.mapM_cons]
    have others := mapM fun a' member => h a' (List.mem_cons_of_mem a member)
    exact (h a List.mem_cons_self).bind fun b _ => others.bind fun bs _ => ok _

end Ordinary

namespace Value

/-- What is computed can be cast, or the cast is a mistake of the program. -/
theorem ordinary_cast {v : Value} (plain : v.Plain) (k : Kind) (span : Option Span) : Ordinary (v.cast k span) := by
  intro e failed
  unfold cast at failed
  cases v with
  | lazy t => cases plain
  | _ =>
    simp only at failed
    grind [EvalError.ordinary]

theorem ordinary_castResult {v : Value} (plain : v.Plain) (k : Kind) (span : Option Span) :
    Ordinary (v.castResult k span) := by
  unfold castResult
  split
  · exact .ok _
  · exact ordinary_cast plain k span

theorem ordinary_castTo? {v : Value} (plain : v.Plain) (k : Option Kind) (span : Option Span) :
    Ordinary (v.castTo? k span) := by
  cases k with
  | some k => exact ordinary_cast plain k span
  | none => exact .ok v

theorem plain_castTo? {v w : Value} {k : Option Kind} {span : Option Span} (plain : v.Plain)
    (fitted : v.castTo? k span = .ok w) : w.Plain := by
  cases k with
  | some k => exact plain_cast fitted
  | none =>
    cases fitted
    exact plain

theorem Simple.plain {v : Value} (h : v.Simple) : v.Plain :=
  have settled : v.Settled (fun _ => true) [] := h.settled
  settled.plain

end Value

theorem Node.ordinary_kind (n : Node) : Ordinary n.kind := by
  intro e failed
  unfold kind at failed
  grind [EvalError.ordinary]

theorem Node.ordinary_declared (n : Node) : Ordinary n.declared := by
  unfold declared
  split
  · split
    · exact (Node.ordinary_kind _).map _
    · exact .error rfl
  · exact .error rfl

theorem ordinary_declaredParams (params : List Node) : Ordinary (declaredParams params) :=
  .mapM fun p _ => p.ordinary_declared.map _

theorem BinaryOp.ordinary_onNumbers (op : BinaryOp) (x y : Float) (span : Option Span) :
    Ordinary (op.onNumbers x y span) := by
  intro e failed
  unfold onNumbers at failed
  cases op <;> grind [EvalError.ordinary]

theorem UnaryOp.ordinary_apply (op : UnaryOp) (v : Value) (span : Option Span) : Ordinary (op.apply v span) := by
  unfold apply
  split
  · exact .ok _
  · exact .ok _
  · exact .ok _
  · exact .ok _
  · exact .error rfl

namespace Builtin

theorem ordinary_run (f : Builtin) (arguments : List Value) : Ordinary (f.run arguments) := by
  have counted : Ordinary (f.numberArgument arguments) := by
    unfold numberArgument
    split
    · split
      · exact .ok _
      · exact .error rfl
    · exact .error rfl
  refine counted.bind fun x _ => ?_
  cases f with
  | print => exact .ok _
  | putchar =>
    dsimp only
    split
    · exact .ok _
    · exact .error rfl
  | abs => exact .ok _

/-- A built-in function yields a number or nothing. -/
theorem simple_run {f : Builtin} {arguments : List Value} {v : Value} {text : String}
    (ran : f.run arguments = .ok (v, text)) : v.Simple := by
  unfold run at ran
  simp only [Bind.bind, Except.bind] at ran
  split at ran
  · cases ran
  · cases f with
    | print =>
      cases ran
      exact Value.simple_void
    | putchar =>
      dsimp only at ran
      split at ran <;> cases ran
      exact Value.simple_number _
    | abs =>
      cases ran
      exact Value.simple_number _

theorem ordinary_apply (f : Builtin) {arguments : List Value} (plain : ∀ v ∈ arguments, v.Plain) (span : Option Span) :
    Ordinary (f.apply arguments span) := by
  have fitted : Ordinary ((arguments.zip f.params).mapM fun item => item.1.cast item.2 span) :=
    .mapM fun item member => Value.ordinary_cast (plain _ (List.of_mem_zip member).1) _ _
  unfold apply
  split
  · exact .error rfl
  · refine fitted.bind fun values _ => (f.ordinary_run values).bind ?_
    rintro ⟨result, text⟩ ran
    exact (Value.ordinary_cast (simple_run ran).plain f.result span).bind fun w _ => .ok (w, text)

end Builtin

/-! ## Sound states -/

/-- The node may stand at a site, if that is asked for. -/
def Node.Stands (strict : Bool) (site : Site) (n : Node) : Prop := strict = true → n.wellPlaced site = true

/-- Completions that a site admits, if that is asked for. -/
def Site.Admits (strict : Bool) (site : Site) (c : Completion) : Prop := strict = true → site.admits c = true

/-- A function, if the value is one, has a body that stands where it may. -/
def Value.Bodied (strict : Bool) (v : Value) : Prop := ∀ c, v = .closure c → c.body.Stands strict (.statement false)

/-- What is kept has been computed, and code that is kept stands where it may. -/
structure State.Sound (strict : Bool) (s : State) : Prop where
  arrays (r : ArrayRef) : ∀ v ∈ s.memory.elements r, v.Plain
  memos (t : ThunkRef) (v : Value) : (s.memory.thunk t).phase = .forced v → v.Plain
  functions (n : Nat) : ∀ b ∈ (s.frame (.numbered n)).bindings, b.2.value.Bodied strict
  expressions (t : ThunkRef) : t.index < s.memory.thunks.size → (s.memory.thunk t).expression.Stands strict .operand

namespace Value

/-- A cast yields no function, since none fits a kind. -/
theorem bodied_cast {v w : Value} {k : Kind} {span : Option Span} (h : v.cast k span = .ok w) (strict : Bool) :
    w.Bodied strict := by
  rintro c rfl
  unfold cast at h
  cases v <;> simp only at h <;> grind

theorem bodied_lazy (strict : Bool) (t : ThunkRef) : Bodied strict (.lazy t) := nofun

theorem bodied_array (strict : Bool) (r : ArrayRef) : Bodied strict (.array r) := nofun

theorem Simple.bodied {v : Value} (h : v.Simple) (strict : Bool) : v.Bodied strict := by
  rintro c rfl
  rcases h with h | h | h <;> cases h

end Value

namespace State.Sound

theorem memo {strict : Bool} {s : State} (h : s.Sound strict) (t : ThunkRef) (v : Value)
    (computed : (s.memory.thunk t).memo? = some v) : v.Plain := by
  unfold Thunk.memo? at computed
  split at computed
  · cases computed
    exact h.memos t v ‹_›
  · cases computed
variable {strict : Bool} {s s' : State}

/-- What is sound after a change: what was there, unless it is new. -/
theorem change (h : s.Sound strict)
    (functions : ∀ n, ∀ b ∈ (s'.frame (.numbered n)).bindings,
      b ∈ (s.frame (.numbered n)).bindings ∨ b.2.value.Bodied strict)
    (expressions : ∀ t : ThunkRef, t.index < s'.memory.thunks.size →
      t.index < s.memory.thunks.size ∧ (s'.memory.thunk t).expression = (s.memory.thunk t).expression ∨
        (s'.memory.thunk t).expression.Stands strict .operand)
    (arrays : ∀ r, ∀ v ∈ s'.memory.elements r, v ∈ s.memory.elements r ∨ v.Plain)
    (memos : ∀ t v, (s'.memory.thunk t).phase = .forced v → (s.memory.thunk t).phase = .forced v ∨ v.Plain) :
    s'.Sound strict where
  arrays r v member := (arrays r v member).elim (h.arrays r v) id
  memos t v forced := (memos t v forced).elim (h.memos t v) id
  functions n b member := (functions n b member).elim (h.functions n b) id
  expressions t inside := (expressions t inside).elim (fun old => old.2 ▸ h.expressions t old.1) id

/-- Nothing new is kept. -/
theorem still (h : s.Sound strict) (memory : s'.memory = s.memory)
    (functions : ∀ n, ∀ b ∈ (s'.frame (.numbered n)).bindings, b ∈ (s.frame (.numbered n)).bindings) : s'.Sound strict := by
  refine h.change (fun n b member => .inl (functions n b member)) ?_ ?_ ?_
  · exact fun t inside => by rw [memory] at inside ⊢; exact .inl ⟨inside, rfl⟩
  · exact fun r v member => by rw [memory] at member; exact .inl member
  · exact fun t v forced => by rw [memory] at forced; exact .inl forced

theorem restack (h : s.Sound strict) (frames : s'.frames = s.frames) (memory : s'.memory = s.memory) : s'.Sound strict :=
  h.still memory fun n b member => by simpa only [frame, frames] using member

/-- The memory changes and the frames stay. -/
theorem remember (h : s.Sound strict) {m : Memory}
    (expressions : ∀ t : ThunkRef, t.index < m.thunks.size →
      t.index < s.memory.thunks.size ∧ (m.thunk t).expression = (s.memory.thunk t).expression ∨
        (m.thunk t).expression.Stands strict .operand)
    (arrays : ∀ r, ∀ v ∈ m.elements r, v ∈ s.memory.elements r ∨ v.Plain)
    (memos : ∀ t v, (m.thunk t).phase = .forced v → (s.memory.thunk t).phase = .forced v ∨ v.Plain) :
    State.Sound strict { s with memory := m } := h.change (fun _ _ => .inl) expressions arrays memos

theorem modifyBindings (h : s.Sound strict) {r : FrameRef} {f : Bindings → Bindings}
    (functions : ∀ n, ∀ b ∈ f (s.frame (.numbered n)).bindings,
      b ∈ (s.frame (.numbered n)).bindings ∨ b.2.value.Bodied strict) : (s.modifyBindings r f).Sound strict := by
  refine h.change (fun n b member => ?_) (by simp; grind) (by simp; grind) (by simp; grind)
  cases r with
  | detached k => exact .inl member
  | numbered k =>
    rw [frame_modifyBindings] at member
    split at member
    · exact functions n b member
    · exact .inl member

theorem bind (h : s.Sound strict) (r : FrameRef) (name : String) {b : Binding} (bodied : b.value.Bodied strict) :
    (s.bind r name b).Sound strict :=
  h.modifyBindings fun _ _ member => (Bindings.mem_insert member).imp_right fun same => by rwa [same]

theorem store (h : s.Sound strict) (name : String) {v : Value} (bodied : v.Bodied strict) : (s.store name v).Sound strict := by
  unfold State.store
  split
  · refine h.modifyBindings fun _ _ member => (Bindings.mem_update member).imp_right ?_
    rintro ⟨old, -, same⟩
    rw [same]
    exact bodied
  · exact h

theorem pushInside (h : s.Sound strict) (tag : FrameTag) (parent : FrameRef) : (s.pushInside tag parent).2.Sound strict := by
  refine h.still rfl fun n b member => ?_
  rw [frame_pushInside] at member
  split at member
  · cases member
  · exact member

theorem dropTop (h : s.Sound strict) : s.dropTop.Sound strict := h.still s.dropTop_memory fun _ _ => mem_of_dropTop

theorem unwind (h : s.Sound strict) : s.unwind.Sound strict :=
  have cleared : (s.clearAll s.stack).Sound strict := h.still (s.clearAll_memory s.stack) fun _ _ => mem_of_clearAll
  cleared.restack rfl rfl

theorem beginEvaluation (h : s.Sound strict) : s.beginEvaluation.Sound strict := h.unwind.restack rfl rfl

theorem recover (h : s.Sound strict) (e : EvalError) : (s.recover e).Sound strict :=
  have recorded : State.Sound strict { s with errors := s.errors.push e } := h.restack rfl rfl
  recorded.unwind.restack rfl rfl

theorem newArray (h : s.Sound strict) {elements : Array Value} (plain : ∀ v ∈ elements, v.Plain) :
    State.Sound strict { s with memory := (s.memory.newArray elements).2 } := by
  refine h.remember (fun t inside => .inl ⟨inside, rfl⟩) (fun r v member => ?_) fun _ _ => .inl
  rw [Memory.elements_newArray] at member
  split at member
  · exact .inr (plain v member)
  · exact .inl member

theorem setElement (h : s.Sound strict) (r : ArrayRef) (i : Nat) {w : Value} (plain : w.Plain) :
    State.Sound strict { s with memory := s.memory.setElement r i w } :=
  h.remember (fun t inside => .inl ⟨inside, rfl⟩)
    (fun _ _ member => (Memory.mem_elements_setElement member).imp_right fun same => by rwa [same]) fun _ _ => .inl

theorem newThunk (h : s.Sound strict) {e : Node} (stands : e.Stands strict .operand) (home : FrameRef) :
    State.Sound strict { s with memory := (s.memory.newThunk e home).2 } := by
  refine h.remember (fun t inside => ?_) (fun _ _ => .inl) fun t v forced => .inl ?_
  · rcases Memory.thunk_newThunk_of_lt inside with ⟨before, old⟩ | ⟨-, new⟩
    · exact .inl ⟨before, by rw [old]⟩
    · rw [new]
      exact .inr stands
  · rwa [Memory.thunk_newThunk_of_forced forced] at forced

theorem setPhase (h : s.Sound strict) {t : ThunkRef} {phase : Phase} (plain : ∀ v, phase = .forced v → v.Plain) :
    (s.setPhase t phase).Sound strict := by
  refine h.remember (fun q inside => .inl ?_) (fun _ _ => .inl) fun q v forced => ?_
  · refine ⟨by simpa using inside, ?_⟩
    rw [Memory.thunk_setPhase]
    split
    · rfl
    · rfl
  · rw [Memory.thunk_setPhase] at forced
    split at forced
    · exact .inr (plain v forced)
    · exact .inl forced

/-- Sessions start in a sound state. -/
theorem seeded (strict : Bool) : State.seeded.Sound strict := by
  -- under a law that permits nothing there is no code
  have proper := proper_seeded fun _ => false
  have none {n : Node} (code : n.all (fun _ => false) = true) : False := nomatch (Node.all_iff.mp code).1
  exact ⟨proper.arrays, proper.memos, fun n b member c same => (none ((proper.bound n b member).coded c same)).elim,
    fun t inside => (none (proper.expressions t inside)).elim⟩

end State.Sound
end MiniC
