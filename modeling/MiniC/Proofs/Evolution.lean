import MiniC.Proofs.Frames
import MiniC.Proofs.Orderly
import MiniC.Proofs.Runs

/-!
# How orderly code changes a state

Orderly code only adds: frames, arrays, functions and thunks, and names to the frame on
top and functions to the global one as its facts allow. What is bound stays bound to the
same value, and what a frame was pushed for is given up with it.
-/

namespace MiniC

/-! ## Evolution -/

/-- Not a function. -/
def Value.Bindable (v : Value) : Prop := v.type ≠ .function

/-- No function comes out of a cast. -/
theorem Value.bindable_cast {v w : Value} {kind : Kind} {span : Option Span} (fitted : v.cast kind span = .ok w) :
    w.Bindable := by
  unfold Value.cast at fitted
  unfold Value.Bindable Value.type
  cases v <;> grind

/-- Where a cast stands matters for its errors alone. -/
theorem Value.cast_span {v w : Value} {kind : Kind} {span : Option Span} (fitted : v.cast kind span = .ok w)
    (span' : Option Span) : v.cast kind span' = .ok w := by
  unfold Value.cast at fitted ⊢
  cases v <;> grind

/-- Arrays stay where they are, with the elements that they have. -/
def Extends (xs ys : Array (Array Value)) : Prop :=
  ∀ (i : Nat) (elements : Array Value), xs[i]? = some elements → ys[i]? = some elements

/-- What orderly code does to a state. Names are declared in the frame on top, where no
    function ends up, and functions in the global frame. -/
structure Evolves (f : Facts) (s s' : State) : Prop where
  stack : s'.stack = s.stack
  calls : s'.calls = s.calls
  grows : s.Grows s'
  kept (n : Nat) (name : String) (b : Binding) : n < s.frames.size →
    s.get? (.numbered n) name = some b → s'.get? (.numbered n) name = some b
  added (n : Nat) (name : String) (b : Binding) : n < s.frames.size →
    s'.get? (.numbered n) name = some b → s.get? (.numbered n) name = some b ∨
      (.numbered n = s.top ∧ name ∈ f.declares ∧ b.value.Bindable) ∨ (n = 0 ∧ name ∈ f.functions)
  arrays : Extends s.memory.arrays s'.memory.arrays
  closures : s.memory.closures ≤ s'.memory.closures
  steps : s.steps ≤ s'.steps

namespace Extends

theorem refl (xs : Array (Array Value)) : Extends xs xs := fun _ _ => id

theorem trans {xs ys zs : Array (Array Value)} (h : Extends xs ys) (h' : Extends ys zs) : Extends xs zs :=
  fun i elements found => h' i elements (h i elements found)

theorem size {xs ys : Array (Array Value)} (h : Extends xs ys) : xs.size ≤ ys.size := by
  rcases Nat.lt_or_ge ys.size xs.size with shorter | fine
  · have gone := (Array.getElem?_eq_some_iff.mp (h ys.size _ (Array.getElem?_eq_getElem shorter))).1
    exact absurd gone (Nat.lt_irrefl _)
  · exact fine

theorem push (xs : Array (Array Value)) (elements : Array Value) : Extends xs (xs.push elements) := by
  intro i found same
  have inside := (Array.getElem?_eq_some_iff.mp same).1
  rw [Array.getElem?_push_lt inside, ← same, Array.getElem?_eq_getElem inside]

end Extends

namespace Evolves
variable {f g : Facts} {s s' s'' : State}

/-- Nothing happens but what no evaluation depends on. -/
theorem tick (stack : s'.stack = s.stack) (calls : s'.calls = s.calls) (frames : s'.frames = s.frames)
    (memory : s'.memory = s.memory) (steps : s.steps ≤ s'.steps) : Evolves f s s' := by
  have same (n : Nat) : s'.frame (.numbered n) = s.frame (.numbered n) := by simp only [State.frame, frames]
  refine ⟨stack, calls, ⟨Nat.le_of_eq (by rw [frames]), fun n _ => by rw [same],
      fun t inside => by rw [memory]; exact ⟨inside, rfl⟩⟩,
    fun n name b _ found => ?_, fun n name b _ found => ?_, by rw [memory]; exact .refl _, Nat.le_of_eq (by rw [memory]), steps⟩
  · rw [State.get?, same]
    exact found
  · rw [State.get?, same] at found
    exact .inl found

theorem refl (f : Facts) (s : State) : Evolves f s s := tick rfl rfl rfl rfl (Nat.le_refl _)

theorem weaken (h : Evolves f s s') (le : f.Adds g) : Evolves g s s' := by
  refine { h with added := fun n name b inside found => ?_ }
  rcases h.added n name b inside found with old | ⟨top, declared, bindable⟩ | ⟨global, declared⟩
  · exact .inl old
  · exact .inr (.inl ⟨top, le.declares declared, bindable⟩)
  · exact .inr (.inr ⟨global, le.functions declared⟩)

theorem top (h : Evolves f s s') : s'.top = s.top := by rw [State.top, State.top, h.stack]

theorem scope (h : Evolves f s s') (L : s.Lexical) : s'.scope = s.scope := by
  obtain ⟨n, inside, top⟩ := L.top_inside
  rw [State.scope, State.scope, h.top, top, h.grows.around n inside]

theorem chain (h : Evolves f s s') : s'.chain = s.chain := by rw [State.chain, State.chain, h.stack]

theorem trans (h : Evolves f s s') (h' : Evolves g s' s'') : Evolves (f.seq g) s s'' where
  stack := h'.stack.trans h.stack
  calls := h'.calls.trans h.calls
  grows := h.grows.trans h'.grows
  kept n name b inside found := h'.kept n name b (Nat.lt_of_lt_of_le inside h.grows.frames) (h.kept n name b inside found)
  added n name b inside found := by
    rcases h'.added n name b (Nat.lt_of_lt_of_le inside h.grows.frames) found with
      old | ⟨top, declared, bindable⟩ | ⟨global, declared⟩
    · rcases h.added n name b inside old with old | ⟨top, declared, bindable⟩ | ⟨global, declared⟩
      · exact .inl old
      · exact .inr (.inl ⟨top, List.mem_append_left _ declared, bindable⟩)
      · exact .inr (.inr ⟨global, List.mem_append_left _ declared⟩)
    · exact .inr (.inl ⟨top.trans h.top, List.mem_append_right _ declared, bindable⟩)
    · exact .inr (.inr ⟨global, List.mem_append_right _ declared⟩)
  arrays := h.arrays.trans h'.arrays
  closures := Nat.le_trans h.closures h'.closures
  steps := Nat.le_trans h.steps h'.steps

/-- Code that declares nothing changes no frame that was there before. -/
theorem get?_eq (h : Evolves f s s') (declares : f.declares = []) (functions : f.functions = []) {n : Nat}
    (inside : n < s.frames.size) (name : String) : s'.get? (.numbered n) name = s.get? (.numbered n) name := by
  cases found : s.get? (.numbered n) name with
  | some b => exact h.kept n name b inside found
  | none =>
    rw [Option.eq_none_iff_forall_ne_some]
    intro b new
    rcases h.added n name b inside new with old | ⟨-, declared, -⟩ | ⟨-, declared⟩
    · rw [found] at old
      cases old
    · rw [declares] at declared
      cases declared
    · rw [functions] at declared
      cases declared

/-- The memory grows. -/
theorem remember (memory : Memory)
    (thunks : ∀ t : ThunkRef, t.index < s.memory.thunks.size →
      t.index < memory.thunks.size ∧ (memory.thunk t).home = (s.memory.thunk t).home)
    (arrays : Extends s.memory.arrays memory.arrays) (closures : s.memory.closures ≤ memory.closures) :
    Evolves f s { s with memory } :=
  ⟨rfl, rfl, ⟨Nat.le_refl _, fun _ _ => rfl, thunks⟩, fun _ _ _ _ => id, fun _ _ _ _ => .inl, arrays, closures, Nat.le_refl _⟩

/-- A name is bound in a frame where it was not. -/
theorem bind {n : Nat} {name : String} {b : Binding} (free : s.get? (.numbered n) name = none)
    (allowed : (.numbered n = s.top ∧ name ∈ f.declares ∧ b.value.Bindable) ∨ (n = 0 ∧ name ∈ f.functions)) :
    Evolves f s (s.bind (.numbered n) name b) := by
  refine ⟨s.bind_stack _ name b, s.bind_calls _ name b,
    ⟨Nat.le_of_eq (by simp [State.bind]), fun k _ => ?_, fun t inside => ?_⟩,
    fun k x b' inside found => ?_, fun k x b' inside found => ?_, ?_, ?_, ?_⟩
  · exact State.around_modifyBindings s _ (.numbered k) _
  · rw [State.bind_memory]
    exact ⟨inside, rfl⟩
  · rw [State.get?_bind, if_neg]
    · exact found
    · rintro ⟨here, -, rfl⟩
      rw [here, free] at found
      cases found
  · rw [State.get?_bind] at found
    split at found
    · rename_i here
      obtain ⟨same, -, rfl⟩ := here
      cases same
      cases found
      exact .inr allowed
    · exact .inl found
  · rw [State.bind_memory]
    exact .refl _
  · exact Nat.le_of_eq (by rw [State.bind_memory])
  · exact Nat.le_of_eq (by rw [State.bind_steps])

end Evolves

/-! ## Frames of their own -/

namespace State

/-- A fresh frame is put on top. -/
structure Opens (s opened : State) : Prop where
  frames : ∃ tag around, opened.frames = s.frames.push ⟨tag, around, []⟩
  stack : opened.stack = .numbered s.frames.size :: s.stack
  memory : opened.memory = s.memory
  steps : opened.steps = s.steps

/-- The frame on top is given up, and the calls are those of an earlier state. -/
structure Closes (s closed s' : State) : Prop where
  frames : s'.frames = closed.dropTop.frames
  stack : s'.stack = closed.stack.tail
  calls : s'.calls = s.calls
  memory : s'.memory = closed.memory
  steps : s'.steps = closed.steps

namespace Opens
variable {s opened : State} (O : s.Opens opened)
include O

theorem frame {n : Nat} (inside : n < s.frames.size) : opened.frame (.numbered n) = s.frame (.numbered n) := by
  obtain ⟨tag, around, frames⟩ := O.frames
  simp only [State.frame, frames, Array.getD_eq_getD_getElem?, Array.getElem?_push_lt inside, Array.getElem?_eq_getElem inside]

theorem size : opened.frames.size = s.frames.size + 1 := by
  obtain ⟨tag, around, frames⟩ := O.frames
  rw [frames, Array.size_push]

theorem get? {n : Nat} (inside : n < s.frames.size) (name : String) :
    opened.get? (.numbered n) name = s.get? (.numbered n) name := by rw [State.get?, O.frame inside, State.get?]

/-- The fresh frame binds nothing. -/
theorem get?_fresh (name : String) : opened.get? (.numbered s.frames.size) name = none := by
  obtain ⟨tag, around, frames⟩ := O.frames
  simp only [State.get?, State.frame, frames, Array.getD_eq_getD_getElem?, Array.getElem?_push_size]
  rfl

theorem top : opened.top = .numbered s.frames.size := by rw [State.top, O.stack]; rfl

theorem chain : opened.chain = .numbered s.frames.size :: s.chain := by rw [State.chain, O.stack]; rfl

end Opens
end State

namespace Evolves
variable {f : Facts} {s s' opened closed : State} (O : s.Opens opened) (K : s.Closes closed s') (h : Evolves f opened closed)
include O K h

theorem frame_closed {n : Nat} (inside : n < s.frames.size) : s'.frame (.numbered n) = closed.frame (.numbered n) := by
  have same : s'.frame (.numbered n) = closed.dropTop.frame (.numbered n) := by simp only [State.frame, K.frames]
  rw [same, State.frame_dropTop (h.stack.trans O.stack) (Nat.ne_of_lt inside)]

theorem get?_closed {n : Nat} (inside : n < s.frames.size) (name : String) :
    s'.get? (.numbered n) name = closed.get? (.numbered n) name := by rw [State.get?, h.frame_closed O K inside, State.get?]

/-- What is declared in a frame of its own is given up with it. -/
theorem nested : Evolves f.inside s s' := by
  have inside {n : Nat} (lt : n < s.frames.size) : n < opened.frames.size := by
    rw [O.size]
    exact Nat.lt_succ_of_lt lt
  refine ⟨?_, K.calls, ⟨?_, fun n lt => ?_, fun t lt => ?_⟩, fun n name b lt found => ?_, fun n name b lt found => ?_,
    ?_, ?_, ?_⟩
  · rw [K.stack, h.stack, O.stack]
    rfl
  · rw [K.frames, State.frames_dropTop]
    exact Nat.le_trans (by rw [O.size]; exact Nat.le_succ _) h.grows.frames
  · rw [h.frame_closed O K lt, h.grows.around n (inside lt), O.frame lt]
  · have next := h.grows.thunks t (by rw [O.memory]; exact lt)
    rw [K.memory, ← O.memory]
    exact next
  · rw [State.get?, h.frame_closed O K lt]
    exact h.kept n name b (inside lt) (by rw [O.get? lt]; exact found)
  · rw [State.get?, h.frame_closed O K lt] at found
    rcases h.added n name b (inside lt) found with old | ⟨top, -⟩ | global
    · rw [O.get? lt] at old
      exact .inl old
    · rw [O.top] at top
      cases top
      exact absurd lt (Nat.lt_irrefl _)
    · exact .inr (.inr global)
  · rw [K.memory, ← O.memory]
    exact h.arrays
  · rw [K.memory, ← O.memory]
    exact h.closures
  · rw [K.steps, ← O.steps]
    exact h.steps

end Evolves

namespace State

theorem opens_push (s : State) (tag : FrameTag) : s.Opens (s.push tag).2 := ⟨⟨_, _, rfl⟩, rfl, rfl, rfl⟩

theorem opens_call (s : State) (name : String) (call : CallBoundary) :
    s.Opens ((s.pushInside (.call name) .global).2.pushCall call) := ⟨⟨_, _, rfl⟩, rfl, rfl, rfl⟩

theorem closes_frame {s closed : State} (calls : closed.calls = s.calls) : s.Closes closed closed.dropTop :=
  ⟨rfl, closed.dropTop_stack, closed.dropTop_calls.trans calls, closed.dropTop_memory, closed.dropTop_steps⟩

theorem closes_call {s closed : State} {call : CallBoundary} (calls : closed.calls = call :: s.calls) :
    s.Closes closed closed.dropTop.popCall := by
  refine ⟨rfl, closed.dropTop_stack, ?_, closed.dropTop_memory, closed.dropTop_steps⟩
  show closed.dropTop.calls.tail = s.calls
  rw [dropTop_calls, calls]
  rfl

theorem frame_reenter (s : State) (r : ThunkRef) (phase : Phase) (home q : FrameRef) :
    ((s.setPhase r phase).reenter home).frame q = s.frame q := by cases q <;> rfl

end State

/-- What is computed in a frame of the chain that is put on top once more leaves that
    frame as it was. -/
theorem Evolves.reentered {f : Facts} {s s' : State} {r : ThunkRef} {home : FrameRef} {v : Value}
    (held : home ∈ s.chain) (declares : f.declares = [])
    (h : Evolves f ((s.setPhase r .forcing).reenter home) s') :
    Evolves f s (s'.dropTop.setPhase r (.forced v)) := by
  have stack : s'.stack = home :: s.stack := h.stack
  have same (q : FrameRef) : (s'.dropTop.setPhase r (.forced v)).frame q = s'.frame q := by
    rw [← State.frame_dropTop_of_mem stack held q]
    cases q <;> rfl
  refine ⟨?_, ?_, ⟨?_, fun n lt => ?_, fun t lt => ?_⟩, fun n name b lt found => ?_, fun n name b lt found => ?_, ?_, ?_, ?_⟩
  · show s'.dropTop.stack = s.stack
    rw [State.dropTop_stack, stack]
    rfl
  · exact s'.dropTop_calls.trans h.calls
  · show s.frames.size ≤ s'.dropTop.frames.size
    rw [State.frames_dropTop]
    exact h.grows.frames
  · rw [same, h.grows.around n lt, State.frame_reenter]
  · have next := h.grows.thunks t (by simpa [State.setPhase, State.reenter] using lt)
    show t.index < (s'.dropTop.memory.setPhase r _).thunks.size ∧ ((s'.dropTop.memory.setPhase r _).thunk t).home = _
    have before : (((s.setPhase r .forcing).reenter home).memory.thunk t).home = (s.memory.thunk t).home := by
      show ((s.memory.setPhase r .forcing).thunk t).home = _
      rw [Memory.thunk_setPhase]
      split
      · rfl
      · rfl
    rw [Memory.thunks_setPhase, Memory.thunk_setPhase, State.dropTop_memory]
    refine ⟨next.1, ?_⟩
    rw [← before, ← next.2]
    split
    · rfl
    · rfl
  · rw [State.get?, same]
    exact h.kept n name b lt (by rw [State.get?, State.frame_reenter]; exact found)
  · rw [State.get?, same] at found
    rcases h.added n name b lt found with old | ⟨-, declared, -⟩ | global
    · rw [State.get?, State.frame_reenter] at old
      exact .inl old
    · rw [declares] at declared
      cases declared
    · exact .inr (.inr global)
  · show Extends s.memory.arrays s'.dropTop.memory.arrays
    rw [State.dropTop_memory]
    exact h.arrays
  · show s.memory.closures ≤ s'.dropTop.memory.closures
    rw [State.dropTop_memory]
    exact h.closures
  · show s.steps ≤ s'.dropTop.steps
    rw [State.dropTop_steps]
    exact h.steps

/-! ## States without thunks -/

/-- A plain value that does not point outside the memory. -/
structure Memory.Has (m : Memory) (v : Value) : Prop where
  plain : v.Plain
  inside (r : ArrayRef) : v = .array r → r.index < m.arrays.size

theorem Memory.Has.mono {m m' : Memory} {v : Value} (h : m.Has v) (le : m.arrays.size ≤ m'.arrays.size) : m'.Has v :=
  ⟨h.plain, fun r same => Nat.lt_of_lt_of_le (h.inside r same) le⟩

theorem Memory.Has.cast {m : Memory} {v w : Value} {kind : Kind} {span : Option Span} (h : m.Has v)
    (fitted : v.cast kind span = .ok w) : m.Has w := by
  refine ⟨Value.plain_cast fitted, fun r same => h.inside r ?_⟩
  unfold Value.cast at fitted
  cases v <;> grind

theorem Memory.Has.castResult {m : Memory} {v w : Value} {kind : Kind} {span : Option Span} (h : m.Has v)
    (fitted : v.castResult kind span = .ok w) : m.Has w := by
  unfold Value.castResult at fitted
  split at fitted
  · cases fitted
    exact ⟨rfl, nofun⟩
  · exact h.cast fitted

/-- The elements of arrays are plain and point to arrays of the memory. -/
def Memory.Closed (m : Memory) : Prop :=
  ∀ (i : Nat) (vs : Array Value), m.arrays[i]? = some vs → ∀ v ∈ vs, m.Has v

namespace Memory.Closed
variable {m : Memory} (closed : m.Closed)
include closed

theorem elements (r : ArrayRef) : ∀ v ∈ (m.elements r).toList, m.Has v := by
  intro v member
  rw [Array.mem_toList_iff, Memory.elements, Array.getD_eq_getD_getElem?] at member
  cases found : m.arrays[r.index]? with
  | none =>
    rw [found] at member
    simp at member
  | some vs =>
    rw [found] at member
    exact closed _ vs found v member

theorem element (r : ArrayRef) (i : Nat) : m.Has (m.element r i) := by
  rw [Memory.element, Array.getD_eq_getD_getElem?]
  cases found : (m.elements r)[i]? with
  | none => exact ⟨rfl, fun r same => Value.noConfusion same⟩
  | some v => exact closed.elements r v (Array.mem_toList_iff.mpr (Array.mem_of_getElem? found))

end Memory.Closed

/-- A state of a strict evaluation of orderly code: nothing is put off, and the functions
    that can be called are orderly. -/
structure State.Sober (s : State) : Prop where
  lexical : s.Lexical
  bindings (n : Nat) (name : String) (b : Binding) : s.get? (.numbered n) name = some b → s.memory.Has b.value
  closed : s.memory.Closed
  functions (name : String) (kind : Kind) (c : Closure) : s.get? .global name = some ⟨kind, .closure c⟩ →
    c.body.facts.ok = true ∧ c.body.facts.functions = []

namespace State.Sober
variable {s s' : State} (S : s.Sober)
include S

theorem has_lookup {name : String} {span : Option Span} {b : Binding} (found : s.lookup name span = .ok b) :
    s.memory.Has b.value := by
  unfold State.lookup at found
  split at found
  · rename_i b' seen
    cases found
    obtain ⟨r, at_r, bound⟩ := Option.bind_eq_some_iff.mp seen
    obtain ⟨-, numbered⟩ := S.lexical.numbered_of_mem_scope (List.mem_of_find?_eq_some at_r)
    rw [numbered] at bound
    exact S.bindings _ _ _ bound
  · cases found

theorem restack (frames : s'.frames = s.frames) (memory : s'.memory = s.memory) (stack : s'.stack = s.stack) : s'.Sober := by
  have same (n : Nat) : s'.frame (.numbered n) = s.frame (.numbered n) := by simp only [State.frame, frames]
  refine ⟨S.lexical.restack frames memory (by rw [stack]; exact S.lexical.stacked), fun n name b found => ?_,
    by rw [memory]; exact S.closed, fun name kind c found => S.functions name kind c ?_⟩
  · rw [get?, same] at found
    rw [memory]
    exact S.bindings n name b found
  · rwa [get?, FrameRef.global, same] at found

theorem newClosure (name : Option String) (params : List Param) (body : Node) :
    State.Sober { s with memory := (s.memory.newClosure name params body).2 } :=
  ⟨S.lexical.remember _ (fun _ h => ⟨h, rfl⟩) S.lexical.arrays S.lexical.memos,
    fun n x b found => (S.bindings n x b found).mono (Nat.le_refl _),
    fun i vs found v member => (S.closed i vs found v member).mono (Nat.le_refl _), S.functions⟩

theorem newArray {vs : Array Value} (has : ∀ v ∈ vs, s.memory.Has v) :
    State.Sober { s with memory := (s.memory.newArray vs).2 } := by
  have larger : s.memory.arrays.size ≤ (s.memory.newArray vs).2.arrays.size := by
    show _ ≤ (s.memory.arrays.push vs).size
    rw [Array.size_push]
    exact Nat.le_succ _
  refine ⟨S.lexical.newArray fun v member => (has v member).plain,
    fun n name b found => (S.bindings n name b found).mono larger, fun i ws found w member => ?_, S.functions⟩
  change (s.memory.arrays.push vs)[i]? = some ws at found
  rw [Array.getElem?_push] at found
  split at found
  · cases found
    exact (has w member).mono larger
  · exact (S.closed i ws found w member).mono larger

/-- A name is bound to something plain; if it is a function then to an orderly one. -/
theorem bind {n : Nat} {name : String} {b : Binding} (has : s.memory.Has b.value)
    (orderly : ∀ c, b.value = .closure c → c.body.facts.ok = true ∧ c.body.facts.functions = []) :
    (s.bind (.numbered n) name b).Sober := by
  refine ⟨S.lexical.bind (has.plain.own s _), fun k x b' found => ?_, by rw [bind_memory]; exact S.closed,
    fun x kind c found => ?_⟩
  · rw [get?_bind] at found
    rw [bind_memory]
    split at found
    · cases found
      exact has
    · exact S.bindings k x b' found
  · rw [FrameRef.global, get?_bind] at found
    split at found
    · cases found
      exact orderly c rfl
    · exact S.functions x kind c found

theorem pushInside (tag : FrameTag) {parent : FrameRef} (allowed : parent = s.top ∨ parent = .global) :
    (s.pushInside tag parent).2.Sober := by
  refine ⟨S.lexical.pushInside tag allowed, fun n name b found => ?_, S.closed,
    fun name kind c found => S.functions name kind c ?_⟩
  · rw [get?, frame_pushInside] at found
    split at found
    · cases found
    · exact S.bindings n name b found
  · rwa [get?, FrameRef.global, frame_pushInside,
      if_neg (show globalNumber ≠ s.frames.size from Nat.ne_of_lt S.lexical.nonempty)] at found

theorem dropTop : s.dropTop.Sober := by
  refine ⟨S.lexical.dropTop, fun n name b found => ?_, by rw [dropTop_memory]; exact S.closed,
    fun name kind c found => S.functions name kind c ?_⟩
  · rw [dropTop_memory]
    exact S.bindings n name b (get?_of_dropTop found)
  · rwa [get?, global_dropTop] at found

end State.Sober
end MiniC
