import MiniC.Eval.Program

/-!
# Changes of a state

What each primitive change does to the parts of a state and of its memory, and which
parts it leaves alone.
-/

namespace MiniC

/-! ## The parts of a state -/

namespace State

@[simp] theorem modifyBindings_stack (s : State) (r : FrameRef) (f : Bindings → Bindings) :
    (s.modifyBindings r f).stack = s.stack := by cases r <;> rfl

@[simp] theorem modifyBindings_calls (s : State) (r : FrameRef) (f : Bindings → Bindings) :
    (s.modifyBindings r f).calls = s.calls := by cases r <;> rfl

@[simp] theorem bind_stack (s : State) (r : FrameRef) (name : String) (b : Binding) :
    (s.bind r name b).stack = s.stack := s.modifyBindings_stack r _

@[simp] theorem bind_calls (s : State) (r : FrameRef) (name : String) (b : Binding) :
    (s.bind r name b).calls = s.calls := s.modifyBindings_calls r _

@[simp] theorem store_stack (s : State) (name : String) (v : Value) : (s.store name v).stack = s.stack := by
  unfold store; split <;> simp

@[simp] theorem store_calls (s : State) (name : String) (v : Value) : (s.store name v).calls = s.calls := by
  unfold store; split <;> simp

@[simp] theorem clearIfGone_stack (s : State) (r : FrameRef) (rest : List FrameRef) :
    (s.clearIfGone r rest).stack = s.stack := by
  unfold clearIfGone; split <;> simp

@[simp] theorem clearIfGone_calls (s : State) (r : FrameRef) (rest : List FrameRef) :
    (s.clearIfGone r rest).calls = s.calls := by
  unfold clearIfGone; split <;> simp

@[simp] theorem dropTop_stack (s : State) : s.dropTop.stack = s.stack.tail := by
  unfold dropTop; split <;> simp [*]

@[simp] theorem dropTop_calls (s : State) : s.dropTop.calls = s.calls := by
  unfold dropTop; split <;> simp

@[simp] theorem modifyBindings_memory (s : State) (r : FrameRef) (f : Bindings → Bindings) :
    (s.modifyBindings r f).memory = s.memory := by cases r <;> rfl

@[simp] theorem modifyBindings_steps (s : State) (r : FrameRef) (f : Bindings → Bindings) :
    (s.modifyBindings r f).steps = s.steps := by cases r <;> rfl

@[simp] theorem bind_memory (s : State) (r : FrameRef) (name : String) (b : Binding) :
    (s.bind r name b).memory = s.memory := s.modifyBindings_memory r _

@[simp] theorem bind_steps (s : State) (r : FrameRef) (name : String) (b : Binding) :
    (s.bind r name b).steps = s.steps := s.modifyBindings_steps r _

@[simp] theorem store_memory (s : State) (name : String) (v : Value) : (s.store name v).memory = s.memory := by
  unfold store; split <;> simp

@[simp] theorem store_steps (s : State) (name : String) (v : Value) : (s.store name v).steps = s.steps := by
  unfold store; split <;> simp

@[simp] theorem clearIfGone_memory (s : State) (r : FrameRef) (rest : List FrameRef) :
    (s.clearIfGone r rest).memory = s.memory := by
  unfold clearIfGone; split <;> simp

@[simp] theorem clearIfGone_steps (s : State) (r : FrameRef) (rest : List FrameRef) :
    (s.clearIfGone r rest).steps = s.steps := by
  unfold clearIfGone; split <;> simp

@[simp] theorem dropTop_memory (s : State) : s.dropTop.memory = s.memory := by
  unfold dropTop; split <;> simp

@[simp] theorem dropTop_steps (s : State) : s.dropTop.steps = s.steps := by
  unfold dropTop; split <;> simp

@[simp] theorem clearIfGone_output (s : State) (r : FrameRef) (rest : List FrameRef) :
    (s.clearIfGone r rest).output = s.output := by
  unfold clearIfGone; split <;> cases r <;> rfl

@[simp] theorem dropTop_output (s : State) : s.dropTop.output = s.output := by
  unfold dropTop; split <;> simp

@[simp] theorem clearAll_output (s : State) (stack : List FrameRef) : (s.clearAll stack).output = s.output := by
  induction stack generalizing s with
  | nil => rfl
  | cons r rest ih => simp [clearAll, ih]

@[simp] theorem clearAll_memory (s : State) (stack : List FrameRef) : (s.clearAll stack).memory = s.memory := by
  induction stack generalizing s with
  | nil => rfl
  | cons r rest ih => simp [clearAll, ih]

@[simp] theorem beginEvaluation_memory (s : State) : s.beginEvaluation.memory = s.memory := s.clearAll_memory s.stack

@[simp] theorem recover_memory (s : State) (e : EvalError) : (s.recover e).memory = s.memory :=
  clearAll_memory { s with errors := s.errors.push e } s.stack

end State

/-! ## Thunks and arrays -/

namespace Memory

theorem thunk_setPhase (m : Memory) (r q : ThunkRef) (phase : Phase) :
    (m.setPhase r phase).thunk q =
      if q = r ∧ r.index < m.thunks.size then { m.thunk q with phase } else m.thunk q := by
  obtain ⟨i⟩ := r
  obtain ⟨j⟩ := q
  simp only [thunk, setPhase, Array.getD_eq_getD_getElem?, Array.getElem?_modify, ThunkRef.mk.injEq]
  by_cases same : i = j
  · subst same
    by_cases inside : i < m.thunks.size
    · simp [inside]
    · simp [inside]
  · simp [same, Ne.symm same]

/-- Only a thunk that exists waits to be computed or is being computed. -/
theorem thunk_of_le {m : Memory} {r : ThunkRef} (h : m.thunks.size ≤ r.index) : m.thunk r = default := by
  simp [thunk, Array.getD_eq_getD_getElem?, Array.getElem?_eq_none h]

theorem lt_of_phase {m : Memory} {r : ThunkRef} (h : ∀ v, (m.thunk r).phase ≠ .forced v) :
    r.index < m.thunks.size := by
  rcases Nat.lt_or_ge r.index m.thunks.size with inside | outside
  · exact inside
  · exact absurd (by rw [thunk_of_le outside]; rfl) (h .void)

theorem thunk_newThunk {m : Memory} {r : ThunkRef} (n : Node) (home : FrameRef) (h : r.index < m.thunks.size) :
    (m.newThunk n home).2.thunk r = m.thunk r := by
  simp [thunk, newThunk, Array.getD_eq_getD_getElem?, Array.getElem?_push_lt, h]

theorem thunk_newThunk_self (m : Memory) (n : Node) (home : FrameRef) :
    (m.newThunk n home).2.thunk (m.newThunk n home).1 = ⟨n, home, .pending⟩ := by
  simp [thunk, newThunk, Array.getD_eq_getD_getElem?]

theorem thunks_newThunk (m : Memory) (n : Node) (home : FrameRef) :
    (m.newThunk n home).2.thunks.size = m.thunks.size + 1 := by simp [newThunk]

/-- A thunk that exists when one has been made was there before, or is the one. -/
theorem thunk_newThunk_of_lt {m : Memory} {n : Node} {home : FrameRef} {r : ThunkRef}
    (inside : r.index < (m.newThunk n home).2.thunks.size) :
    (r.index < m.thunks.size ∧ (m.newThunk n home).2.thunk r = m.thunk r) ∨
      (r = (m.newThunk n home).1 ∧ (m.newThunk n home).2.thunk r = ⟨n, home, .pending⟩) := by
  rw [thunks_newThunk] at inside
  rcases Nat.lt_succ_iff_lt_or_eq.mp inside with old | last
  · exact .inl ⟨old, thunk_newThunk n home old⟩
  · obtain rfl : r = (m.newThunk n home).1 := congrArg ThunkRef.mk last
    exact .inr ⟨rfl, thunk_newThunk_self m n home⟩

/-- A fresh thunk has no value: whatever has one had it before. -/
theorem thunk_newThunk_of_forced {m : Memory} {n : Node} {home : FrameRef} {r : ThunkRef} {v : Value}
    (forced : ((m.newThunk n home).2.thunk r).phase = .forced v) : (m.newThunk n home).2.thunk r = m.thunk r := by
  rcases Nat.lt_or_ge r.index (m.newThunk n home).2.thunks.size with inside | outside
  · rcases thunk_newThunk_of_lt inside with ⟨-, old⟩ | ⟨-, new⟩
    · exact old
    · rw [new] at forced
      cases forced
  · rw [thunk_of_le outside]
    rw [thunks_newThunk] at outside
    rw [thunk_of_le (Nat.le_of_succ_le outside)]

@[simp] theorem thunks_setPhase (m : Memory) (r : ThunkRef) (phase : Phase) :
    (m.setPhase r phase).thunks.size = m.thunks.size := by simp [setPhase]

theorem elements_newArray (m : Memory) (elements : Array Value) (r : ArrayRef) :
    (m.newArray elements).2.elements r = if r.index = m.arrays.size then elements else m.elements r := by
  simp only [Memory.elements, newArray, Array.getD_eq_getD_getElem?, Array.getElem?_push]
  split
  · rfl
  · rfl

theorem elements_setElement_of_ne {m : Memory} {r q : ArrayRef} {i : Nat} {w : Value} (other : q ≠ r) :
    (m.setElement r i w).elements q = m.elements q := by
  have apart : r.index ≠ q.index := fun same => other (by cases r; cases q; cases same; rfl)
  simp [elements, setElement, Array.getD_eq_getD_getElem?, Array.getElem?_modify, apart]

theorem elements_setElement (m : Memory) (r : ArrayRef) (i : Nat) (w : Value) :
    (m.setElement r i w).elements r = (m.elements r).setIfInBounds i w := by
  simp only [elements, setElement, Array.getD_eq_getD_getElem?, Array.getElem?_modify, if_true]
  cases m.arrays[r.index]? <;> simp

/-- An element is one that was there before, or the new one. -/
theorem mem_elements_setElement {m : Memory} {r q : ArrayRef} {i : Nat} {v w : Value}
    (member : v ∈ (m.setElement r i w).elements q) : v ∈ m.elements q ∨ v = w := by
  by_cases same : q = r
  · subst same
    rw [elements_setElement] at member
    exact Array.mem_or_eq_of_mem_setIfInBounds member
  · rw [elements_setElement_of_ne same] at member
    exact .inl member

/-- Arrays stay, and they keep their lengths. -/
structure KeepsLengths (m m' : Memory) : Prop where
  arrays : m.arrays.size ≤ m'.arrays.size
  length (r : ArrayRef) : r.index < m.arrays.size → m'.length r = m.length r

namespace KeepsLengths
variable {m m' m'' : Memory}

theorem still (arrays : m'.arrays = m.arrays) : m.KeepsLengths m' := by
  refine ⟨Nat.le_of_eq (by rw [arrays]), fun r _ => ?_⟩
  simp only [Memory.length, Memory.elements, arrays]

theorem refl (m : Memory) : m.KeepsLengths m := still rfl

theorem trans (h : m.KeepsLengths m') (h' : m'.KeepsLengths m'') : m.KeepsLengths m'' :=
  ⟨Nat.le_trans h.arrays h'.arrays, fun r inside => (h'.length r (Nat.lt_of_lt_of_le inside h.arrays)).trans (h.length r inside)⟩

theorem newArray (m : Memory) (elements : Array Value) : m.KeepsLengths (m.newArray elements).2 := by
  refine ⟨by simp [Memory.newArray], fun r inside => ?_⟩
  rw [Memory.length, elements_newArray, if_neg (Nat.ne_of_lt inside), ← Memory.length]

theorem setElement (m : Memory) (r : ArrayRef) (i : Nat) (v : Value) : m.KeepsLengths (m.setElement r i v) := by
  refine ⟨by simp [Memory.setElement], fun q inside => ?_⟩
  simp only [Memory.length, Memory.elements, Memory.setElement, Array.getD_eq_getD_getElem?, Array.getElem?_modify]
  by_cases same : r.index = q.index
  · cases found : m.arrays[q.index]? with
    | none => simp [same]
    | some old => simp [same]
  · simp [same]

end KeepsLengths

end Memory

/-! ## Frames and bindings -/

namespace Bindings

theorem mem_update {b : Bindings} {f : Binding → Binding} {name : String} {item : String × Binding}
    (member : item ∈ b.update f name) : item ∈ b ∨ ∃ old ∈ b, item.2 = f old.2 := by
  induction b with
  | nil => cases member
  | cons head rest ih =>
    obtain ⟨key, binding⟩ := head
    unfold update at member
    split at member
    · rcases List.mem_cons.mp member with rfl | member
      · exact .inr ⟨_, List.mem_cons_self, rfl⟩
      · exact .inl (List.mem_cons_of_mem _ member)
    · rcases List.mem_cons.mp member with rfl | member
      · exact .inl List.mem_cons_self
      · rcases ih member with old | ⟨old, among, same⟩
        · exact .inl (List.mem_cons_of_mem _ old)
        · exact .inr ⟨old, List.mem_cons_of_mem _ among, same⟩

/-- What is new after an update is what its name was bound to, changed. -/
theorem mem_update_get? {b : Bindings} {f : Binding → Binding} {name : String} {item : String × Binding}
    (member : item ∈ b.update f name) : item ∈ b ∨ ∃ old, b.get? name = some old ∧ item.2 = f old := by
  induction b with
  | nil => cases member
  | cons head rest ih =>
    obtain ⟨key, binding⟩ := head
    unfold update at member
    split at member
    · rename_i same
      rcases List.mem_cons.mp member with rfl | member
      · exact .inr ⟨binding, by rw [get?, LawfulBEq.eq_of_beq same, List.lookup_cons_self], rfl⟩
      · exact .inl (List.mem_cons_of_mem _ member)
    · rename_i other
      rcases List.mem_cons.mp member with rfl | member
      · exact .inl List.mem_cons_self
      · rcases ih member with old | ⟨old, found, same⟩
        · exact .inl (List.mem_cons_of_mem _ old)
        · refine .inr ⟨old, ?_, same⟩
          have apart : (name == key) = false := beq_false_of_ne fun same => other (by rw [same, beq_self_eq_true])
          rwa [get?, List.lookup_cons, apart]

theorem mem_insert {b : Bindings} {name : String} {binding : Binding} {item : String × Binding}
    (member : item ∈ b.insert name binding) : item ∈ b ∨ item.2 = binding := by
  unfold insert at member
  split at member
  · rcases mem_update member with old | ⟨_, _, same⟩
    · exact .inl old
    · exact .inr same
  · rcases List.mem_append.mp member with old | new
    · exact .inl old
    · exact .inr (by rw [List.mem_singleton.mp new])

theorem mem_of_get? {b : Bindings} {name : String} {binding : Binding} (found : b.get? name = some binding) :
    (name, binding) ∈ b := by
  obtain ⟨before, after, rfl, -⟩ := List.lookup_eq_some_iff.mp found
  exact List.mem_append_right _ List.mem_cons_self

theorem get?_isSome (b : Bindings) (name : String) : (b.get? name).isSome = b.contains name := by
  rw [Bool.eq_iff_iff, get?, List.lookup_isSome_iff, contains, List.any_eq_true]
  simp only [beq_iff_eq]
  constructor
  · rintro ⟨item, member, same⟩
    exact ⟨item, member, same.symm⟩
  · rintro ⟨item, member, same⟩
    exact ⟨item, member, same.symm⟩

theorem get?_update (b : Bindings) (f : Binding → Binding) (name x : String) :
    (b.update f name).get? x = if x = name then (b.get? x).map f else b.get? x := by
  induction b with
  | nil => simp [update, get?]
  | cons head rest ih =>
    obtain ⟨key, binding⟩ := head
    unfold update
    simp only [get?, beq_iff_eq] at ih ⊢
    by_cases here : key = name
    · subst here
      by_cases same : x = key
      · simp [same]
      · simp [List.lookup_cons, beq_false_of_ne same, same]
    · rw [if_neg here, List.lookup_cons, List.lookup_cons, ih]
      by_cases same : x = key
      · simp [same, here]
      · simp [beq_false_of_ne same]

theorem names_update (b : Bindings) (f : Binding → Binding) (name : String) : (b.update f name).map (·.1) = b.map (·.1) := by
  induction b with
  | nil => rfl
  | cons head rest ih =>
    obtain ⟨key, binding⟩ := head
    unfold update
    split
    · rfl
    · exact congrArg (_ :: ·) ih

/-- An insertion changes what its name is bound to. -/
theorem get?_insert (b : Bindings) (name x : String) (binding : Binding) :
    (b.insert name binding).get? x = if x = name then some binding else b.get? x := by
  have bound := b.get?_isSome name
  unfold insert
  split
  · rename_i contained
    rw [contained] at bound
    obtain ⟨old, found⟩ := Option.isSome_iff_exists.mp bound
    rw [get?_update]
    by_cases same : x = name
    · simp [same, found]
    · simp [same]
  · rename_i free
    rw [Bool.eq_false_iff.mpr free, Option.isSome_eq_false_iff, Option.isNone_iff_eq_none] at bound
    unfold get? at bound ⊢
    rw [List.lookup_append]
    by_cases same : x = name
    · simp [same, bound]
    · simp [List.lookup_cons, beq_false_of_ne same, same]

end Bindings

namespace State

/-- The bindings of one frame change, and nothing of any other. -/
theorem frame_modifyBindings (s : State) (n k : Nat) (f : Bindings → Bindings) :
    (s.modifyBindings (.numbered n) f).frame (.numbered k) =
      if k = n ∧ n < s.frames.size then { s.frame (.numbered k) with bindings := f (s.frame (.numbered k)).bindings }
      else s.frame (.numbered k) := by
  simp only [frame, modifyBindings, Array.getD_eq_getD_getElem?, Array.getElem?_modify]
  by_cases same : n = k
  · subst same
    by_cases inside : n < s.frames.size
    · simp [inside]
    · simp [inside]
  · simp [same, Ne.symm same]

theorem frame_modifyDetached (s : State) (n k : Nat) (f : Bindings → Bindings) :
    (s.modifyBindings (.detached n) f).frame (.detached k) =
      if k = n ∧ n < s.detached.size then { s.frame (.detached k) with bindings := f (s.frame (.detached k)).bindings }
      else s.frame (.detached k) := by
  simp only [frame, modifyBindings, Array.getD_eq_getD_getElem?, Array.getElem?_modify]
  by_cases same : n = k
  · subst same
    by_cases inside : n < s.detached.size
    · simp [inside]
    · simp [inside]
  · simp [same, Ne.symm same]

/-- Other frames than the one whose bindings change stay. -/
theorem frame_modifyBindings_of_ne {s : State} {r q : FrameRef} (apart : q ≠ r) (f : Bindings → Bindings) :
    (s.modifyBindings r f).frame q = s.frame q := by
  cases r with
  | numbered n =>
    cases q with
    | numbered k => rw [frame_modifyBindings, if_neg fun here => apart (congrArg _ here.1)]
    | detached k => rfl
  | detached n =>
    cases q with
    | numbered k => rfl
    | detached k => rw [frame_modifyDetached, if_neg fun here => apart (congrArg _ here.1)]

@[simp] theorem around_modifyBindings (s : State) (r q : FrameRef) (f : Bindings → Bindings) :
    ((s.modifyBindings r f).frame q).around = (s.frame q).around := by
  by_cases here : q = r
  · cases r with
    | numbered n =>
      rw [here, frame_modifyBindings]
      split
      · rfl
      · rfl
    | detached n =>
      rw [here, frame_modifyDetached]
      split
      · rfl
      · rfl
  · rw [frame_modifyBindings_of_ne here]

@[simp] theorem frames_modifyBindings (s : State) (r : FrameRef) (f : Bindings → Bindings) :
    (s.modifyBindings r f).frames.size = s.frames.size := by
  cases r with
  | detached k => rfl
  | numbered k => simp [modifyBindings]

@[simp] theorem detached_modifyBindings (s : State) (r : FrameRef) (f : Bindings → Bindings) :
    (s.modifyBindings r f).detached.size = s.detached.size := by
  cases r with
  | detached k => simp [modifyBindings]
  | numbered k => rfl

@[simp] theorem detached_clearIfGone (s : State) (r : FrameRef) (rest : List FrameRef) :
    (s.clearIfGone r rest).detached.size = s.detached.size := by
  unfold clearIfGone; split <;> simp

@[simp] theorem detached_clearAll (s : State) (stack : List FrameRef) :
    (s.clearAll stack).detached.size = s.detached.size := by
  induction stack generalizing s with
  | nil => rfl
  | cons r rest ih => simp [clearAll, ih]

@[simp] theorem detached_dropTop (s : State) : s.dropTop.detached.size = s.detached.size := by
  unfold dropTop; split <;> simp

/-- A frame that is pushed lies inside its parent and binds nothing. -/
theorem frame_pushInside (s : State) (tag : FrameTag) (parent : FrameRef) (n : Nat) :
    (s.pushInside tag parent).2.frame (.numbered n) =
      if n = s.frames.size then ⟨tag, parent :: (s.frame parent).around, []⟩ else s.frame (.numbered n) := by
  simp only [frame, pushInside, Array.getD_eq_getD_getElem?, Array.getElem?_push]
  split
  · rfl
  · rfl

theorem frame_pushInside_self (s : State) (tag : FrameTag) (parent : FrameRef) :
    (s.pushInside tag parent).2.frame (.numbered s.frames.size) = ⟨tag, parent :: (s.frame parent).around, []⟩ := by
  rw [frame_pushInside, if_pos rfl]

/-- A frame that is pushed changes no other. -/
theorem frame_pushInside_of_lt {s : State} (tag : FrameTag) (parent : FrameRef) {n : Nat} (small : n < s.frames.size) :
    (s.pushInside tag parent).2.frame (.numbered n) = s.frame (.numbered n) := by
  rw [frame_pushInside, if_neg (Nat.ne_of_lt small)]

theorem size_frames_pushInside (s : State) (tag : FrameTag) (parent : FrameRef) :
    (s.pushInside tag parent).2.frames.size = s.frames.size + 1 := Array.size_push _

end State
end MiniC
