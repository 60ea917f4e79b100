import MiniC.Proofs.Lexical

/-!
# The bindings of frames

What a frame binds a name to, and what becomes of that when a name is bound and when a
frame is given up.
-/

namespace MiniC

namespace State

/-- What a frame binds a name to. -/
def get? (s : State) (r : FrameRef) (name : String) : Option Binding := (s.frame r).bindings.get? name

theorem get?_bind (s : State) (n : Nat) (r : FrameRef) (name x : String) (b : Binding) :
    (s.bind (.numbered n) name b).get? r x =
      if r = .numbered n ∧ n < s.frames.size ∧ x = name then some b else s.get? r x := by
  cases r with
  | detached k => rw [if_neg (fun all => nomatch all.1)]; rfl
  | numbered k =>
    unfold get? bind
    rw [frame_modifyBindings]
    by_cases here : k = n ∧ n < s.frames.size
    · rw [if_pos here, Bindings.get?_insert]
      obtain ⟨rfl, inside⟩ := here
      simp [inside]
    · rw [if_neg here, if_neg fun all => here ⟨FrameRef.numbered.inj all.1, all.2.1⟩]

/-- A store changes the value of its name where that is bound. -/
theorem get?_store (s : State) (name x : String) (v : Value) (n : Nat) :
    (s.store name v).get? (.numbered n) x =
      if s.lookupFrame? name = some (.numbered n) ∧ n < s.frames.size ∧ x = name then
        (s.get? (.numbered n) x).map ({ · with value := v })
      else s.get? (.numbered n) x := by
  unfold store
  cases s.lookupFrame? name with
  | none => simp
  | some r =>
    cases r with
    | detached k =>
      rw [if_neg fun all => nomatch all.1]
      rfl
    | numbered k =>
      unfold get?
      dsimp only
      rw [frame_modifyBindings]
      by_cases here : n = k ∧ k < s.frames.size
      · rw [if_pos here, Bindings.get?_update]
        obtain ⟨rfl, inside⟩ := here
        simp [inside]
      · rw [if_neg here, if_neg fun all => here ?_]
        cases all.1
        exact ⟨rfl, all.2.1⟩

/-- A name is looked up where it is bound. -/
theorem lookupFrame_of_lookup {s : State} {name : String} {span : Option Span} {b : Binding}
    (found : s.lookup name span = .ok b) : ∃ r, s.lookupFrame? name = some r ∧ s.get? r name = some b := by
  unfold lookup at found
  split at found
  · rename_i b' seen
    cases found
    exact Option.bind_eq_some_iff.mp seen
  · cases found

/-- What a name is looked up to is bound to it in a frame of the scope. -/
theorem binding_of_lookup {s : State} {name : String} {span : Option Span} {b : Binding}
    (found : s.lookup name span = .ok b) : ∃ r ∈ s.scope, (name, b) ∈ (s.frame r).bindings := by
  obtain ⟨r, at_r, bound⟩ := lookupFrame_of_lookup found
  exact ⟨r, List.mem_of_find?_eq_some at_r, Bindings.mem_of_get? bound⟩

/-- A name can be declared in a frame exactly if nothing is bound to it there. -/
theorem declareFault?_eq_none {s : State} {r : FrameRef} {name : String} {span : Option Span} :
    s.declareFault? r name span = none ↔ s.get? r name = none := by
  unfold declareFault? get?
  rw [← Bindings.get?_isSome]
  cases (s.frame r).bindings.get? name <;> simp

/-- A frame that leaves the stack takes nothing else with it. -/
theorem frame_dropTop {s : State} {k n : Nat} {rest : List FrameRef} (stack : s.stack = .numbered k :: rest)
    (other : n ≠ k) : s.dropTop.frame (.numbered n) = s.frame (.numbered n) := by
  unfold dropTop
  rw [stack]
  dsimp only
  unfold clearIfGone
  split
  · rfl
  · rw [frame_modifyBindings, if_neg fun all => other all.1]
    rfl

/-- A frame that is still on the chain stays as it is. -/
theorem frame_dropTop_of_mem {s : State} {r : FrameRef} {rest : List FrameRef} (stack : s.stack = r :: rest)
    (held : r ∈ rest ++ [FrameRef.global]) (q : FrameRef) : s.dropTop.frame q = s.frame q := by
  unfold dropTop
  rw [stack]
  dsimp only
  unfold clearIfGone
  rw [if_pos]
  · cases q <;> rfl
  · rcases List.mem_append.mp held with inside | outermost
    · exact .inr (List.any_eq_true.mpr ⟨r, inside, beq_self_eq_true _⟩)
    · rw [List.mem_singleton.mp outermost]
      exact .inl rfl

/-- The frames that are left on the chain stay as they are. -/
theorem frame_dropTop_of_chain {s : State} (L : s.Lexical) {q : FrameRef} (held : q ∈ s.dropTop.chain) :
    s.dropTop.frame q = s.frame q := by
  have left : q ∈ s.stack.tail ++ [FrameRef.global] := by
    rwa [chain, dropTop_stack] at held
  have stacked := L.stacked
  cases stack : s.stack with
  | nil =>
    unfold dropTop
    rw [stack]
  | cons r rest =>
    rw [stack] at left stacked
    obtain ⟨n, -, rfl⟩ := L.inside_of_mem stacked q (List.mem_cons_of_mem _ left)
    obtain ⟨k, -, rfl⟩ := L.inside_of_mem stacked r List.mem_cons_self
    by_cases same : n = k
    · subst same
      exact frame_dropTop_of_mem stack left _
    · exact frame_dropTop stack same

/-- What is bound after a frame may have been given up was bound before. -/
theorem mem_of_clearIfGone {s : State} {r : FrameRef} {rest : List FrameRef} {n : Nat} {b : String × Binding}
    (member : b ∈ ((s.clearIfGone r rest).frame (.numbered n)).bindings) : b ∈ (s.frame (.numbered n)).bindings := by
  unfold clearIfGone at member
  split at member
  · exact member
  · cases r with
    | detached k => exact member
    | numbered k =>
      rw [frame_modifyBindings] at member
      split at member
      · cases member
      · exact member

theorem mem_of_dropTop {s : State} {n : Nat} {b : String × Binding}
    (member : b ∈ (s.dropTop.frame (.numbered n)).bindings) : b ∈ (s.frame (.numbered n)).bindings := by
  unfold dropTop at member
  split at member
  · exact member
  · rename_i r rest _
    exact mem_of_clearIfGone (s := { s with stack := rest }) member

/-- What a frame binds when the one on top is given up it did bind before. -/
theorem get?_of_dropTop {s : State} {n : Nat} {name : String} {b : Binding}
    (found : s.dropTop.get? (.numbered n) name = some b) : s.get? (.numbered n) name = some b := by
  unfold dropTop at found
  split at found
  · exact found
  · unfold clearIfGone at found
    split at found
    · exact found
    · rename_i r rest _ _
      cases r with
      | detached k => exact found
      | numbered k =>
        rw [get?, frame_modifyBindings] at found
        split at found
        · cases found
        · exact found

/-- The global frame is never given up. -/
theorem global_dropTop (s : State) : s.dropTop.frame .global = s.frame .global := by
  unfold dropTop
  split
  · rfl
  · unfold clearIfGone
    split
    · rfl
    · rename_i r rest _ gone
      cases r with
      | detached k => exact absurd (.inl rfl) gone
      | numbered k =>
        show State.frame _ (.numbered 0) = _
        rw [frame_modifyBindings, if_neg]
        · rfl
        · rintro ⟨same, -⟩
          exact gone (.inl same.symm)

@[simp] theorem frames_dropTop (s : State) : s.dropTop.frames.size = s.frames.size := by
  unfold dropTop
  split
  · rfl
  · unfold clearIfGone
    split
    · rfl
    · rw [frames_modifyBindings]

end State

end MiniC
